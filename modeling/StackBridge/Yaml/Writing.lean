/-
The text of a value in block style. Nested blocks are two columns deeper, but a sequence that is the
value of a key stands below the key; empty collections are a pair of brackets.
-/
import StackBridge.Yaml.Style

namespace StackBridge.Yaml

/-- The columns by which a block is deeper than the block around it. -/
def indentWidth : Nat := 2

def spaces (count : Nat) : List Char :=
  List.replicate count ' '

/-- A number in hexadecimal digits of upper case. -/
def upperHex (width n : Nat) : List Char :=
  let digits := (Nat.toDigits 16 n).map Char.toUpper
  List.replicate (width - digits.length) '0' ++ digits

/-- The letter behind the backslash of an escape, for characters that have one. -/
def escapeLetter? (c : Char) : Option Char :=
  match c.toNat with
  | 0x00 => some '0'
  | 0x07 => some 'a'
  | 0x08 => some 'b'
  | 0x09 => some 't'
  | 0x0a => some 'n'
  | 0x0b => some 'v'
  | 0x0c => some 'f'
  | 0x0d => some 'r'
  | 0x1b => some 'e'
  | 0x22 => some '"'
  | 0x5c => some '\\'
  | 0x85 => some 'N'
  | 0x2028 => some 'L'
  | 0x2029 => some 'P'
  | _ => none

def escapedChar (c : Char) : List Char :=
  let code := c.toNat
  match escapeLetter? c with
  | some letter => ['\\', letter]
  | none =>
      if isPrintable c then [c]
      else if code ≤ 0xff then '\\' :: 'x' :: upperHex 2 code
      else if code ≤ 0xffff then '\\' :: 'u' :: upperHex 4 code
      else '\\' :: 'U' :: upperHex 8 code

/-- A text that keeps its line breaks; behind a break the text goes on at the indentation. The
flag tells whether a line begins here. -/
def indentedLines (indent : Nat) (charText : Char → List Char) : Bool → List Char → List Char
  | _, [] => []
  | lineStart, c :: rest =>
      if isBreak c then c :: indentedLines indent charText true rest
      else (if lineStart then spaces indent else []) ++ charText c ++
        indentedLines indent charText false rest

/-- The inside of single quotes. A text that ends with a break goes on before the quote. -/
def singleQuotedBody (indent : Nat) (cs : List Char) : List Char :=
  indentedLines indent (fun c => if c = '\'' then ['\'', '\''] else [c]) false cs ++
    (if cs.getLast?.any isBreak then spaces indent else [])

/-- What stands behind the sign of a literal block: a digit if the indentation cannot be seen from
the first line, and a sign if the breaks at the end are not exactly one. -/
def literalHints (cs : List Char) : List Char :=
  let digit := if cs.head?.any (fun c => isSpace c || isBreak c) then Nat.toDigits 10 indentWidth
    else []
  let sign :=
    match cs.reverse with
    | last :: before =>
        if !isBreak last then ['-']
        else if endOr isBreak before.head? then ['+']
        else []
    | [] => ['-']
  digit ++ sign

/-- A text in a style, within a block whose texts have that indentation. -/
def styledChars (indent : Nat) (cs : List Char) : ScalarStyle → List Char
  | .plain | .folded => cs
  | .singleQuoted => '\'' :: singleQuotedBody indent cs ++ ['\'']
  | .doubleQuoted => '"' :: cs.flatMap escapedChar ++ ['"']
  | .literal => '|' :: literalHints cs ++ '\n' :: indentedLines indent (fun c => [c]) true cs

/-- The text and the style of a scalar. -/
def scalarForm? : Value → Option (String × ScalarStyle)
  | .null => some ("null", .plain)
  | .bool b => some (toString b, .plain)
  | .number n => some (numberText n, .plain)
  | .string s => some (s, styleOf s)
  | .sequence _ | .mapping _ | .tagged .. => none

def tagByte (byte : UInt8) : List Char :=
  let c := Char.ofNat byte.toNat
  if isNameChar c || ";/?:@&=+$,.~*'()[]".toList.contains c then [c]
  else '%' :: upperHex 2 byte.toNat

/-- The characters of a tag, with escapes for those that cannot stand in one. -/
def tagBody (tag : List Char) : List Char :=
  (String.ofList tag).toUTF8.toList.flatMap tagByte

/-- A tag with its mark, which the name of a tag may have already. -/
def markedTag (tag : String) : List Char :=
  if tag.toList.head? = some '!' then tag.toList else '!' :: tag.toList

/-- A tag as it is written. The mark alone has to stand between angle brackets. -/
def tagChars (tag : String) : List Char :=
  match markedTag tag with
  | ['!'] => ['!', '<'] ++ tagBody ['!'] ++ ['>']
  | cs => '!' :: tagBody (cs.drop 1)

/-- The most bytes that a key before its colon can have, its tag included. -/
def maxInlineKey : Nat := 128

/-- A scalar or an empty collection without its tag, as the key of a pair on one line. -/
def inlineKeyOf? (tagBytes : Nat) (tag : List Char) (value : Value) : Option (List Char) :=
  let written (size : Nat) (cs : List Char) : Option (List Char) :=
    if maxInlineKey < tagBytes + size then none
    else some (if tag.isEmpty then cs else tag ++ ' ' :: cs)
  match value with
  | .sequence [] => written 0 ['[', ']']
  | .mapping [] => written 0 ['\x7b', '\x7d']
  | value =>
      match scalarForm? value with
      | none => none
      | some (text, style) =>
          if text.toList.any isBreak then none
          else written text.utf8ByteSize (styledChars 0 text.toList style)

/-- The key of a pair that stands on one line, if it can. -/
def inlineKey? : Value → Option (List Char)
  | .tagged tag value =>
      inlineKeyOf? (String.ofList (markedTag tag)).utf8ByteSize (tagChars tag) value
  | value => inlineKeyOf? 0 [] value

/-- Where a node stands. -/
inductive Place where
  /-- At the start of a document. -/
  | root
  /-- Behind the dash of an item. -/
  | item
  /-- Behind the mark of a key or value that has lines of its own. -/
  | part
  /-- Behind a key and its colon. -/
  | value
deriving DecidableEq, Repr

/-- The indentation of a block within one of the given indentation. -/
def Place.blockIndent (place : Place) (indent : Nat) (isSequence isTagged : Bool) : Nat :=
  match place with
  | .root => 0
  | .item => indent + indentWidth
  | .part => if isSequence && isTagged then indent else indent + indentWidth
  | .value => if isSequence then indent else indent + indentWidth

/-- A word behind a mark, or at the start of a document. -/
def Place.wordChars (place : Place) (cs : List Char) : List Char :=
  if place = .root then cs else ' ' :: cs

/-- What stands between the start of a node and the first line of its block. A block without a tag
begins on the line of a dash or mark. -/
def Place.opening (place : Place) (blockIndent : Nat) (tag : List Char) : List Char :=
  if tag.isEmpty then
    match place with
    | .root => []
    | .item | .part => [' ']
    | .value => '\n' :: spaces blockIndent
  else place.wordChars tag ++ '\n' :: spaces blockIndent

/-- End the line, unless the text has ended it. -/
def closeLine (cs : List Char) : List Char :=
  if cs.getLast?.any isBreak then cs else cs ++ ['\n']

/-- A tag and what stands behind it on the same line. -/
def Place.inline (place : Place) (tag cs : List Char) : List Char :=
  closeLine (if tag.isEmpty then place.wordChars cs else place.wordChars tag ++ ' ' :: cs)

mutual

/-- A node behind its mark, up to the end of its last line. -/
def nodeChars (place : Place) (indent : Nat) (tag : List Char) : Value → List Char
  | .tagged name value => nodeChars place indent (tagChars name) value
  | .sequence [] => place.inline tag ['[', ']']
  | .mapping [] => place.inline tag ['\x7b', '\x7d']
  | .sequence (item :: rest) =>
      let blockIndent := place.blockIndent indent true (!tag.isEmpty)
      place.opening blockIndent tag ++ itemsChars blockIndent (item :: rest)
  | .mapping (entry :: rest) =>
      let blockIndent := place.blockIndent indent false (!tag.isEmpty)
      place.opening blockIndent tag ++ entriesChars blockIndent (entry :: rest)
  | .null => place.inline tag "null".toList
  | .bool b => place.inline tag (toString b).toList
  | .number n => place.inline tag (numberText n).toList
  | .string s => place.inline tag (styledChars (indent + indentWidth) s.toList (styleOf s))

/-- The items of a sequence, from behind the indentation of the first on. -/
def itemsChars (indent : Nat) : List Value → List Char
  | [] => []
  | item :: rest =>
      '-' :: nodeChars .item indent [] item ++
        (if rest.isEmpty then [] else spaces indent ++ itemsChars indent rest)

/-- The entries of a mapping, from behind the indentation of the first on. -/
def entriesChars (indent : Nat) : List (Value × Value) → List Char
  | [] => []
  | (key, value) :: rest =>
      (match inlineKey? key with
        | some cs => cs ++ ':' :: nodeChars .value indent [] value
        | none =>
            '?' :: nodeChars .part indent [] key ++ spaces indent ++
              ':' :: nodeChars .part indent [] value) ++
        (if rest.isEmpty then [] else spaces indent ++ entriesChars indent rest)

end

mutual

/-- Whether a value has a text. A tagged key that is the only one of its mapping cannot be told from
a tag of the mapping itself. -/
def Value.isWritable : Value → Bool
  | .mapping [(.tagged .., _)] => false
  | .mapping entries => areEntriesWritable entries
  | .sequence items => areItemsWritable items
  | .tagged _ value => value.isWritable
  | .null | .bool _ | .number _ | .string _ => true

def areItemsWritable : List Value → Bool
  | [] => true
  | item :: rest => item.isWritable && areItemsWritable rest

def areEntriesWritable : List (Value × Value) → Bool
  | [] => true
  | (key, value) :: rest => key.isWritable && value.isWritable && areEntriesWritable rest

end

/-- The document that holds a value. -/
def Value.chars (value : Value) : List Char :=
  nodeChars .root 0 [] value

/-- The text of the document that holds a value. -/
def Value.text (value : Value) : Except Fault String :=
  match value with
  | .mapping [(.tagged .., _)] => throw .documentExpected
  | value =>
      if value.isWritable then return String.ofList value.chars else throw .nodeExpected

end StackBridge.Yaml
