/-
Which style a text is written in. A text is plain where that reads back as the same text; then it
is quoted, with double quotes only where a character needs an escape. Texts of several lines are
literal blocks if they can be.
-/
import StackBridge.Yaml.Cursor
import StackBridge.Yaml.Scalar

namespace StackBridge.Yaml

def isPrintable (c : Char) : Bool :=
  let code := c.toNat
  code = 10 || (0x20 ≤ code && code ≤ 0x7e) || (0xa0 ≤ code && code ≤ 0xd7ff) ||
    (0xe000 ≤ code && code ≤ 0xfffd && code ≠ 0xfeff) || 0x10000 ≤ code

/-- Whether a text has a character of one kind and directly behind it one of another. -/
def hasPair (first second : Char → Bool) : List Char → Bool
  | c :: d :: rest => (first c && second d) || hasPair first second (d :: rest)
  | _ => false

/-- Whether a word ends before a character, which includes the one that stands for nothing. -/
def endsWordAt (next : Option Char) : Bool :=
  endsWord next || next = some '\x00'

/-- Whether a text begins with a mark of the syntax. -/
def startsWithMark : List Char → Bool
  | [] => false
  | '-' :: '-' :: '-' :: _ | '.' :: '.' :: '.' :: _ => true
  | c :: rest =>
      "#,[]\x7b\x7d&*!|>'\"%@\x60".toList.contains c ||
        ((c = '?' || c = ':' || c = '-') && endsWordAt rest.head?)

/-- Whether a mark of the syntax stands within a text. -/
def hasInnerMark : List Char → Bool
  | c :: d :: rest =>
      (d = ':' && endsWordAt rest.head?) || (d = '#' && endsWordAt (some c)) ||
        hasInnerMark (d :: rest)
  | _ => false

def isSpace (c : Char) : Bool :=
  c = ' '

/-- What keeps a text from being written in a style that has no escapes. -/
def needsEscapes (cs : List Char) : Bool :=
  cs.any (fun c => !isPrintable c) || hasPair isSpace isBreak cs

/-- Whether a text can stand as it is. -/
def allowsPlain (cs : List Char) : Bool :=
  let blankEnd (c : Option Char) : Bool := c.any fun c => isSpace c || isBreak c
  !blankEnd cs.head? && !blankEnd cs.getLast? && !needsEscapes cs && !cs.any isBreak &&
    !startsWithMark cs && !hasInnerMark cs

/-- Whether a text can stand between single quotes. -/
def allowsSingleQuotes (cs : List Char) : Bool :=
  !needsEscapes cs && !hasPair isBreak isSpace cs

/-- Whether a text can be a literal block. -/
def allowsLiteral (cs : List Char) : Bool :=
  !cs.isEmpty && !needsEscapes cs && !cs.getLast?.any isSpace

def quoteStyle (cs : List Char) : ScalarStyle :=
  if allowsSingleQuotes cs then .singleQuoted else .doubleQuoted

/-- Whether a plain text would be read as the text. -/
def readsAsText (text : String) : Bool :=
  !isZeroPadded text.toList &&
    match plainMeaning text with
    | .text _ => true
    | _ => false

/-- The style that a text is written in. -/
def styleOf (text : String) : ScalarStyle :=
  let cs := text.toList
  if cs.contains '\n' then (if allowsLiteral cs then .literal else .doubleQuoted)
  else if readsAsText text && allowsPlain cs then .plain
  else quoteStyle cs

end StackBridge.Yaml
