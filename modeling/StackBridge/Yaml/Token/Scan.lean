/-
From text to tokens. Indentation is turned into start and end tokens. Whether a token begins a key
is known only when a colon follows it on the same line; until then it is kept as a candidate, and
when the colon comes the key token is put in front of it.
-/
import StackBridge.Yaml.Token.Name
import StackBridge.Yaml.Token.Scalar

namespace StackBridge.Yaml

/-- A token that turns out to be a key if a colon follows. -/
structure KeyCandidate where
  /-- At the indentation of its block nothing but a key can stand. -/
  required : Bool
  /-- The number of tokens before it. -/
  position : Nat
  mark : Mark
deriving DecidableEq, Repr

/-- The state of a scan. -/
structure Scan where
  cursor : Cursor
  tokens : Array Token := #[]
  /-- Whether a key may begin here. -/
  keyAllowed : Bool := true
  /-- The candidate of the current level, outside of brackets or within the innermost ones. -/
  candidate : Option KeyCandidate := none
  /-- The candidates of the levels around it. -/
  outer : List (Option KeyCandidate) := []
  /-- The column of the current block, -1 outside of all. -/
  indent : Int := -1
  indents : List Int := []
  finished : Bool := false
deriving Repr

namespace Scan

def inFlow (scan : Scan) : Bool :=
  !scan.outer.isEmpty

def mark (scan : Scan) : Mark :=
  scan.cursor.mark

def push (scan : Scan) (token : Token) : Scan :=
  { scan with tokens := scan.tokens.push token }

def pushHere (scan : Scan) (kind : TokenKind) : Scan :=
  scan.push ⟨kind, scan.mark, scan.mark⟩

/-- Put a token without extent before those from a position on. -/
def insertAt (scan : Scan) (position : Nat) (kind : TokenKind) (mark : Mark) : Scan :=
  let before := scan.tokens.extract 0 position
  let behind := scan.tokens.extract position scan.tokens.size
  { scan with tokens := before.push ⟨kind, mark, mark⟩ ++ behind }

def pushIndicator (scan : Scan) (kind : TokenKind) (length : Nat) : Scan :=
  let start := scan.mark
  let cursor := (List.range length).foldl (fun cursor _ => cursor.next) scan.cursor
  { scan.push ⟨kind, start, cursor.mark⟩ with cursor }

/-- Complain that a key at the indentation of its block has no colon. -/
def colonMissing (scan : Scan) (candidate : KeyCandidate) : Malformed :=
  ⟨.colonMissing, scan.mark, some (.scanningSimpleKey, candidate.mark)⟩

def dropCandidate (scan : Scan) : Except Malformed Scan :=
  match scan.candidate with
  | none => return scan
  | some candidate =>
      if candidate.required then throw (scan.colonMissing candidate)
      else return { scan with candidate := none }

/-- Make the token that comes next a candidate, if a key may begin here. -/
def noteCandidate (scan : Scan) : Except Malformed Scan :=
  if scan.keyAllowed then do
    let required := !scan.inFlow && scan.indent = scan.mark.column
    let scan ← scan.dropCandidate
    return { scan with candidate := some ⟨required, scan.tokens.size, scan.mark⟩ }
  else return scan

/-- The longest distance between the start of a key and its colon. -/
def maxKeyLength : Nat := 1024

/-- Whether a candidate has become too old: a key stands on one line and is not too long. -/
def isStale (scan : Scan) (candidate : KeyCandidate) : Bool :=
  candidate.mark.line < scan.mark.line || candidate.mark.index + maxKeyLength < scan.mark.index

/-- What is left of a candidate. -/
def refresh (scan : Scan) : Option KeyCandidate → Except Malformed (Option KeyCandidate)
  | none => return none
  | some candidate =>
      if scan.isStale candidate then
        if candidate.required then throw (scan.colonMissing candidate) else return none
      else return some candidate

/-- Give up all candidates that are too old, those of the outer levels first. -/
def dropStale (scan : Scan) : Except Malformed Scan := do
  let outer ← scan.outer.reverse.mapM scan.refresh
  let candidate ← scan.refresh scan.candidate
  return { scan with outer := outer.reverse, candidate }

/-- Open a block at a column that is deeper than the current one. The start token stands at the end
or before the tokens from a position on. -/
def openBlock (scan : Scan) (kind : TokenKind) (mark : Mark) (position : Option Nat) : Scan :=
  if scan.inFlow || (mark.column : Int) ≤ scan.indent then scan
  else
    let scan := { scan with indents := scan.indent :: scan.indents, indent := mark.column }
    match position with
    | none => scan.push ⟨kind, mark, mark⟩
    | some position => scan.insertAt position kind mark

/-- Close blocks that are deeper than a column, where `levels` are the columns around them. -/
def closeBlocksFrom (column : Int) : List Int → Scan → Scan
  | levels, scan =>
      if scan.indent ≤ column then { scan with indents := levels }
      else
        match levels with
        | [] => { scan.pushHere .blockEnd with indent := -1, indents := [] }
        | level :: outer =>
            closeBlocksFrom column outer { scan.pushHere .blockEnd with indent := level }

/-- Close the blocks that are deeper than a column. Within brackets there are none. -/
def closeBlocks (scan : Scan) (column : Int) : Scan :=
  if scan.inFlow then scan else closeBlocksFrom column scan.indents scan

def lex {α : Type} (scan : Scan) (lexer : Lexer α) : Except Malformed (α × Scan) := do
  let (found, cursor) ← lexer.run scan.cursor
  return (found, { scan with cursor })

/-- Move past blanks, comments and line breaks. A tab may stand only where no key can begin. -/
def skipToToken : Nat → Scan → Scan
  | 0, scan => scan
  | steps + 1, scan =>
      let cursor := scan.cursor
      let cursor :=
        if cursor.mark.index = 0 && cursor.at? 0 = some '\ufeff' then cursor.next else cursor
      let tabs := scan.inFlow || !scan.keyAllowed
      let cursor := cursor.skipWhile (fun c => c = ' ' || (tabs && c = '\t'))
      let cursor :=
        if cursor.at? 0 = some '#' then cursor.skipWhile (fun c => !isBreak c) else cursor
      if (cursor.at? 0).any isBreak then
        skipToToken steps
          { scan with
            cursor := cursor.nextLine.2
            keyAllowed := scan.keyAllowed || !scan.inFlow }
      else { scan with cursor }

/-- The end of the text, which counts as the start of a line. -/
def takeEnd (scan : Scan) : Except Malformed Scan := do
  let mark := scan.mark
  let mark := if mark.column = 0 then mark else ⟨mark.index, mark.line + 1, 0⟩
  let scan := { scan with cursor := { scan.cursor with mark } }
  let scan ← (scan.closeBlocks (-1)).dropCandidate
  return { scan.pushHere .streamEnd with keyAllowed := false, finished := true }

def takeDirective (scan : Scan) : Except Malformed Scan := do
  let scan ← (scan.closeBlocks (-1)).dropCandidate
  let (token, scan) ← { scan with keyAllowed := false }.lex Lexer.directive
  return scan.push token

def takeMarker (scan : Scan) (kind : TokenKind) : Except Malformed Scan := do
  let scan ← (scan.closeBlocks (-1)).dropCandidate
  return { scan with keyAllowed := false }.pushIndicator kind 3

def takeOpening (scan : Scan) (kind : TokenKind) : Except Malformed Scan := do
  let scan ← scan.noteCandidate
  return { scan with
    outer := scan.candidate :: scan.outer, candidate := none, keyAllowed := true
    }.pushIndicator kind 1

def takeClosing (scan : Scan) (kind : TokenKind) : Except Malformed Scan := do
  let scan ← scan.dropCandidate
  let scan :=
    match scan.outer with
    | [] => scan
    | candidate :: outer => { scan with candidate, outer }
  return { scan with keyAllowed := false }.pushIndicator kind 1

def takeComma (scan : Scan) : Except Malformed Scan := do
  let scan ← scan.dropCandidate
  return { scan with keyAllowed := true }.pushIndicator .flowEntry 1

def takeDash (scan : Scan) : Except Malformed Scan := do
  if !scan.inFlow && !scan.keyAllowed then throw ⟨.entryNotAllowed, scan.mark, none⟩
  let scan ← (scan.openBlock .blockSequenceStart scan.mark none).dropCandidate
  return { scan with keyAllowed := true }.pushIndicator .blockEntry 1

def takeQuestion (scan : Scan) : Except Malformed Scan := do
  if !scan.inFlow && !scan.keyAllowed then throw ⟨.keyNotAllowed, scan.mark, none⟩
  let scan ← (scan.openBlock .blockMappingStart scan.mark none).dropCandidate
  return { scan with keyAllowed := !scan.inFlow }.pushIndicator .key 1

/-- The colon of a value. A candidate becomes a key by it. -/
def takeColon (scan : Scan) : Except Malformed Scan := do
  match scan.candidate with
  | some candidate =>
      let scan := scan.insertAt candidate.position .key candidate.mark
      let scan := scan.openBlock .blockMappingStart candidate.mark (some candidate.position)
      return { scan with candidate := none, keyAllowed := false }.pushIndicator .value 1
  | none =>
      if !scan.inFlow && !scan.keyAllowed then throw ⟨.valueNotAllowed, scan.mark, none⟩
      let scan := scan.openBlock .blockMappingStart scan.mark none
      return { scan with keyAllowed := !scan.inFlow }.pushIndicator .value 1

/-- A token that may begin a key and that no other key can follow directly. -/
def takeKeyable (scan : Scan) (lexer : Lexer Token) : Except Malformed Scan := do
  let scan ← scan.noteCandidate
  let (token, scan) ← { scan with keyAllowed := false }.lex lexer
  return scan.push token

def takeBlockScalar (scan : Scan) (folded : Bool) : Except Malformed Scan := do
  let scan ← scan.dropCandidate
  let (token, scan) ← { scan with keyAllowed := true }.lex (Lexer.blockScalar folded scan.indent)
  return scan.push token

/-- A plain scalar. Behind a line break a key may begin. -/
def takePlain (scan : Scan) : Except Malformed Scan := do
  let scan ← scan.noteCandidate
  let ((token, brokeLine), scan) ← scan.lex (Lexer.plain scan.inFlow scan.indent)
  return { scan.push token with keyAllowed := brokeLine }

/-- The characters that no plain scalar begins with, although three of them do if more than a
blank follows. -/
def isIndicator (c : Char) : Bool :=
  "-?:,[]\x7b\x7d#&*!|>'\"%@\x60".toList.contains c

/-- Whether a plain scalar begins with a character that another one follows. -/
def beginsPlain (inFlow : Bool) (c : Char) (next : Option Char) : Bool :=
  (!isIndicator c && !isBlank c && !isBreak c) ||
    (c = '-' && !next.any isBlank) ||
    (!inFlow && (c = '?' || c = ':') && !endsWord next)

/-- Take the token that stands at the cursor. -/
def takeToken (scan : Scan) : Except Malformed Scan :=
  match scan.cursor.at? 0 with
  | none => scan.takeEnd
  | some c =>
      let next := scan.cursor.at? 1
      if c = '%' && scan.mark.column = 0 then scan.takeDirective
      else if scan.cursor.atMarker '-' then scan.takeMarker .documentStart
      else if scan.cursor.atMarker '.' then scan.takeMarker .documentEnd
      else if c = '[' then scan.takeOpening .flowSequenceStart
      else if c = '\x7b' then scan.takeOpening .flowMappingStart
      else if c = ']' then scan.takeClosing .flowSequenceEnd
      else if c = '\x7d' then scan.takeClosing .flowMappingEnd
      else if c = ',' then scan.takeComma
      else if c = '-' && endsWord next then scan.takeDash
      else if c = '?' && (scan.inFlow || endsWord next) then scan.takeQuestion
      else if c = ':' && (scan.inFlow || endsWord next) then scan.takeColon
      else if c = '*' then scan.takeKeyable (Lexer.anchor true)
      else if c = '&' then scan.takeKeyable (Lexer.anchor false)
      else if c = '!' then scan.takeKeyable (Lexer.tag scan.inFlow)
      else if c = '|' && !scan.inFlow then scan.takeBlockScalar false
      else if c = '>' && !scan.inFlow then scan.takeBlockScalar true
      else if c = '\'' then scan.takeKeyable (Lexer.quoted true)
      else if c = '"' then scan.takeKeyable (Lexer.quoted false)
      else if beginsPlain scan.inFlow c next then scan.takePlain
      else throw ⟨.tokenCannotStart, scan.mark, some (.scanningToken, scan.mark)⟩

/-- Move to the next token and take it. -/
def step (scan : Scan) : Except Malformed Scan := do
  let scan ← (skipToToken (scan.cursor.rest.length + 1) scan).dropStale
  let scan ← (scan.closeBlocks scan.mark.column).takeToken
  scan.dropStale

/-- How many tokens are certain: those before the first that may still get a key in front. -/
def settled (scan : Scan) : Nat :=
  (scan.candidate :: scan.outer).foldl (fun count candidate =>
    match candidate with
    | none => count
    | some candidate => min count candidate.position) scan.tokens.size

/-- Take tokens up to the end of the text or the first fault, before which only the certain tokens
count. -/
def run : Nat → Scan → List Token × Option Malformed
  | 0, scan => (scan.tokens.toList, none)
  | steps + 1, scan =>
      if scan.finished then (scan.tokens.toList, none)
      else
        match scan.step with
        | .ok next => run steps next
        | .error fault => (scan.tokens.toList.take scan.settled, some fault)

end Scan

/-- Whether a text may hold a character. -/
def isAllowed (c : Char) : Bool :=
  let code := c.toNat
  code = 9 || code = 10 || code = 13 || (0x20 ≤ code && code ≤ 0x7e) || code = 0x85 ||
    (0xa0 ≤ code && code ≤ 0xd7ff) || (0xe000 ≤ code && code ≤ 0xfffd) || 0x10000 ≤ code

/-- The number of bytes before the first character that a text may not hold. -/
def forbiddenOffset? (offset : Nat) : List Char → Option Nat
  | [] => none
  | c :: rest => if isAllowed c then forbiddenOffset? (offset + c.utf8Size) rest else some offset

/-- The tokens of a text up to its end or its first fault. -/
def tokensOf (text : String) : List Token × Option Malformed :=
  let start : Token := ⟨.streamStart, .start, .start⟩
  match forbiddenOffset? 0 text.toList with
  | some offset => ([start], some ⟨.controlCharacter, ⟨offset, 0, 0⟩, none⟩)
  | none => Scan.run (2 * text.length + 2) { cursor := .start text, tokens := #[start] }

end StackBridge.Yaml
