/-
Tokens that hold text: plain and quoted scalars, which may run over several lines that are folded
into one, and block scalars, which indentation delimits.
-/
import StackBridge.Yaml.Token

namespace StackBridge.Yaml.Lexer

/-- The blanks and line breaks between two words of a scalar. -/
structure Gap where
  /-- Blanks before the first line break, if there is one. -/
  blanks : List Char
  /-- What the first line break stands for, if there is one. -/
  firstBreak : Option (List Char)
  laterBreaks : List Char
deriving DecidableEq, Repr

def Gap.none : Gap := ⟨[], .none, []⟩

/-- What a gap stands for: one line break is a space, several are one less, and blanks within a
line stand for themselves. -/
def Gap.fold (gap : Gap) : List Char :=
  match gap.firstBreak with
  | .none => gap.blanks
  | some ['\n'] => if gap.laterBreaks.isEmpty then [' '] else gap.laterBreaks
  | some first => first ++ gap.laterBreaks

/-- Read the blanks and line breaks that stand here. A check is made at each blank behind a line
break. -/
def gapFrom (check : Char → Lexer Unit) : Nat → Gap → Lexer Gap
  | 0, gap => return gap
  | steps + 1, gap => do
      match ← peek with
      | none => return gap
      | some c =>
          if isBlank c then
            if gap.firstBreak.isSome then
              check c
              advance
              gapFrom check steps gap
            else
              advance
              gapFrom check steps { gap with blanks := gap.blanks ++ [c] }
          else if isBreak c then
            let found ← lineBreak
            if gap.firstBreak.isSome then
              gapFrom check steps { gap with laterBreaks := gap.laterBreaks ++ found }
            else gapFrom check steps { gap with blanks := [], firstBreak := some found }
          else return gap

/-- The character that a letter behind a backslash stands for. -/
def simpleEscape? : Char → Option Char
  | '0' => some '\x00'
  | 'a' => some '\x07'
  | 'b' => some '\x08'
  | 't' | '\t' => some '\t'
  | 'n' => some '\n'
  | 'v' => some '\x0b'
  | 'f' => some '\x0c'
  | 'r' => some '\r'
  | 'e' => some '\x1b'
  | ' ' => some ' '
  | '"' => some '"'
  | '/' => some '/'
  | '\\' => some '\\'
  | 'N' => some '\u0085'
  | '_' => some '\u00a0'
  | 'L' => some '\u2028'
  | 'P' => some '\u2029'
  | _ => none

/-- The number of digits behind the letter of a numeric escape. -/
def escapeLength? : Char → Option Nat
  | 'x' => some 2
  | 'u' => some 4
  | 'U' => some 8
  | _ => none

/-- The value of hexadecimal digits, if all of them are. -/
def hexNumber? (digits : List Char) : Option Nat :=
  digits.foldlM (fun value c => (hexValue? c).map (value * 16 + ·)) 0

/-- Move past that many characters of the line. -/
def advanceBy : Nat → Lexer Unit
  | 0 => return
  | count + 1 => do
      advance
      advanceBy count

/-- An escape, at whose backslash the cursor stands. -/
def escape (start : Mark) : Lexer Char := do
  match ← peek 1 with
  | none => fail .escapeUnknown .parsingQuoted start
  | some letter =>
      match simpleEscape? letter, escapeLength? letter with
      | some c, _ =>
          advanceBy 2
          return c
      | none, none => fail .escapeUnknown .parsingQuoted start
      | none, some count =>
          advanceBy 2
          let digits := (← get).rest.take count
          match hexNumber? digits with
          | none => fail .escapeDigitMissing .parsingQuoted start
          | some code =>
              if digits.length < count then fail .escapeDigitMissing .parsingQuoted start
              if (0xd800 ≤ code && code ≤ 0xdfff) || 0x10ffff < code then
                fail .escapeInvalid .parsingQuoted start
              advanceBy count
              return Char.ofNat code

/-- What stands behind the words of a quoted scalar. -/
inductive WordEnd where
  /-- A blank, a line break, the closing quote or the end of the text. -/
  | plain
  /-- A line break that a backslash removes. -/
  | joined
deriving DecidableEq, Repr

/-- The characters of a quoted scalar up to a blank, a line break or the closing quote. -/
def quotedWord (single : Bool) (start : Mark) : Nat → List Char → Lexer (List Char × WordEnd)
  | 0, read => return (read.reverse, .plain)
  | steps + 1, read => do
      match ← peek with
      | none => return (read.reverse, .plain)
      | some c =>
          if isBlank c || isBreak c then return (read.reverse, .plain)
          else if single && c = '\'' then
            if (← peek 1) = some '\'' then
              advanceBy 2
              quotedWord single start steps ('\'' :: read)
            else return (read.reverse, .plain)
          else if !single && c = '"' then return (read.reverse, .plain)
          else if !single && c = '\\' then
            if (← peek 1).any isBreak then
              advance
              let _ ← lineBreak
              return (read.reverse, .joined)
            else
              let meaning ← escape start
              quotedWord single start steps (meaning :: read)
          else
            advance
            quotedWord single start steps (c :: read)

/-- The words of a quoted scalar up to its closing quote. -/
def quotedBody (single : Bool) (start : Mark) : Nat → List Char → Lexer (List Char)
  | 0, _ => fail .endInScalar .scanningQuoted start
  | steps + 1, read => do
      if (← get).atDocumentMarker then fail .documentMarkerInScalar .scanningQuoted start
      if (← peek).isNone then fail .endInScalar .scanningQuoted start
      let (word, wordEnd) ← quotedWord single start (← remaining) []
      let read := read ++ word
      if (← peek) = some (if single then '\'' else '"') then return read
      let before := match wordEnd with
        | .plain => Gap.none
        | .joined => { Gap.none with firstBreak := some [] }
      let gap ← gapFrom (fun _ => return) (← remaining) before
      quotedBody single start steps (read ++ gap.fold)

def quoted (single : Bool) : Lexer Token := do
  let start ← here
  advance
  let text ← quotedBody single start (← remaining) []
  advance
  return ⟨.scalar (String.ofList text) (if single then .singleQuoted else .doubleQuoted), start,
    ← here⟩

/-- Whether a character has a meaning of its own within brackets. -/
def isFlowIndicator (c : Char) : Bool :=
  c = ',' || c = '[' || c = ']' || c = '\x7b' || c = '\x7d'

/-- The characters of a plain scalar up to a blank, a line break or an indicator that ends it. -/
def plainWord (inFlow : Bool) (start : Mark) : Nat → List Char → Lexer (List Char)
  | 0, read => return read.reverse
  | steps + 1, read => do
      match ← peek with
      | none => return read.reverse
      | some c =>
          if isBlank c || isBreak c then return read.reverse
          let next ← peek 1
          if inFlow && c = ':' && next.any (fun c => c = '?' || isFlowIndicator c) then
            fail .colonUnexpected .scanningPlain start
          if (c = ':' && endsWord next) || (inFlow && isFlowIndicator c) then return read.reverse
          advance
          plainWord inFlow start steps (c :: read)

/-- The words of a plain scalar, the place behind the last one, and whether the last gap had a
line break. -/
def plainBody (inFlow : Bool) (indent : Int) (start : Mark) :
    Nat → List Char → Gap → Mark → Lexer (List Char × Mark × Bool)
  | 0, read, gap, stop => return (read, stop, gap.firstBreak.isSome)
  | steps + 1, read, gap, stop => do
      let cursor ← get
      if cursor.atDocumentMarker || cursor.at? 0 = some '#' then
        return (read, stop, gap.firstBreak.isSome)
      let word ← plainWord inFlow start (← remaining) []
      let read := if word.isEmpty then read else read ++ gap.fold ++ word
      let stop ← if word.isEmpty then pure stop else here
      let gap := if word.isEmpty then gap else Gap.none
      if !(← peek).any (fun c => isBlank c || isBreak c) then
        return (read, stop, gap.firstBreak.isSome)
      let gap ← gapFrom (fun c => do
        if c = '\t' && ((← here).column : Int) < indent then
          fail .tabBreaksIndentation .scanningPlain start) (← remaining) gap
      if !inFlow && ((← here).column : Int) < indent then
        return (read, stop, gap.firstBreak.isSome)
      plainBody inFlow indent start steps read gap stop

/-- A plain scalar, and whether it ended on a later line than its last word. -/
def plain (inFlow : Bool) (indent : Int) : Lexer (Token × Bool) := do
  let start ← here
  let (text, stop, brokeLine) ←
    plainBody inFlow (indent + 1) start (← remaining) [] Gap.none start
  return (⟨.scalar (String.ofList text) .plain, start, stop⟩, brokeLine)

/-- Which of the line breaks at its end a block scalar keeps. -/
inductive Chomping where
  | strip
  | clip
  | keep
deriving DecidableEq, Repr

/-- The sign of a chomping, if one stands here. -/
def chomping : Lexer (Option Chomping) := do
  match ← peek with
  | some '+' =>
      advance
      return some .keep
  | some '-' =>
      advance
      return some .strip
  | _ => return none

/-- The digit of an indentation, if one stands here. -/
def indentation (start : Mark) : Lexer (Option Nat) := do
  match ← peek with
  | some c =>
      if c.isDigit then
        if c = '0' then fail .indentationZero .scanningBlockScalar start
        advance
        return some (c.toNat - 48)
      else return none
  | none => return none

/-- The sign and the digit behind the indicator of a block scalar, in either order. -/
def blockHeader (start : Mark) : Lexer (Chomping × Option Nat) := do
  match ← chomping with
  | some kept => return (kept, ← indentation start)
  | none =>
      let digit ← indentation start
      if digit.isSome then return ((← chomping).getD .clip, digit)
      else return (.clip, none)

/-- The empty lines and the indentation before a line of a block scalar. -/
structure Margin where
  breaks : List Char
  /-- The widest indentation seen. -/
  width : Nat
  /-- Behind the last line break. -/
  stop : Mark
deriving Repr

/-- Read empty lines, and the indentation of the line behind them up to a limit. -/
def marginFrom (limit : Option Nat) (start : Mark) : Nat → Margin → Lexer Margin
  | 0, margin => return margin
  | steps + 1, margin => do
      let column := (← here).column
      match limit with
      | none => skipWhile (· = ' ')
      | some limit =>
          let spaces := ((← get).rest.takeWhile (· = ' ')).length
          advanceBy (min spaces (limit - column))
      let column := (← here).column
      let margin := { margin with width := max margin.width column }
      let within := match limit with
        | none => true
        | some limit => decide (column < limit)
      if within && (← peek) = some '\t' then fail .tabInIndentation .scanningBlockScalar start
      if (← peek).any isBreak then
        let found ← lineBreak
        let stop ← here
        marginFrom limit start steps { margin with breaks := margin.breaks ++ found, stop }
      else return margin

/-- Read empty lines and an indentation. -/
def margin (limit : Option Nat) (start : Mark) : Lexer Margin := do
  marginFrom limit start (← remaining) ⟨[], 0, ← here⟩

/-- A line of a block scalar that is not empty, with what stands before and behind it. -/
structure BlockLine where
  text : List Char
  /-- What the break at the end of the line stands for. -/
  lineEnd : List Char
  /-- The empty lines behind it. -/
  breaks : List Char
deriving Repr

def BlockLine.indented (line : BlockLine) : Bool :=
  line.text.head?.any isBlank

/-- The lines of a block scalar at a given indentation, and the place behind the last of its
breaks. -/
def blockLines (indent : Nat) (start : Mark) : Nat → Mark → Lexer (List BlockLine × Mark)
  | 0, stop => return ([], stop)
  | steps + 1, stop => do
      if (← here).column ≠ indent || (← peek).isNone then return ([], stop)
      let text ← takeWhile (fun c => !isBreak c)
      let lineEnd ← lineBreak
      let margin ← margin (some indent) start
      let (lines, stop) ← blockLines indent start steps margin.stop
      return (⟨text, lineEnd, margin.breaks⟩ :: lines, stop)

/-- What the break between two lines stands for. In a folded scalar a single line feed between
lines that do not begin with a blank is a space, and one before empty lines is dropped. -/
def joint (folded : Bool) (line next : BlockLine) : List Char :=
  if folded && line.lineEnd == ['\n'] && !line.indented && !next.indented then
    (if line.breaks.isEmpty then [' '] else line.breaks)
  else line.lineEnd ++ line.breaks

/-- What the break behind the last line stands for. -/
def chomp (kept : Chomping) (line : BlockLine) : List Char :=
  match kept with
  | .strip => []
  | .clip => line.lineEnd
  | .keep => line.lineEnd ++ line.breaks

/-- The text of the lines of a block scalar. -/
def joinLines (folded : Bool) (kept : Chomping) : List BlockLine → List Char
  | [] => []
  | [last] => last.text ++ chomp kept last
  | line :: next :: rest =>
      line.text ++ joint folded line next ++ joinLines folded kept (next :: rest)

/-- A block scalar. Without a digit the first line that is not empty sets its indentation. -/
def blockScalar (folded : Bool) (parentIndent : Int) : Lexer Token := do
  let start ← here
  advance
  let (kept, digit) ← blockHeader start
  skipWhile isBlank
  skipComment
  if !endsLine (← peek) then fail .commentOrBreakMissing .scanningBlockScalar start
  let _ ← lineBreak
  let limit := digit.map fun digit => digit + parentIndent.toNat
  let first ← margin limit start
  let indent := limit.getD (max first.width (max (parentIndent + 1) 1).toNat)
  let (lines, stop) ← blockLines indent start (← remaining) first.stop
  let body :=
    match lines with
    | [] => if kept = .keep then first.breaks else []
    | lines => first.breaks ++ joinLines folded kept lines
  return ⟨.scalar (String.ofList body) (if folded then .folded else .literal), start, stop⟩

end StackBridge.Yaml.Lexer
