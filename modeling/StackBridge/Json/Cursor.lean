/-
Reading JSON text. A cursor stands between two characters and knows its line and the number of
bytes since the last newline; a reader moves it and answers a value or a fault. The cursor survives
a fault, because a mismatch is given the place where the reader leaves the enclosing value.
-/
import StackBridge.Json.Basic
import StackBridge.Mismatch

namespace StackBridge.Json

/-- A place in a text: the line, counted from one, and the bytes since the last newline. -/
structure Place where
  line : Nat
  column : Nat
deriving DecidableEq, Repr

/-- How a text can fail to be JSON. -/
inductive Malformed where
  | endInValue
  | endInList
  | endInObject
  | endInString
  | expectedValue
  | expectedColon
  | expectedCommaInList
  | expectedCommaInObject
  | expectedWord
  | keyNotString
  | trailingComma
  | trailingCharacters
  | invalidNumber
  | numberOutOfRange
  | invalidEscape
  | unfinishedEscape
  | loneSurrogate
  | controlCharacter
  | tooDeep
deriving DecidableEq, Repr

def Malformed.message : Malformed → String
  | .endInValue => "EOF while parsing a value"
  | .endInList => "EOF while parsing a list"
  | .endInObject => "EOF while parsing an object"
  | .endInString => "EOF while parsing a string"
  | .expectedValue => "expected value"
  | .expectedColon => "expected `:`"
  | .expectedCommaInList => "expected `,` or `]`"
  | .expectedCommaInObject => "expected `,` or `\x7d`"
  | .expectedWord => "expected ident"
  | .keyNotString => "key must be a string"
  | .trailingComma => "trailing comma"
  | .trailingCharacters => "trailing characters"
  | .invalidNumber => "invalid number"
  | .numberOutOfRange => "number out of range"
  | .invalidEscape => "invalid escape"
  | .unfinishedEscape => "unexpected end of hex escape"
  | .loneSurrogate => "lone leading surrogate in hex escape"
  | .controlCharacter => "control character (\\u0000-\\u001F) found while parsing a string"
  | .tooDeep => "recursion limit exceeded"

/-- Why a text could not be read. -/
inductive Cause where
  | malformed (m : Malformed)
  | mismatch (m : Mismatch)
deriving DecidableEq, Repr

/-- A cause, and the place where it was noticed. A value that was not read from text has no
places. -/
structure Fault where
  cause : Cause
  place : Option Place
deriving DecidableEq, Repr

/-- The words of JSON: nothing is `null`, and floats read as they are written. -/
def wording : Wording where
  nothing := "null"
  float := floatWords
where
  /-- A float as it is written in a document. -/
  floatWords (x : Float) : String :=
    Decimal.Layout.render
      ⟨fun point => -5 < point && point ≤ 16, true, "NaN", "inf"⟩ x

def Cause.message : Cause → String
  | .malformed m => m.message
  | .mismatch m => m.message wording

def Fault.message (fault : Fault) : String :=
  match fault.place with
  | none => fault.cause.message
  | some place => s!"{fault.cause.message} at line {place.line} column {place.column}"

/-- The fault with a place, unless it has one. -/
def Fault.at (fault : Fault) (place : Place) : Fault :=
  { fault with place := some (fault.place.getD place) }

def Place.after (place : Place) (c : Char) : Place :=
  if c = '\n' then ⟨place.line + 1, 0⟩ else ⟨place.line, place.column + c.utf8Size⟩

def Place.afterByte (place : Place) (c : Char) : Place :=
  if c = '\n' then ⟨place.line + 1, 0⟩ else ⟨place.line, place.column + 1⟩

/-- The place that many bytes into a text, which may be inside a character. -/
def Place.afterBytes (place : Place) : Nat → List Char → Place
  | _, [] => place
  | count, c :: rest =>
      if c.utf8Size ≤ count then (place.after c).afterBytes (count - c.utf8Size) rest
      else ⟨place.line, place.column + count⟩

/-- A position in a text. -/
structure Cursor where
  rest : List Char
  place : Place
deriving DecidableEq, Repr

namespace Cursor

def start (text : String) : Cursor :=
  ⟨text.toList, ⟨1, 0⟩⟩

def next (cursor : Cursor) : Cursor :=
  match cursor.rest with
  | [] => cursor
  | c :: rest => ⟨rest, cursor.place.after c⟩

/-- Where a complaint about the next byte points: behind it, or at the end of the text. -/
def nextPlace (cursor : Cursor) : Place :=
  match cursor.rest with
  | [] => cursor.place
  | c :: _ => cursor.place.afterByte c

/-- The four characters that may stand between the parts of a document. -/
def isSpace (c : Char) : Bool :=
  c = ' ' || c = '\n' || c = '\t' || c = '\r'

def skipList (test : Char → Bool) (place : Place) : List Char → Cursor
  | [] => ⟨[], place⟩
  | c :: rest => if test c then skipList test (place.after c) rest else ⟨c :: rest, place⟩

def skipWhile (cursor : Cursor) (test : Char → Bool) : Cursor :=
  skipList test cursor.place cursor.rest

end Cursor

/-- A reader answers a value or a fault and in either case leaves the cursor somewhere. -/
abbrev Reader (α : Type) := ExceptT Fault (StateM Cursor) α

namespace Reader

variable {α : Type}

def peek : Reader (Option Char) := do
  return (← get).rest.head?

def advance : Reader Unit :=
  modify Cursor.next

/-- Move past blanks and look at the next character. -/
def peekToken : Reader (Option Char) := do
  modify (·.skipWhile Cursor.isSpace)
  peek

/-- Move past a run of decimal digits and answer it. -/
def digits : Reader (List Char) := do
  let found := (← get).rest.takeWhile Char.isDigit
  modify (·.skipWhile Char.isDigit)
  return found

def failAt (m : Malformed) (place : Place) : Reader α :=
  throw ⟨.malformed m, some place⟩

def failHere (m : Malformed) : Reader α := do
  failAt m (← get).place

/-- Fail because of the next byte. -/
def failNext (m : Malformed) : Reader α := do
  failAt m (← get).nextPlace

/-- Fail because the value is not of the wanted type. The place comes from the enclosing value. -/
def mismatch (m : Mismatch) : Reader α :=
  throw ⟨.mismatch m, none⟩

/-- Give a fault that has no place the one where the cursor was left. -/
def anchored (reader : Reader α) : Reader α :=
  ExceptT.mk fun cursor =>
    match reader.run cursor with
    | (.ok value, after) => (.ok value, after)
    | (.error fault, after) => (.error (fault.at after.place), after)

/-- Read a value and then its closing bracket. The bracket is looked for even behind a fault, so
that the fault points behind the value; the first fault is the one that counts. -/
def closedBy (body : Reader α) (close : Reader Unit) : Reader α :=
  ExceptT.mk fun cursor =>
    match body.run cursor with
    | (.ok value, inside) =>
        match close.run inside with
        | (.ok _, after) => (.ok value, after)
        | (.error fault, after) => (.error fault, after)
    | (.error fault, inside) => (.error fault, (close.run inside).2)

/-- An upper bound for the number of steps that a reader can still make. -/
def remaining : Reader Nat := do
  return (← get).rest.length + 1

end Reader

end StackBridge.Json
