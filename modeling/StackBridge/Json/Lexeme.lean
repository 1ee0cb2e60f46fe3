/-
The parts of a JSON text without parts of their own: words, numbers and strings.
-/
import StackBridge.Json.Cursor

namespace StackBridge.Json

/-- The largest significand that the digits of a float are gathered into. -/
def maxSignificand : Nat := 0xffffffffffffffff

/-- The largest exponent that is told apart from an endless one. -/
def maxExponent : Nat := 0x7fffffff

def digitValue (c : Char) : Nat :=
  c.toNat - '0'.toNat

/-- Append digits to a number as long as it stays within the limit. Answers the number and the
digits that no longer fit, from the first of them on. -/
def gather (limit : Nat) : Nat → List Char → Nat × List Char
  | value, [] => (value, [])
  | value, c :: rest =>
      if value * 10 + digitValue c ≤ limit then gather limit (value * 10 + digitValue c) rest
      else (value, c :: rest)

/-- The float nearest to a power of ten, for exponents up to 308. -/
def powerOfTen (exponent : Nat) : Float :=
  Float.ofScientific 1 false exponent

/-- Divide by a power of ten, in steps of at most `10 ^ 308`. -/
def divideByPower (x : Float) (exponent : Nat) : Float :=
  if exponent ≤ 308 then x / powerOfTen exponent
  else if x == 0 then x
  else divideByPower (x / powerOfTen 308) (exponent - 308)
termination_by exponent

/-- The float read for `significand * 10 ^ exponent`: the significand is rounded first and then
scaled, so the last place can differ from the nearest float. None when it is infinite. -/
def scaledFloat (significand : Nat) (exponent : Int) : Option Float :=
  let x := Float.ofNat significand
  if exponent < 0 then some (divideByPower x exponent.natAbs)
  else if exponent ≤ 308 then
    let y := x * powerOfTen exponent.natAbs
    if y.isInf then none else some y
  else if x == 0 then some x else none

/-- A number without fraction and exponent: whole if 64 bits hold it, and negative zero is a
float. -/
def wholeNumber (negative : Bool) (significand : Nat) : Number :=
  if negative then
    if significand = 0 then .float (-(Float.ofNat 0))
    else match Whole.ofInt? (-(significand : Int)) with
      | some n => .whole n
      | none => .float (-(Float.ofNat significand))
  else match Whole.ofInt? significand with
    | some n => .whole n
    | none => .float (Float.ofNat significand)

namespace Reader

/-- The rest of one of the words `null`, `true` and `false`. -/
def word : List Char → Reader Unit
  | [] => return
  | expected :: more => do
      match ← peek with
      | none => failHere .endInValue
      | some c =>
          if c = expected then
            advance
            word more
          else failNext .expectedWord

def floatOfParts (negative : Bool) (significand : Nat) (exponent : Int) : Reader Float := do
  match scaledFloat significand exponent with
  | none => failHere .numberOutOfRange
  | some x => return if negative then -x else x

/-- The exponent of a number, from its letter on. -/
def exponentPart (negative : Bool) (significand : Nat) (shift : Int) : Reader Float := do
  advance
  let sign ← peek
  if sign = some '+' || sign = some '-' then advance
  match ← peek with
  | none => failHere .endInValue
  | some c => if !c.isDigit then failNext .invalidNumber
  let start := (← get).place
  let found ← digits
  let (exponent, excess) := gather maxExponent 0 found
  if excess.isEmpty then
    floatOfParts negative significand
      (if sign = some '-' then shift - exponent else shift + exponent)
  else if significand ≠ 0 && sign ≠ some '-' then
    failAt .numberOutOfRange ⟨start.line, start.column + (found.length - excess.length) + 1⟩
  else return if negative then -(Float.ofNat 0) else Float.ofNat 0

/-- The fraction of a number, from its point on. Digits beyond the significand are dropped. -/
def fractionPart (negative : Bool) (significand : Nat) (shift : Int) : Reader Float := do
  advance
  let found ← digits
  if found.isEmpty then
    match ← peek with
    | none => failNext .endInValue
    | some _ => failNext .invalidNumber
  let (significand, excess) := gather maxSignificand significand found
  let shift := shift - (found.length - excess.length : Nat)
  match ← peek with
  | some 'e' | some 'E' => exponentPart negative significand shift
  | _ => floatOfParts negative significand shift

/-- What may follow the digits before the point. Digits that the significand could not take have
raised the exponent by one each. -/
def afterInteger (negative : Bool) (significand dropped : Nat) : Reader Number := do
  match ← peek with
  | some '.' => return .float (← fractionPart negative significand dropped)
  | some 'e' | some 'E' => return .float (← exponentPart negative significand dropped)
  | _ =>
      if dropped = 0 then return wholeNumber negative significand
      else return .float (← floatOfParts negative significand dropped)

/-- A number behind its sign. -/
def number (negative : Bool) : Reader Number := do
  match ← peek with
  | none => failHere .endInValue
  | some '0' =>
      advance
      match ← peek with
      | some c => if c.isDigit then failNext .invalidNumber else afterInteger negative 0 0
      | none => afterInteger negative 0 0
  | some c =>
      if c.isDigit then
        let (significand, excess) := gather maxSignificand 0 (← digits)
        afterInteger negative significand excess.length
      else failNext .invalidNumber

/-- The value of a hexadecimal digit of either case. -/
def hexValue? (c : Char) : Option Nat :=
  if '0' ≤ c && c ≤ '9' then some (c.toNat - 48)
  else if 'a' ≤ c && c ≤ 'f' then some (c.toNat - 87)
  else if 'A' ≤ c && c ≤ 'F' then some (c.toNat - 55)
  else none

/-- The value of four hexadecimal digits. -/
def hexQuad? : List Char → Option Nat
  | [a, b, c, d] => do
      let high := (← hexValue? a) * 16 + (← hexValue? b)
      let low := (← hexValue? c) * 16 + (← hexValue? d)
      return high * 256 + low
  | _ => none

def hasBytes : Nat → List Char → Bool
  | 0, _ => true
  | _ + 1, [] => false
  | count + 1, c :: rest => hasBytes (count + 1 - c.utf8Size) rest

/-- The four digits of a numeric escape. Four bytes are taken before they are looked at. -/
def hexEscape : Reader Nat := do
  let cursor ← get
  match hexQuad? (cursor.rest.take 4) with
  | some code =>
      advance
      advance
      advance
      advance
      return code
  | none =>
      if hasBytes 4 cursor.rest then
        failAt .invalidEscape (cursor.place.afterBytes 4 cursor.rest)
      else failAt .endInString (cursor.place.afterBytes 4 cursor.rest)

def pairChar (expected : Char) : Reader Unit := do
  match ← peek with
  | none => failHere .endInString
  | some c => if c = expected then advance else failNext .unfinishedEscape

/-- A numeric escape behind its letter: one code unit, or two that form a surrogate pair. -/
def unicodeEscape : Reader Char := do
  let first ← hexEscape
  if 0xdc00 ≤ first && first ≤ 0xdfff then failHere .loneSurrogate
  if first < 0xd800 || 0xdbff < first then return Char.ofNat first
  pairChar '\\'
  pairChar 'u'
  let second ← hexEscape
  if second < 0xdc00 || 0xdfff < second then failHere .loneSurrogate
  return Char.ofNat (0x10000 + (first - 0xd800) * 0x400 + (second - 0xdc00))

/-- An escape behind its backslash. -/
def escape : Reader Char := do
  match ← peek with
  | none => failHere .endInString
  | some 'u' =>
      advance
      unicodeEscape
  | some c =>
      match simpleEscape? c with
      | some meaning =>
          advance
          return meaning
      | none => failNext .invalidEscape
where
  /-- The character that a letter behind a backslash stands for. -/
  simpleEscape? : Char → Option Char
    | '"' => some '"'
    | '\\' => some '\\'
    | '/' => some '/'
    | 'b' => some '\x08'
    | 'f' => some '\x0c'
    | 'n' => some '\n'
    | 'r' => some '\r'
    | 't' => some '\t'
    | _ => none

/-- The rest of a string up to its closing quote, behind the characters already read. -/
def stringBody : Nat → List Char → Reader String
  | 0, _ => failHere .endInString
  | steps + 1, read => do
      match ← peek with
      | none => failHere .endInString
      | some '"' =>
          advance
          return String.ofList read.reverse
      | some '\\' =>
          advance
          let c ← escape
          stringBody steps (c :: read)
      | some c =>
          if c.toNat < 0x20 then failNext .controlCharacter
          advance
          stringBody steps (c :: read)

/-- A string behind its opening quote. -/
def string : Reader String := do
  stringBody (← remaining) []

end Reader

end StackBridge.Json
