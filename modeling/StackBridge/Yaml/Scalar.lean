/-
What a plain scalar means. Words stand for nothing and for truth values, numbers are whole in one
of four bases or floats, and all else is text. Digits behind a leading zero are no number.
-/
import StackBridge.Decimal.Nearest
import StackBridge.Yaml.Token

namespace StackBridge.Yaml

/-- What a scalar means. -/
inductive Meaning where
  | null
  | bool (b : Bool)
  | number (n : Number)
  /-- A whole number beyond 64 bits, with the name of a type that would hold it. -/
  | wide (n : Int) (holder : String)
  | text (s : String)
deriving DecidableEq, Repr

namespace Meaning

def found : Meaning → Found
  | .null => .nothing
  | .bool b => .boolean b
  | .number (.whole n) => .whole n.val
  | .number (.float x) => .float x
  | .wide n holder => .wide n holder
  | .text s => .text s

end Meaning

def isNullWord (text : String) : Bool :=
  ["null", "Null", "NULL", "~"].contains text

def boolOf? (text : String) : Option Bool :=
  if ["true", "True", "TRUE"].contains text then some true
  else if ["false", "False", "FALSE"].contains text then some false
  else none

def isSign (c : Char) : Bool :=
  c = '+' || c = '-'

def startsSigned (cs : List Char) : Bool :=
  cs.head?.any isSign

/-- Digits behind a leading zero. -/
def isZeroPadded (cs : List Char) : Bool :=
  let digits := if startsSigned cs then cs.drop 1 else cs
  1 < digits.length && digits.head? = some '0' && digits.all Char.isDigit

/-- The number that digits of a base form. There has to be one at least. -/
def digitsIn (base : Nat) (cs : List Char) : Option Nat :=
  if cs.isEmpty then none
  else cs.foldlM (fun value c =>
    match hexValue? c with
    | some digit => if digit < base then some (value * base + digit) else none
    | none => none) 0

/-- The number that digits behind the mark of another base form. -/
def markedDigits? : List Char → Option Nat
  | '0' :: 'x' :: digits => digitsIn 16 digits
  | '0' :: 'o' :: digits => digitsIn 8 digits
  | '0' :: 'b' :: digits => digitsIn 2 digits
  | _ => none

/-- The number that digits form, in base ten or behind the mark of another base. -/
def magnitudeOf? (cs : List Char) : Option Nat :=
  match markedDigits? cs with
  | some n => some n
  | none => if isZeroPadded cs then none else digitsIn 10 cs

/-- The whole number that a text is, with at most one sign. -/
def intOf? (cs : List Char) : Option Int :=
  match cs with
  | '-' :: digits => (magnitudeOf? digits).map (fun n => -(n : Int))
  | '+' :: digits => (magnitudeOf? digits).map Int.ofNat
  | digits => (magnitudeOf? digits).map Int.ofNat

/-- The meaning of a whole number. Beyond 128 bits there is none. -/
def meaningOfInt? (n : Int) : Option Meaning :=
  match Whole.ofInt? n with
  | some n => some (.number (.whole n))
  | none =>
      if 0 ≤ n && n < 0x100000000000000000000000000000000 then some (.wide n "u128")
      else if n < 0 && -0x80000000000000000000000000000000 ≤ n then some (.wide n "i128")
      else none

/-- The exponent that the end of a decimal states. An absent one is zero. -/
def exponentOf? : List Char → Option Int
  | [] => some 0
  | c :: rest =>
      if c = 'e' || c = 'E' then
        match rest with
        | '-' :: digits => (digitsIn 10 digits).map (fun n => -(n : Int))
        | '+' :: digits => (digitsIn 10 digits).map Int.ofNat
        | digits => (digitsIn 10 digits).map Int.ofNat
      else none

/-- A decimal without sign: digits, perhaps with a point among them, and perhaps an exponent. -/
def decimalOf? (cs : List Char) : Option Decimal.Scaled :=
  let integer := cs.takeWhile Char.isDigit
  let behind := cs.dropWhile Char.isDigit
  let (fraction, behind) :=
    match behind with
    | '.' :: rest => (rest.takeWhile Char.isDigit, rest.dropWhile Char.isDigit)
    | _ => ([], behind)
  match digitsIn 10 (integer ++ fraction), exponentOf? behind with
  | some digits, some exponent => some ⟨digits, exponent - fraction.length⟩
  | _, _ => none

/-- A float that is written as a decimal and is not too large. -/
def finiteOf? (negative : Bool) (cs : List Char) : Option Float :=
  match decimalOf? cs with
  | none => none
  | some d =>
      let x := Decimal.nearest negative d
      if x.isInf then none else some x

def infinity (negative : Bool) : Float :=
  Decimal.floatOfBits negative Decimal.infinityBits

def undefinedFloat : Float :=
  Float.ofBits 0x7ff8000000000000

def isInfinityWord (cs : List Char) : Bool :=
  [".inf", ".Inf", ".INF"].contains (String.ofList cs)

/-- The float that a text is, with at most one sign. -/
def floatOf? (cs : List Char) : Option Float :=
  if [".nan", ".NaN", ".NAN"].contains (String.ofList cs) then some undefinedFloat
  else
    let negative := cs.head? = some '-'
    let unsigned := if startsSigned cs then cs.drop 1 else cs
    if isInfinityWord unsigned then some (infinity negative) else finiteOf? negative unsigned

/-- What a plain scalar means. -/
def plainMeaning (text : String) : Meaning :=
  let cs := text.toList
  if text = "" || isNullWord text then .null
  else
    match boolOf? text with
    | some b => .bool b
    | none =>
        match (intOf? cs).bind meaningOfInt? with
        | some meaning => meaning
        | none =>
            if isZeroPadded cs then .text text
            else
              match floatOf? cs with
              | some x => .number (.float x)
              | none => .text text

/-- The tag of one of the types that every document knows. -/
def coreTag (name : String) : String :=
  "tag:yaml.org,2002:" ++ name

/-- The name of a tag of the document's own, which has to be text. -/
def localTag? (tag : String) : Option String :=
  let unmarked (cs : List Char) : List Char :=
    match cs with
    | '!' :: c :: rest => c :: rest
    | cs => cs
  let cs := tag.toList
  if cs.head? = some '!' && !cs.contains '\x00' then some (String.ofList (unmarked (unmarked cs)))
  else none

/-- A meaning that a tag asks for, or else a complaint about the text. -/
def required (text wanted : String) : Option Meaning → Except Cause Meaning
  | some meaning => return meaning
  | none => throw (.mismatch (.wrongValue (.text text) wanted))

/-- What a scalar means that has a tag. Tags that are not known make it text. -/
def taggedMeaning (tag text : String) (style : ScalarStyle) : Except Cause Meaning :=
  let cs := text.toList
  if tag = coreTag "bool" then required text "a boolean" ((boolOf? text).map .bool)
  else if tag = coreTag "int" then
    required text "an integer" ((intOf? cs).bind meaningOfInt?)
  else if tag = coreTag "float" then
    required text "a float" ((floatOf? cs).map fun x => .number (.float x))
  else if tag = coreTag "null" then
    required text "null" (if isNullWord text then some .null else none)
  else if tag.toList.head? = some '!' && style = .plain then return plainMeaning text
  else return .text text

def scalarMeaning (tag : Option String) (text : String) (style : ScalarStyle) :
    Except Cause Meaning :=
  match tag with
  | some tag => taggedMeaning tag text style
  | none => return if style = .plain then plainMeaning text else .text text

end StackBridge.Yaml
