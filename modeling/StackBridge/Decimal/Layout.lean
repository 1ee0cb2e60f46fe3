/-
The text of a float: which digits is settled by `shortest`, how they are laid out by a `Layout`.
-/
import StackBridge.Decimal.Shortest

namespace StackBridge.Decimal

/-- The decisions that a format makes about the text of a float. -/
structure Layout where
  /-- Which positions of the decimal point, counted from before the first digit, are written out
  in full. Others get an exponent. -/
  positional : Int → Bool
  /-- Whether an exponent that is not negative has a sign. -/
  plusSign : Bool
  nan : String
  infinity : String

def zeros (count : Nat) : List Char :=
  List.replicate count '0'

/-- Digits with the decimal point after `point` of them and a digit on either side of it. -/
def positionalChars (digits : List Char) (point : Int) : List Char :=
  if point ≤ 0 then ['0', '.'] ++ zeros (-point).toNat ++ digits
  else if digits.length ≤ point then
    digits ++ zeros (point.toNat - digits.length) ++ ['.', '0']
  else digits.take point.toNat ++ '.' :: digits.drop point.toNat

def natChars (n : Nat) : List Char :=
  Nat.toDigits 10 n

/-- One digit before the point and the exponent after the letter. -/
def scientificChars (plusSign : Bool) (digits : List Char) (point : Int) : List Char :=
  let exponent := point - 1
  digits.take 1 ++ (if digits.length ≤ 1 then [] else '.' :: digits.drop 1) ++ ['e'] ++
    (if exponent < 0 then ['-'] else if plusSign then ['+'] else []) ++ natChars exponent.natAbs

def Layout.decimalChars (layout : Layout) (d : Scaled) : List Char :=
  let digits := natChars d.digits
  let point := d.exponent + digits.length
  if layout.positional point then positionalChars digits point
  else scientificChars layout.plusSign digits point

/-- The text of a float. -/
def Layout.chars (layout : Layout) (x : Float) : List Char :=
  let sign := if isNegative x then ['-'] else []
  match magnitude x with
  | .zero => sign ++ ['0', '.', '0']
  | .finite value => sign ++ layout.decimalChars (shortest value)
  | .infinite => sign ++ layout.infinity.toList
  | .undefined => layout.nan.toList

def Layout.render (layout : Layout) (x : Float) : String :=
  String.ofList (layout.chars x)

end StackBridge.Decimal
