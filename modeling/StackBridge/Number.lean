/-
Numbers as documents hold them: whole numbers of up to 64 bits, and floats.
-/
namespace StackBridge

/-- The whole numbers that fit into 64 bits, with or without a sign. -/
structure Whole where
  val : Int
  fits : -0x8000000000000000 ≤ val ∧ val < 0x10000000000000000
deriving DecidableEq, Repr

def Whole.ofInt? (n : Int) : Option Whole :=
  if h : -0x8000000000000000 ≤ n ∧ n < 0x10000000000000000 then some ⟨n, h⟩ else none

def Whole.ofUInt32 (n : UInt32) : Whole :=
  ⟨n.toNat, by have := n.toNat_lt; omega⟩

def Whole.ofInt64 (n : Int64) : Whole :=
  ⟨n.toInt, by have := n.le_toInt; have := n.toInt_lt; omega⟩

/-- A number is whole as long as 64 bits hold it; all others are floats. -/
inductive Number where
  | whole (n : Whole)
  | float (x : Float)
deriving DecidableEq, Repr

/-- Whether two numbers are the same as values: the zeros are, and so is what is undefined. -/
def Number.same : Number → Number → Bool
  | .whole n, .whole m => n.val = m.val
  | .float x, .float y => x == y || (x.isNaN && y.isNaN)
  | _, _ => false

/-- The float nearest to a number. -/
def Number.toFloat : Number → Float
  | .whole n => if n.val < 0 then -(Float.ofNat n.val.natAbs) else Float.ofNat n.val.natAbs
  | .float x => x

end StackBridge
