/-
The fewest decimal digits that identify a binary float. The reals that round to a float form an
interval; the decimals looked for are those of the coarsest grid of powers of ten that has a point
in that interval. All comparisons are between natural numbers.
-/
namespace StackBridge.Decimal

/-- A positive number `mantissa * 2 ^ exponent`. -/
structure Binary where
  mantissa : Nat
  exponent : Int
  /-- The gap to the float below is half the gap to the float above. -/
  narrowBelow : Bool
deriving DecidableEq, Repr

/-- What the bits of a float stand for, the sign apart. -/
inductive Magnitude where
  | zero
  | finite (value : Binary)
  | infinite
  | undefined
deriving DecidableEq, Repr

/-- The bit of the sign: bit 63. -/
def signBit : Nat := 0x8000000000000000

/-- The fractions that a float can have behind its leading digit: 52 bits of them. -/
def fractionCount : Nat := 0x10000000000000

def isNegative (x : Float) : Bool :=
  signBit ≤ x.toBits.toNat

/-- Split the bits of a float into significand and exponent. -/
def magnitude (x : Float) : Magnitude :=
  let bits := x.toBits.toNat
  let fraction := bits % fractionCount
  let exponent : Nat := bits / fractionCount % 2048
  if exponent = 2047 then (if fraction = 0 then .infinite else .undefined)
  else if exponent = 0 then
    if fraction = 0 then .zero else .finite ⟨fraction, -1074, false⟩
  else .finite ⟨fractionCount + fraction, (exponent : Int) - 1075, fraction = 0 && 1 < exponent⟩

/-- A decimal `digits * 10 ^ exponent`. -/
structure Scaled where
  digits : Nat
  exponent : Int
deriving DecidableEq, Repr

namespace Binary

/-- Quarter units of the last place are `2 ^ (exponent - 2)`; over the grid `10 ^ place` this is
the factor that brings a count of them to a natural number. -/
def quarterScale (b : Binary) (place : Int) : Nat :=
  Nat.pow 2 (b.exponent - 2).toNat * Nat.pow 10 (-place).toNat

/-- The matching factor for a count of grid steps. -/
def gridScale (b : Binary) (place : Int) : Nat :=
  Nat.pow 10 place.toNat * Nat.pow 2 (2 - b.exponent).toNat

/-- The lower end of the rounding interval, in quarter units. -/
def low (b : Binary) : Nat :=
  4 * b.mantissa - (if b.narrowBelow then 1 else 2)

/-- The upper end of the rounding interval, in quarter units. -/
def high (b : Binary) : Nat :=
  4 * b.mantissa + 2

/-- Whether `steps * 10 ^ place` rounds to the float. The ends of the interval do so exactly when
the mantissa is even, because ties go to the even neighbour. -/
def readsBack (b : Binary) (steps : Nat) (place : Int) : Bool :=
  let value := steps * b.gridScale place
  let low := b.low * b.quarterScale place
  let high := b.high * b.quarterScale place
  if b.mantissa % 2 = 0 then low ≤ value && value ≤ high else low < value && value < high

/-- The last grid point that does not exceed the float. -/
def floorOn (b : Binary) (place : Int) : Nat :=
  4 * b.mantissa * b.quarterScale place / b.gridScale place

def isBelow (b : Binary) (place : Int) : Bool :=
  4 * b.mantissa * b.quarterScale place < b.gridScale place

/-- The first of the places from `place` on, `tries` of them, whose power of ten exceeds the
float. -/
def firstAbove (b : Binary) : Nat → Int → Int
  | 0, place => place
  | tries + 1, place => if b.isBelow place then place else b.firstAbove tries (place + 1)

/-- The position of the decimal point: the least `k` with the float below `10 ^ k`. The binary
logarithm gives it to within two. -/
def point (b : Binary) : Int :=
  b.firstAbove 4 (((b.mantissa.log2 : Int) + b.exponent) * 30103 / 100000)

/-- The nearer of the two grid points around the float that reads back, an even one on a tie. -/
def nearestOn (b : Binary) (place : Int) : Option Nat :=
  let below := b.floorOn place
  match b.readsBack below place, b.readsBack (below + 1) place with
  | false, false => none
  | true, false => some below
  | false, true => some (below + 1)
  | true, true =>
      let twice := 2 * (4 * b.mantissa) * b.quarterScale place
      let middle := (2 * below + 1) * b.gridScale place
      if twice < middle then some below
      else if middle < twice then some (below + 1)
      else some (if below % 2 = 0 then below else below + 1)

/-- Try the grids from `place` downward, `tries` of them. -/
def firstHit (b : Binary) : Nat → Int → Option Scaled
  | 0, _ => none
  | tries + 1, place =>
      match b.nearestOn place with
      | some steps => some ⟨steps, place⟩
      | none => b.firstHit tries (place - 1)

/-- The exact value, which always reads back. -/
def exact (b : Binary) : Scaled :=
  if 0 ≤ b.exponent then ⟨b.mantissa * Nat.pow 2 b.exponent.toNat, 0⟩
  else ⟨b.mantissa * Nat.pow 5 (-b.exponent).toNat, b.exponent⟩

end Binary

/-- Move trailing zeros of the digits into the exponent. -/
def Scaled.strip (d : Scaled) : Scaled :=
  if h : d.digits ≠ 0 ∧ d.digits % 10 = 0 then
    Scaled.strip ⟨d.digits / 10, d.exponent + 1⟩
  else d
termination_by d.digits
decreasing_by omega

/-- The shortest decimal that reads back as the float. Seventeen digits always suffice. -/
def shortest (b : Binary) : Scaled :=
  ((b.firstHit 17 (b.point - 1)).getD b.exact).strip

end StackBridge.Decimal
