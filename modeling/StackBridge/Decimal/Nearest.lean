/-
The float nearest to a decimal. The decimal is a quotient of natural numbers, which is rounded to a
whole number of units of the last place; a tie goes to the even neighbour.
-/
import StackBridge.Decimal.Shortest

namespace StackBridge.Decimal

/-- The quotient rounded to the nearest whole number, of two equally near ones to the even one. -/
def roundQuotient (numerator denominator : Nat) : Nat :=
  let below := numerator / denominator
  let twice := 2 * (numerator % denominator)
  if twice < denominator then below
  else if denominator < twice then below + 1
  else below + below % 2

/-- The exponent of the unit of the last place of a float near a positive quotient: the significand
has 53 binary digits, unless that takes the exponent below -1074. -/
def unitExponent (numerator denominator : Nat) : Int :=
  let low : Int := (numerator.log2 : Int) - denominator.log2 - 53
  let units := numerator * Nat.pow 2 (-low).toNat / (denominator * Nat.pow 2 low.toNat)
  max (if 2 * fractionCount ≤ units then low + 1 else low) (-1074)

def infinityBits : Nat := 2047 * fractionCount

/-- The bits of the float nearest to a positive quotient. A significand that is rounded up to the
next power of two carries into the exponent. -/
def quotientBits (numerator denominator : Nat) : Nat :=
  let unit := unitExponent numerator denominator
  let units :=
    roundQuotient (numerator * Nat.pow 2 (-unit).toNat) (denominator * Nat.pow 2 unit.toNat)
  if units < fractionCount then units
  else min ((unit + 1074).toNat * fractionCount + units) infinityBits

/-- Beyond this power of ten everything is infinite, and everything below its inverse is zero. -/
def maxPower : Nat := 400

/-- The bits of the float nearest to `digits * 10 ^ exponent`. -/
def Scaled.nearestBits (d : Scaled) : Nat :=
  if d.digits = 0 || d.exponent + d.digits.log2 < -maxPower then 0
  else if maxPower < d.exponent then infinityBits
  else quotientBits (d.digits * Nat.pow 10 d.exponent.toNat) (Nat.pow 10 (-d.exponent).toNat)

def floatOfBits (negative : Bool) (bits : Nat) : Float :=
  Float.ofBits (UInt64.ofNat ((if negative then signBit else 0) + bits))

/-- The float nearest to a decimal with a sign. -/
def nearest (negative : Bool) (d : Scaled) : Float :=
  floatOfBits negative d.nearestBits

end StackBridge.Decimal
