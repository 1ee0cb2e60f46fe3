/-
What lies in the rounding interval of a float is rounded to its bits. A positive number determines
the unit of the last place, and the units that round it are those of the float, except just below
the power of two at which the unit changes: there it is the same bits by a carry.
-/
import Mathlib.Tactic.FieldSimp
import StackBridge.Proofs.ShortestDecimals

namespace StackBridge.Decimal

theorem fractionCount_eq : fractionCount = 2 ^ 52 :=
  rfl

section Quotients

variable {numerator denominator : Nat} {value : ℚ} {unit : ℤ} {count : Nat}

/-- Whether a float near a number has `2 ^ unit` as the unit of its last place: 53 binary digits
reach the number, and 52 only if the unit is the least there is. -/
structure HasUnit (value : ℚ) (unit : ℤ) : Prop where
  least : -1074 ≤ unit
  upper : value < 2 ^ 53 * 2 ^ unit
  lower : unit = -1074 ∨ 2 ^ 52 * 2 ^ unit ≤ value

/-- A number has one unit only: of two units the larger one would have to be the least. -/
theorem HasUnit.unique {other : ℤ} (hunit : HasUnit value unit) (hother : HasUnit value other) :
    unit = other := by
  have hle : ∀ {low high : ℤ}, HasUnit value low → HasUnit value high → high ≤ low := by
    intro low high hlow hhigh
    by_contra hlt
    rcases hhigh.lower with hleast | hlower
    · have := hlow.least
      omega
    · have hpow : (2 : ℚ) ^ (low + 1) ≤ 2 ^ high := zpow_le_zpow_right₀ one_le_two (by omega)
      rw [zpow_add_one₀ two_ne_zero] at hpow
      linarith [hlow.upper]
  exact le_antisymm (hle hother hunit) (hle hunit hother)

/-- What is compared as natural numbers is the quotient and the unit, both times one factor. -/
theorem exists_scale (numerator : Nat) (hdenominator : 0 < denominator) (unit : ℤ) :
    ∃ scale : ℚ, 0 < scale ∧
      ((numerator * Nat.pow 2 (-unit).toNat : Nat) : ℚ) = numerator / denominator * scale ∧
      ((denominator * Nat.pow 2 unit.toNat : Nat) : ℚ) = 2 ^ unit * scale := by
  refine ⟨denominator * 2 ^ (-unit).toNat, by positivity, ?_, ?_⟩
  · simp only [Nat.pow_eq, Nat.cast_mul, Nat.cast_pow, Nat.cast_ofNat]
    field_simp
  · simp only [Nat.pow_eq, Nat.cast_mul, Nat.cast_pow, Nat.cast_ofNat, pow_toNat two_ne_zero unit]
    ring

/-- The binary logarithms give a quotient to within a factor of two to either side. -/
theorem pow_le_quotient (hnumerator : numerator ≠ 0) (hdenominator : denominator ≠ 0) :
    (2 : ℚ) ^ ((numerator.log2 : ℤ) - denominator.log2 - 1) ≤ numerator / denominator := by
  have hlarge : (2 : ℚ) ^ numerator.log2 ≤ numerator := by
    exact_mod_cast Nat.log2_self_le hnumerator
  have hsmall : (denominator : ℚ) ≤ 2 ^ (denominator.log2 + 1) := by
    exact_mod_cast Nat.lt_log2_self.le
  rw [le_div_iff₀ (by positivity)]
  calc (2 : ℚ) ^ ((numerator.log2 : ℤ) - denominator.log2 - 1) * denominator
      ≤ 2 ^ ((numerator.log2 : ℤ) - denominator.log2 - 1) * 2 ^ (denominator.log2 + 1) :=
        mul_le_mul_of_nonneg_left hsmall (by positivity)
    _ = 2 ^ numerator.log2 := by
        rw [← zpow_natCast, ← zpow_natCast, ← zpow_add₀ two_ne_zero]
        congr 1
        omega
    _ ≤ numerator := hlarge

theorem quotient_lt_pow (numerator : Nat) (hdenominator : denominator ≠ 0) :
    (numerator : ℚ) / denominator < 2 ^ ((numerator.log2 : ℤ) - denominator.log2 + 1) := by
  have hlarge : (2 : ℚ) ^ denominator.log2 ≤ denominator := by
    exact_mod_cast Nat.log2_self_le hdenominator
  have hsmall : (numerator : ℚ) < 2 ^ (numerator.log2 + 1) := by
    exact_mod_cast Nat.lt_log2_self
  rw [div_lt_iff₀ (by positivity)]
  calc (numerator : ℚ) < 2 ^ (numerator.log2 + 1) := hsmall
    _ = 2 ^ ((numerator.log2 : ℤ) - denominator.log2 + 1) * 2 ^ denominator.log2 := by
        rw [← zpow_natCast, ← zpow_natCast, ← zpow_add₀ two_ne_zero]
        congr 1
        push_cast
        omega
    _ ≤ 2 ^ ((numerator.log2 : ℤ) - denominator.log2 + 1) * denominator :=
        mul_le_mul_of_nonneg_left hlarge (by positivity)

/-- Before it is raised to the least unit, the unit leaves 53 binary digits to the quotient: of the
two units that the logarithms admit, one comparison finds the right one. -/
theorem unitExponent_cases (hnumerator : numerator ≠ 0) (hdenominator : denominator ≠ 0) :
    ∃ fitting : ℤ, unitExponent numerator denominator = max fitting (-1074) ∧
      2 ^ 52 * 2 ^ fitting ≤ (numerator : ℚ) / denominator ∧
      (numerator : ℚ) / denominator < 2 ^ 53 * 2 ^ fitting := by
  have hlower := pow_le_quotient hnumerator hdenominator
  have hupper := quotient_lt_pow numerator hdenominator
  unfold unitExponent
  simp only
  generalize hlow : (numerator.log2 : ℤ) - denominator.log2 - 53 = low
  have hpow : ∀ (places : Nat) (exponent : ℤ),
      (2 : ℚ) ^ places * 2 ^ exponent = 2 ^ (places + exponent) := fun places exponent => by
    rw [← zpow_natCast, ← zpow_add₀ two_ne_zero]
  have hunits : 2 * fractionCount ≤ numerator * Nat.pow 2 (-low).toNat /
      (denominator * Nat.pow 2 low.toNat) ↔
        2 ^ 53 * 2 ^ low ≤ (numerator : ℚ) / denominator := by
    obtain ⟨scale, hscale, hnumber, hunit⟩ :=
      exists_scale numerator (Nat.pos_of_ne_zero hdenominator) low
    rw [Nat.le_div_iff_mul_le (by simp only [Nat.pow_eq]; positivity), ← Nat.cast_le (α := ℚ),
      Nat.cast_mul, hnumber, hunit, ← mul_assoc, mul_le_mul_iff_left₀ hscale]
    norm_num [fractionCount_eq]
  split
  · rename_i hlarge
    refine ⟨low + 1, rfl, ?_, ?_⟩
    · rw [zpow_add_one₀ two_ne_zero]
      linarith [hunits.1 hlarge]
    · rw [hpow]
      convert hupper using 2
      push_cast
      omega
  · rename_i hsmall
    refine ⟨low, rfl, ?_, not_le.1 fun hle => hsmall (hunits.2 hle)⟩
    rw [hpow]
    convert hlower using 2
    push_cast
    omega

/-- The unit of a quotient is found from the lengths of its two numbers. -/
theorem hasUnit_unitExponent (hnumerator : numerator ≠ 0) (hdenominator : denominator ≠ 0) :
    HasUnit (numerator / denominator) (unitExponent numerator denominator) := by
  obtain ⟨fitting, hfitting, hbelow, habove⟩ := unitExponent_cases hnumerator hdenominator
  rw [hfitting]
  refine ⟨le_max_right _ _, ?_, ?_⟩
  · have hmono : (2 : ℚ) ^ fitting ≤ 2 ^ max fitting (-1074) :=
      zpow_le_zpow_right₀ one_le_two (le_max_left _ _)
    linarith
  · rcases max_choice fitting (-1074) with hmax | hmax
    · rw [hmax]
      exact Or.inr hbelow
    · exact Or.inl hmax

/-- Whether a number of units is what a number is rounded to, an even one on a tie. -/
def RoundsTo (value : ℚ) (unit : ℤ) (count : Nat) : Prop :=
  if count % 2 = 0 then
    (2 * count - 1) * 2 ^ unit ≤ 2 * value ∧ 2 * value ≤ (2 * count + 1) * 2 ^ unit
  else (2 * count - 1) * 2 ^ unit < 2 * value ∧ 2 * value < (2 * count + 1) * 2 ^ unit

/-- A quotient within half of a natural number is rounded to it, be it the quotient without its
remainder or the next number. -/
theorem roundQuotient_eq (hdenominator : 0 < denominator)
    (hlow : 2 * (count * denominator) ≤ 2 * numerator + denominator)
    (hhigh : 2 * numerator ≤ 2 * (count * denominator) + denominator)
    (htie : count % 2 = 0 ∨ 2 * (count * denominator) < 2 * numerator + denominator ∧
      2 * numerator < 2 * (count * denominator) + denominator) :
    roundQuotient numerator denominator = count := by
  have hsplit := Nat.div_add_mod' numerator denominator
  have hrest := Nat.mod_lt numerator hdenominator
  unfold roundQuotient
  simp only
  generalize numerator / denominator = below at *
  generalize numerator % denominator = rest at *
  have hle : below ≤ count := by
    by_contra hlt
    have := Nat.mul_le_mul_right denominator (show count + 1 ≤ below by omega)
    rw [Nat.add_mul] at this
    omega
  have hge : count ≤ below + 1 := by
    by_contra hlt
    have := Nat.mul_le_mul_right denominator (show below + 2 ≤ count by omega)
    rw [Nat.add_mul] at this
    omega
  obtain rfl | rfl : count = below ∨ count = below + 1 := by omega
  · split
    · rfl
    · split <;> omega
  · rw [Nat.add_mul] at hlow hhigh htie
    split
    · omega
    · split <;> omega

/-- Rounding in units of the last place gives the nearest count of them. -/
theorem roundQuotient_of_roundsTo (hdenominator : 0 < denominator)
    (hrounds : RoundsTo (numerator / denominator) unit count) :
    roundQuotient (numerator * Nat.pow 2 (-unit).toNat) (denominator * Nat.pow 2 unit.toNat) =
      count := by
  obtain ⟨scale, hscale, hnumber, hunit⟩ := exists_scale numerator hdenominator unit
  have hpositive : 0 < denominator * Nat.pow 2 unit.toNat := by
    simp only [Nat.pow_eq]
    positivity
  generalize numerator * Nat.pow 2 (-unit).toNat = units at *
  generalize denominator * Nat.pow 2 unit.toNat = step at *
  generalize (numerator : ℚ) / denominator = value at *
  have hlow : ((2 * (count * step) : Nat) : ℚ) - (2 * units + step : Nat) =
      ((2 * count - 1) * 2 ^ unit - 2 * value) * scale := by
    push_cast
    rw [hnumber, hunit]
    ring
  have hhigh : ((2 * units : Nat) : ℚ) - (2 * (count * step) + step : Nat) =
      (2 * value - (2 * count + 1) * 2 ^ unit) * scale := by
    push_cast
    rw [hnumber, hunit]
    ring
  have hle : ∀ {left right : Nat} {gap : ℚ}, (left : ℚ) - right = gap * scale → gap ≤ 0 →
      left ≤ right := fun hgap hsign =>
    Nat.cast_le.1 (sub_nonpos.1 (hgap ▸ mul_nonpos_of_nonpos_of_nonneg hsign hscale.le))
  have hlt : ∀ {left right : Nat} {gap : ℚ}, (left : ℚ) - right = gap * scale → gap < 0 →
      left < right := fun hgap hsign =>
    Nat.cast_lt.1 (sub_neg.1 (hgap ▸ mul_neg_of_neg_of_pos hsign hscale))
  unfold RoundsTo at hrounds
  split at hrounds
  · rename_i heven
    exact roundQuotient_eq hpositive (hle hlow (sub_nonpos.2 hrounds.1))
      (hle hhigh (sub_nonpos.2 hrounds.2)) (Or.inl heven)
  · have hstrict := And.intro (hlt hlow (sub_neg.2 hrounds.1)) (hlt hhigh (sub_neg.2 hrounds.2))
    exact roundQuotient_eq hpositive hstrict.1.le hstrict.2.le (Or.inr hstrict)

/-- The unit and the number of units determine the bits. -/
theorem quotientBits_eq (hnumerator : numerator ≠ 0) (hdenominator : denominator ≠ 0)
    (hunit : HasUnit (numerator / denominator) unit)
    (hrounds : RoundsTo (numerator / denominator) unit count) :
    quotientBits numerator denominator =
      if count < fractionCount then count
      else min ((unit + 1074).toNat * fractionCount + count) infinityBits := by
  obtain rfl := (hasUnit_unitExponent hnumerator hdenominator).unique hunit
  unfold quotientBits
  simp only [roundQuotient_of_roundsTo (Nat.pos_of_ne_zero hdenominator) hrounds]

end Quotients

namespace Binary

/-- Whether a float has this magnitude: its mantissa has 53 binary digits, or fewer at the least
exponent, and the gap below it is narrow if it is the least with its exponent. -/
structure Representable (b : Binary) : Prop where
  positive : 0 < b.mantissa
  width : b.mantissa < 2 * fractionCount
  least : -1074 ≤ b.exponent
  greatest : b.exponent ≤ 971
  full : b.exponent = -1074 ∨ fractionCount ≤ b.mantissa
  narrow : b.narrowBelow = true ↔ b.mantissa = fractionCount ∧ -1074 < b.exponent

/-- The bits of a float with this magnitude, the sign apart. -/
def bits (b : Binary) : Nat :=
  (b.exponent + 1074).toNat * fractionCount + b.mantissa

variable {b : Binary} {value : ℚ}

theorem Representable.bits_lt (hb : b.Representable) : b.bits < infinityBits := by
  have hwidth := hb.width
  have hgreatest := hb.greatest
  unfold bits infinityBits
  unfold fractionCount at *
  omega

/-- The ends of the interval in units of the last place. -/
theorem quarter_unit (count : ℚ) (exponent : ℤ) :
    count * 2 ^ (exponent - 2) = count / 4 * 2 ^ exponent := by
  rw [zpow_sub₀ two_ne_zero]
  ring

theorem high_cast (b : Binary) : (b.high : ℚ) = 4 * b.mantissa + 2 := by
  unfold high
  push_cast
  rfl

theorem Representable.low_cast (hb : b.Representable) :
    (b.low : ℚ) = 4 * b.mantissa - (if b.narrowBelow then 1 else 2) := by
  have hpositive := hb.positive
  unfold low
  split
  · rw [Nat.cast_sub (by omega)]
    push_cast
    rfl
  · rw [Nat.cast_sub (by omega)]
    push_cast
    rfl

/-- At most half a unit is below a float in its interval. -/
theorem Representable.half_le_low (hb : b.Representable) :
    (2 * b.mantissa - 1) * 2 ^ b.exponent ≤ 2 * (b.low * 2 ^ (b.exponent - 2) : ℚ) := by
  have hunit : (0 : ℚ) < 2 ^ b.exponent := by positivity
  rw [hb.low_cast, quarter_unit]
  split <;> linarith

/-- No number of the interval reaches the next power of two. -/
theorem Representable.lt_of_covers (hb : b.Representable) (hcovers : b.Covers value) :
    value < 2 ^ 53 * 2 ^ b.exponent := by
  have hunit : (0 : ℚ) < 2 ^ b.exponent := by positivity
  have hwidth : (b.mantissa : ℚ) + 1 ≤ 2 ^ 53 := by
    exact_mod_cast hb.width
  have hhigh := hcovers.bounds.2
  rw [quarter_unit, high_cast] at hhigh
  have := mul_le_mul_of_nonneg_right hwidth hunit.le
  linarith

/-- What is no less than a power of two is rounded in units of the float. -/
theorem Representable.rounds (hb : b.Representable) (hcovers : b.Covers value)
    (hlower : b.exponent = -1074 ∨ 2 ^ 52 * 2 ^ b.exponent ≤ value) :
    HasUnit value b.exponent ∧ RoundsTo value b.exponent b.mantissa := by
  refine ⟨⟨hb.least, hb.lt_of_covers hcovers, hlower⟩, ?_⟩
  have hlow := hb.half_le_low
  have hhigh : 2 * (b.high * 2 ^ (b.exponent - 2) : ℚ) =
      (2 * b.mantissa + 1) * 2 ^ b.exponent := by
    rw [high_cast, quarter_unit]
    ring
  unfold Covers at hcovers
  unfold RoundsTo
  split
  · rename_i heven
    rw [if_pos heven] at hcovers
    constructor <;> linarith
  · rename_i hodd
    rw [if_neg hodd] at hcovers
    constructor <;> linarith

/-- What is less is so by half of a unit of the float below at most. It is rounded up to the power
of two in these units. -/
theorem Representable.carries (hb : b.Representable) (hcovers : b.Covers value)
    (hleast : b.exponent ≠ -1074) (hbelow : value < 2 ^ 52 * 2 ^ b.exponent) :
    HasUnit value (b.exponent - 1) ∧ RoundsTo value (b.exponent - 1) (2 * fractionCount) ∧
      b.mantissa = fractionCount := by
  have hunit : (0 : ℚ) < 2 ^ b.exponent := by positivity
  have hexponent : -1074 < b.exponent := lt_of_le_of_ne hb.least (Ne.symm hleast)
  have hfull : fractionCount ≤ b.mantissa := hb.full.resolve_left hleast
  have hlow := hb.half_le_low
  have hmantissa : b.mantissa = fractionCount := by
    refine le_antisymm (not_lt.1 fun hlarge => ?_) hfull
    have hlarge : (2 : ℚ) ^ 52 + 1 ≤ b.mantissa := by
      exact_mod_cast hlarge
    have := mul_le_mul_of_nonneg_right hlarge hunit.le
    linarith [hcovers.bounds.1]
  have hbound : (2 ^ 54 - 1) / 4 * 2 ^ b.exponent ≤ value := by
    have hnarrow := hb.narrow.2 ⟨hmantissa, hexponent⟩
    have hvalue := hcovers.bounds.1
    rw [hb.low_cast, quarter_unit, hnarrow, if_pos rfl, hmantissa, fractionCount_eq] at hvalue
    push_cast at hvalue
    linarith
  have hhalf : (2 : ℚ) ^ (b.exponent - 1) = 2 ^ b.exponent / 2 := by
    rw [zpow_sub_one₀ two_ne_zero]
    ring
  refine ⟨⟨by omega, ?_, Or.inr ?_⟩, ?_, hmantissa⟩
  · rw [hhalf]
    linarith
  · rw [hhalf]
    linarith
  · unfold RoundsTo
    rw [if_pos (by omega), hhalf, fractionCount_eq]
    push_cast
    constructor <;> linarith

/-- What lies in the interval of a float is rounded to its bits. -/
theorem Representable.quotientBits_eq (hb : b.Representable) {numerator denominator : Nat}
    (hnumerator : numerator ≠ 0) (hdenominator : denominator ≠ 0)
    (hcovers : b.Covers (numerator / denominator)) :
    quotientBits numerator denominator = b.bits := by
  have hbits := hb.bits_lt
  have hleast := hb.least
  by_cases hlower : b.exponent = -1074 ∨ 2 ^ 52 * 2 ^ b.exponent ≤ (numerator : ℚ) / denominator
  · obtain ⟨hunit, hrounds⟩ := hb.rounds hcovers hlower
    rw [Decimal.quotientBits_eq hnumerator hdenominator hunit hrounds]
    split
    · rename_i hsmall
      have hexponent : b.exponent = -1074 := hb.full.resolve_right (by omega)
      simp [bits, hexponent]
    · exact min_eq_left hbits.le
  · obtain ⟨hexponent, hbelow⟩ := not_or.1 hlower
    obtain ⟨hunit, hrounds, hmantissa⟩ := hb.carries hcovers hexponent (not_le.1 hbelow)
    rw [Decimal.quotientBits_eq hnumerator hdenominator hunit hrounds]
    unfold bits infinityBits at *
    unfold fractionCount at *
    split <;> omega

/-- The numbers that are rounded to a float which is neither zero nor infinite. -/
theorem Representable.bounds (hb : b.Representable) (hcovers : b.Covers value) :
    2 ^ (-1075 : ℤ) ≤ value ∧ value < 2 ^ (1024 : ℤ) := by
  constructor
  · have hmantissa : (1 : ℚ) ≤ b.mantissa := by
      exact_mod_cast hb.positive
    have hunit : (2 : ℚ) ^ (-1074 : ℤ) ≤ 2 ^ b.exponent :=
      zpow_le_zpow_right₀ one_le_two hb.least
    have hhalf : (2 : ℚ) ^ (-1074 : ℤ) = 2 ^ (-1075 : ℤ) * 2 :=
      zpow_add_one₀ two_ne_zero (-1075)
    have := mul_le_mul_of_nonneg_right hmantissa (by positivity : (0 : ℚ) ≤ 2 ^ b.exponent)
    linarith [hb.half_le_low, hcovers.bounds.1]
  · refine (hb.lt_of_covers hcovers).trans_le ?_
    rw [← zpow_natCast, ← zpow_add₀ two_ne_zero]
    have := hb.greatest
    exact zpow_le_zpow_right₀ one_le_two (by push_cast; omega)

end Binary

theorem two_pow_le_ten_pow (n : Nat) : (2 : ℚ) ^ (3 * n) ≤ 10 ^ n := by
  rw [pow_mul]
  exact pow_le_pow_left₀ (by norm_num) (by norm_num) n

namespace Scaled

variable {d : Scaled}

theorem value_eq_div (d : Scaled) :
    d.value = ((d.digits * Nat.pow 10 d.exponent.toNat : Nat) : ℚ) /
      (Nat.pow 10 (-d.exponent).toNat : Nat) := by
  have hpow : (10 : ℚ) ^ d.exponent.toNat = 10 ^ d.exponent * 10 ^ (-d.exponent).toNat :=
    pow_toNat (by norm_num) d.exponent
  simp only [Nat.pow_eq, Nat.cast_mul, Nat.cast_pow, Nat.cast_ofNat]
  rw [hpow, value, eq_div_iff (by positivity), mul_assoc]

/-- The powers of ten that are taken for zero are below half of the least float. -/
theorem value_lt_of_exponent (hsmall : d.exponent + d.digits.log2 < -maxPower) :
    d.value < 2 ^ (-1075 : ℤ) := by
  obtain ⟨power, hpower⟩ : ∃ power : Nat, d.exponent = -power :=
    ⟨(-d.exponent).toNat, by omega⟩
  have hplaces : d.digits.log2 + 1 + 1075 ≤ 3 * power := by
    unfold maxPower at hsmall
    omega
  have hdigits : (d.digits : ℚ) < 2 ^ (d.digits.log2 + 1) := by
    exact_mod_cast Nat.lt_log2_self
  unfold value
  rw [hpower, zpow_neg, zpow_natCast, zpow_neg, ← div_eq_mul_inv, div_lt_iff₀ (by positivity),
    ← div_eq_inv_mul, lt_div_iff₀ (by positivity)]
  calc (d.digits : ℚ) * 2 ^ (1075 : ℤ) < 2 ^ (d.digits.log2 + 1) * 2 ^ (1075 : ℤ) :=
        mul_lt_mul_of_pos_right hdigits (by positivity)
    _ = 2 ^ (d.digits.log2 + 1 + 1075) := by
        rw [pow_add _ _ 1075, ← zpow_natCast _ 1075]
        rfl
    _ ≤ 2 ^ (3 * power) := pow_le_pow_right₀ one_le_two hplaces
    _ ≤ 10 ^ power := two_pow_le_ten_pow power

/-- Those that are taken for infinity are beyond the largest float. -/
theorem le_value_of_exponent (hdigits : d.digits ≠ 0) (hlarge : maxPower < d.exponent) :
    2 ^ (1024 : ℤ) ≤ d.value := by
  obtain ⟨power, hpower⟩ : ∃ power : Nat, d.exponent = power := ⟨d.exponent.toNat, by omega⟩
  have hplaces : 1024 ≤ 3 * power := by
    unfold maxPower at hlarge
    omega
  have hone : (1 : ℚ) ≤ d.digits := by
    exact_mod_cast Nat.one_le_iff_ne_zero.2 hdigits
  unfold value
  rw [hpower, zpow_natCast]
  calc (2 : ℚ) ^ (1024 : ℤ) ≤ 2 ^ ((3 * power : Nat) : ℤ) :=
        zpow_le_zpow_right₀ one_le_two (by omega)
    _ = 2 ^ (3 * power) := zpow_natCast _ _
    _ ≤ 10 ^ power := two_pow_le_ten_pow power
    _ ≤ d.digits * 10 ^ power := le_mul_of_one_le_left (by positivity) hone

/-- A decimal in the interval of a float has the bits of the float. -/
theorem nearestBits_eq {b : Binary} (hb : b.Representable) (hcovers : b.Covers d.value) :
    d.nearestBits = b.bits := by
  obtain ⟨hlower, hupper⟩ := hb.bounds hcovers
  have hdigits : d.digits ≠ 0 := by
    intro hzero
    have hpositive : (0 : ℚ) < 2 ^ (-1075 : ℤ) := by positivity
    rw [value, hzero, Nat.cast_zero, zero_mul] at hlower
    exact absurd hlower (not_le.2 hpositive)
  have hsmall : ¬ d.exponent + d.digits.log2 < -maxPower := fun hsmall =>
    absurd hlower (not_le.2 (value_lt_of_exponent hsmall))
  have hlarge : ¬ maxPower < d.exponent := fun hlarge =>
    absurd hupper (not_lt.2 (le_value_of_exponent hdigits hlarge))
  unfold nearestBits
  rw [if_neg (by simp [hdigits, hsmall]), if_neg hlarge]
  refine hb.quotientBits_eq ?_ ?_ ?_
  · simp only [Nat.pow_eq]
    positivity
  · simp only [Nat.pow_eq]
    positivity
  · rwa [← value_eq_div]

end Scaled

end StackBridge.Decimal
