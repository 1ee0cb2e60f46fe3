/-
The shortest decimal of a float is rounded to the float again. What rounds to a float is an interval
of rational numbers: the digits of a float are sought in it, and whatever lies in it is rounded to
the bits of the float.
-/
import Mathlib.Algebra.Order.Field.Power
import Mathlib.Data.Rat.Cast.Order
import Mathlib.Tactic.Linarith
import Mathlib.Tactic.Positivity
import Mathlib.Tactic.Ring
import StackBridge.Decimal.Nearest

namespace StackBridge.Decimal

/-- The number that a decimal stands for. -/
def Scaled.value (d : Scaled) : ℚ :=
  d.digits * 10 ^ d.exponent

/-- A power with an exponent that may be negative, over natural powers. -/
theorem pow_toNat {base : ℚ} (hbase : base ≠ 0) (n : ℤ) :
    base ^ n.toNat = base ^ n * base ^ (-n).toNat := by
  rw [← zpow_natCast, ← zpow_natCast, ← zpow_add₀ hbase]
  congr 1
  omega

namespace Binary

variable {b : Binary} {steps : Nat} {place : ℤ}

/-- Whether a number lies in the rounding interval of a float, whose ends belong to it exactly when
the mantissa is even. -/
def Covers (b : Binary) (value : ℚ) : Prop :=
  if b.mantissa % 2 = 0 then
    b.low * 2 ^ (b.exponent - 2) ≤ value ∧ value ≤ b.high * 2 ^ (b.exponent - 2)
  else b.low * 2 ^ (b.exponent - 2) < value ∧ value < b.high * 2 ^ (b.exponent - 2)

/-- The interval with its ends, which says nothing about ties. -/
theorem Covers.bounds {value : ℚ} (hcovers : b.Covers value) :
    b.low * 2 ^ (b.exponent - 2) ≤ value ∧ value ≤ b.high * 2 ^ (b.exponent - 2) := by
  unfold Covers at hcovers
  split at hcovers
  · exact hcovers
  · exact ⟨hcovers.1.le, hcovers.2.le⟩

/-- What the factors of the two sides of a comparison have in common. -/
def commonScale (b : Binary) (place : ℤ) : ℚ :=
  2 ^ (2 - b.exponent).toNat * 10 ^ (-place).toNat

theorem commonScale_pos (b : Binary) (place : ℤ) : 0 < b.commonScale place := by
  unfold commonScale
  positivity

theorem quarterScale_eq (b : Binary) (place : ℤ) :
    (b.quarterScale place : ℚ) = 2 ^ (b.exponent - 2) * b.commonScale place := by
  have hpow := pow_toNat two_ne_zero (b.exponent - 2)
  rw [neg_sub] at hpow
  simp only [quarterScale, commonScale, Nat.pow_eq, Nat.cast_mul, Nat.cast_pow, Nat.cast_ofNat]
  rw [hpow, mul_assoc]

theorem gridScale_eq (b : Binary) (place : ℤ) :
    (b.gridScale place : ℚ) = 10 ^ place * b.commonScale place := by
  have hpow : (10 : ℚ) ^ place.toNat = 10 ^ place * 10 ^ (-place).toNat :=
    pow_toNat (by norm_num) place
  simp only [gridScale, commonScale, Nat.pow_eq, Nat.cast_mul, Nat.cast_pow, Nat.cast_ofNat]
  rw [hpow]
  ring

theorem quarters_le_steps {quarters : Nat} :
    quarters * b.quarterScale place ≤ steps * b.gridScale place ↔
      (quarters : ℚ) * 2 ^ (b.exponent - 2) ≤ steps * 10 ^ place := by
  rw [← Nat.cast_le (α := ℚ), Nat.cast_mul, Nat.cast_mul, quarterScale_eq, gridScale_eq,
    ← mul_assoc, ← mul_assoc, mul_le_mul_iff_left₀ (b.commonScale_pos place)]

theorem steps_le_quarters {quarters : Nat} :
    steps * b.gridScale place ≤ quarters * b.quarterScale place ↔
      (steps : ℚ) * 10 ^ place ≤ quarters * 2 ^ (b.exponent - 2) := by
  rw [← Nat.cast_le (α := ℚ), Nat.cast_mul, Nat.cast_mul, quarterScale_eq, gridScale_eq,
    ← mul_assoc, ← mul_assoc, mul_le_mul_iff_left₀ (b.commonScale_pos place)]

/-- The comparisons of natural numbers decide about the interval. -/
theorem readsBack_iff : b.readsBack steps place = true ↔ b.Covers (steps * 10 ^ place) := by
  unfold readsBack Covers
  simp only
  split
  · simp only [Bool.and_eq_true, decide_eq_true_eq, quarters_le_steps, steps_le_quarters]
  · simp only [Bool.and_eq_true, decide_eq_true_eq, ← not_le, quarters_le_steps, steps_le_quarters]

/-- A grid point that is found as the nearest reads back, whichever of the two neighbours it is. -/
theorem readsBack_of_nearestOn (hsteps : b.nearestOn place = some steps) :
    b.readsBack steps place = true := by
  unfold nearestOn at hsteps
  simp only at hsteps
  split at hsteps
  · cases hsteps
  · rename_i hbelow _
    exact Option.some.inj hsteps ▸ hbelow
  · rename_i _ habove
    exact Option.some.inj hsteps ▸ habove
  · rename_i hbelow habove
    split at hsteps
    · exact Option.some.inj hsteps ▸ hbelow
    · split at hsteps
      · exact Option.some.inj hsteps ▸ habove
      · obtain rfl := Option.some.inj hsteps
        split
        · exact hbelow
        · exact habove

theorem covers_of_firstHit {tries : Nat} {d : Scaled} (hd : b.firstHit tries place = some d) :
    b.Covers d.value := by
  induction tries generalizing place with
  | zero => cases hd
  | succ tries ih =>
      unfold firstHit at hd
      split at hd
      · rename_i steps hsteps
        obtain rfl := Option.some.inj hd
        exact readsBack_iff.1 (readsBack_of_nearestOn hsteps)
      · exact ih hd

theorem exact_value (b : Binary) : b.exact.value = b.mantissa * 2 ^ b.exponent := by
  unfold exact Scaled.value
  split
  · rename_i hnonneg
    simp only [Nat.pow_eq, Nat.cast_mul, Nat.cast_pow, Nat.cast_ofNat, zpow_zero, mul_one]
    rw [← zpow_natCast, Int.toNat_of_nonneg hnonneg]
  · rename_i hneg
    have hten : (10 : ℚ) ^ b.exponent = 5 ^ b.exponent * 2 ^ b.exponent := by
      rw [← mul_zpow]
      norm_num
    simp only [Nat.pow_eq, Nat.cast_mul, Nat.cast_pow, Nat.cast_ofNat]
    rw [← zpow_natCast, Int.toNat_of_nonneg (by omega), hten, mul_assoc, ← mul_assoc (5 ^ _),
      ← zpow_add₀ (by norm_num), neg_add_cancel, zpow_zero, one_mul]

/-- The exact value of a float is within its rounding interval. -/
theorem covers_exact (hsome : 0 < b.mantissa) : b.Covers b.exact.value := by
  have hunit : (0 : ℚ) < 2 ^ (b.exponent - 2) := by positivity
  have hvalue : b.exact.value = (4 * b.mantissa : Nat) * 2 ^ (b.exponent - 2) := by
    rw [exact_value, zpow_sub₀ two_ne_zero]
    push_cast
    ring
  have hlow : b.low < 4 * b.mantissa := by
    unfold low
    split <;> omega
  have hhigh : 4 * b.mantissa < b.high := by
    unfold high
    omega
  have hinside : b.low * 2 ^ (b.exponent - 2) < b.exact.value ∧
      b.exact.value < b.high * 2 ^ (b.exponent - 2) := by
    rw [hvalue]
    exact ⟨mul_lt_mul_of_pos_right (Nat.cast_lt.2 hlow) hunit,
      mul_lt_mul_of_pos_right (Nat.cast_lt.2 hhigh) hunit⟩
  unfold Covers
  split
  · exact ⟨hinside.1.le, hinside.2.le⟩
  · exact hinside

end Binary

/-- Zeros behind the digits count as places. -/
theorem Scaled.value_shift (digits places : Nat) (exponent : ℤ) :
    (Scaled.mk (10 ^ places * digits) exponent).value =
      (Scaled.mk digits (exponent + places)).value := by
  unfold Scaled.value
  push_cast
  rw [zpow_add₀ (by norm_num), zpow_natCast]
  ring

theorem Scaled.value_strip (d : Scaled) : d.strip.value = d.value := by
  induction d using Scaled.strip.induct with
  | case1 d hzeros ih =>
      have hdigits : 10 ^ 1 * (d.digits / 10) = d.digits := by omega
      have hshift := Scaled.value_shift (d.digits / 10) 1 d.exponent
      rw [hdigits] at hshift
      rw [Scaled.strip, dif_pos hzeros, ih]
      exact hshift.symm
  | case2 d hzeros => rw [Scaled.strip, dif_neg hzeros]

/-- The shortest decimal lies in the rounding interval. -/
theorem covers_shortest {b : Binary} (hsome : 0 < b.mantissa) : b.Covers (shortest b).value := by
  unfold shortest
  rw [Scaled.value_strip]
  cases hhit : b.firstHit 17 (b.point - 1) with
  | none => exact Binary.covers_exact hsome
  | some d => exact Binary.covers_of_firstHit hhit

end StackBridge.Decimal
