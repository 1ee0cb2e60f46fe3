/-
The bits of floats. A float is its sign and the bits that are left, which its magnitude determines,
so that what is rounded to the magnitude of a float is the float.
-/
import Mathlib
import StackBridge.Proofs.NearestFloats

namespace StackBridge.Decimal

theorem representable_of_subnormal {fraction : Nat} (hsome : fraction ≠ 0)
    (hwidth : fraction < fractionCount) :
    (Binary.mk fraction (-1074) false).Representable where
  positive := Nat.pos_of_ne_zero hsome
  width := by simp only; omega
  least := le_rfl
  greatest := by simp
  full := Or.inl rfl
  narrow := by simp

theorem representable_of_normal {fraction exponent : Nat} (hwidth : fraction < fractionCount)
    (hsome : exponent ≠ 0) (hfinite : exponent < 2047) :
    (Binary.mk (fractionCount + fraction) ((exponent : ℤ) - 1075)
      (fraction = 0 && 1 < exponent)).Representable where
  positive := by simp only [fractionCount]; omega
  width := by simp only; omega
  least := by simp only; omega
  greatest := by simp only; omega
  full := Or.inr (Nat.le_add_right _ _)
  narrow := by simp only [Bool.and_eq_true, decide_eq_true_eq]; omega

open Float.Model (UnpackedFloat)

variable {x : Float} {b : Binary}

/-- The bits of a float without the sign. -/
def unsignedBits (x : Float) : Nat :=
  x.toBits.toNat % signBit

/-- A float is its sign and the other bits. -/
theorem floatOfBits_unsignedBits (x : Float) : floatOfBits (isNegative x) (unsignedBits x) = x := by
  have hbits : (if isNegative x then signBit else 0) + unsignedBits x = x.toBits.toNat := by
    have hlt := x.toBits.toNat_lt
    unfold isNegative unsignedBits signBit
    simp only [decide_eq_true_eq]
    split <;> omega
  unfold floatOfBits
  rw [hbits, UInt64.ofNat_toNat, Float.ofBits_toBits]

theorem unsignedBits_eq (x : Float) : unsignedBits x =
    x.toBits.toNat / fractionCount % 2048 * fractionCount + x.toBits.toNat % fractionCount := by
  have hlt := x.toBits.toNat_lt
  unfold unsignedBits signBit fractionCount
  omega

/-- What a magnitude says about the bits of a float without the sign. -/
def Magnitude.Describes : Magnitude → Nat → Prop
  | .zero, bits => bits = 0
  | .finite b, bits => b.Representable ∧ bits = b.bits
  | .infinite, bits => bits = infinityBits
  | .undefined, bits => infinityBits < bits

theorem magnitude_describes (x : Float) : (magnitude x).Describes (unsignedBits x) := by
  rw [unsignedBits_eq]
  unfold magnitude
  simp only
  have hwidth : x.toBits.toNat % fractionCount < fractionCount := Nat.mod_lt _ (by decide)
  have hexponent : x.toBits.toNat / fractionCount % 2048 < 2048 := Nat.mod_lt _ (by decide)
  generalize x.toBits.toNat % fractionCount = fraction at *
  generalize x.toBits.toNat / fractionCount % 2048 = exponent at *
  split
  · rename_i hspecial
    subst hspecial
    split
    · rename_i hfraction
      subst hfraction
      rfl
    · exact Nat.lt_add_of_pos_right (Nat.pos_of_ne_zero ‹_›)
  · split
    · rename_i hleast
      subst hleast
      split
      · rename_i hfraction
        subst hfraction
        rfl
      · exact ⟨representable_of_subnormal ‹_› hwidth, by simp [Binary.bits]⟩
    · refine ⟨representable_of_normal hwidth ‹_› (by omega), ?_⟩
      simp only [Binary.bits, fractionCount]
      omega

theorem unpackExponent_toNat (bits : UInt64) :
    (@UnpackedFloat.unpackExponent .binary64 bits.toBitVec).toNat =
      bits.toNat / fractionCount % 2048 := by
  rw [UnpackedFloat.unpackExponent_def, BitVec.extractLsb'_toNat, Nat.shiftRight_eq_div_pow]
  rfl

theorem unpackMantissa_toNat (bits : UInt64) :
    (@UnpackedFloat.unpackMantissa .binary64 bits.toBitVec).toNat = bits.toNat % fractionCount := by
  rw [UnpackedFloat.unpackMantissa_def, BitVec.extractLsb'_toNat]
  rfl

theorem not_isInf_of_lt (hbits : unsignedBits x < infinityBits) : x.isInf = false := by
  have hspecial : @UnpackedFloat.unpackExponent .binary64 x.toBits.toBitVec ≠ -1#11 := by
    intro h
    have hexponent := unpackExponent_toNat x.toBits
    rw [h] at hexponent
    rw [unsignedBits_eq, ← hexponent] at hbits
    exact absurd hbits (not_lt.2 (Nat.le_add_right _ _))
  unfold Float.isInf Float.Model.isInf Float.Model.unpack UnpackedFloat.unpack
  simp only
  split
  · exact absurd ‹_› hspecial
  · split
    · split <;> rfl
    · rfl

/-- All floats that are undefined are one float. -/
theorem toBits_of_lt (hbits : infinityBits < unsignedBits x) : x.toBits = 0x7ff8000000000000 := by
  have hexponent : @UnpackedFloat.unpackExponent .binary64 x.toBits.toBitVec = -1#11 := by
    refine BitVec.eq_of_toNat_eq ((unpackExponent_toNat _).trans ?_)
    change _ = 2047
    rw [unsignedBits_eq] at hbits
    unfold infinityBits fractionCount at *
    omega
  have hfraction : @UnpackedFloat.unpackMantissa .binary64 x.toBits.toBitVec ≠ 0#52 := by
    intro h
    have hfraction := unpackMantissa_toNat x.toBits
    rw [h] at hfraction
    rw [unsignedBits_eq, ← hfraction] at hbits
    change infinityBits < _ + 0 at hbits
    unfold infinityBits fractionCount at *
    omega
  exact UInt64.toBitVec_inj.1 (x.toModel.valid.eq_packedNaN hexponent hfraction)

/-- What has the value of the shortest decimal of a float is rounded to the float. -/
theorem nearest_eq {d : Scaled} (hfinite : magnitude x = .finite b)
    (hvalue : d.value = (shortest b).value) : nearest (isNegative x) d = x ∧ x.isInf = false := by
  have hdescribed := magnitude_describes x
  rw [hfinite] at hdescribed
  obtain ⟨hb, hbits⟩ := hdescribed
  have hcovers : b.Covers d.value := hvalue ▸ covers_shortest hb.positive
  constructor
  · rw [nearest, Scaled.nearestBits_eq hb hcovers, ← hbits, floatOfBits_unsignedBits]
  · exact not_isInf_of_lt (hbits ▸ hb.bits_lt)

end StackBridge.Decimal
