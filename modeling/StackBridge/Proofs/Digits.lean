/-
The decimal digits of natural numbers, as both kinds of texts have them. Digits are read back as the
number they are digits of, and only those of zero begin with a zero.
-/
import StackBridge.Decimal.Layout

namespace StackBridge

open Decimal (natChars)

variable {c d : Char} {n : Nat}

/-- A digit is none of the other characters. -/
theorem ne_of_isDigit (hc : c.isDigit = true) (hd : d.isDigit = false) : c ≠ d := by
  rintro rfl
  rw [hc] at hd
  cases hd

theorem isDigit_of_mem_natChars (hc : c ∈ natChars n) : c.isDigit = true :=
  Nat.isDigit_of_mem_toDigits (by decide) (by decide) hc

theorem natChars_ne_nil (n : Nat) : natChars n ≠ [] :=
  Nat.toDigits_ne_nil

theorem ofDigitChars_natChars (n : Nat) : Nat.ofDigitChars 10 (natChars n) 0 = n :=
  Nat.ofDigitChars_toDigits (by decide) (by decide)

/-- The text of a number begins with a digit, and only that of zero with a zero. -/
theorem natChars_eq_cons (n : Nat) :
    ∃ c tail, natChars n = c :: tail ∧ c.isDigit = true ∧ (c = '0' → n = 0) := by
  induction n using Nat.strongRecOn with
  | ind n ih =>
      rw [natChars, Nat.toDigits_eq_if (by decide)]
      split
      · rename_i hsmall
        have hmem : Nat.digitChar n ∈ natChars n := by
          rw [natChars, Nat.toDigits_of_lt_base hsmall]
          exact List.mem_cons_self
        exact ⟨_, _, rfl, isDigit_of_mem_natChars hmem, Nat.digitChar_eq_zero.1⟩
      · obtain ⟨c, tail, hfront, hdigit, hzero⟩ := ih (n / 10) (by omega)
        rw [← natChars, hfront]
        refine ⟨c, _, rfl, hdigit, fun hc => ?_⟩
        have hsmall := hzero hc
        omega

/-- A text is no shorter than what it is escaped from. -/
theorem length_le_flatMap {escaped : Char → List Char} (hsome : ∀ c, escaped c ≠ [])
    (cs : List Char) : cs.length ≤ (cs.flatMap escaped).length := by
  induction cs with
  | nil => exact Nat.le_refl _
  | cons c rest ih =>
      have hone := List.length_pos_iff.2 (hsome c)
      simp only [List.flatMap_cons, List.length_append, List.length_cons]
      omega

end StackBridge
