/-
The text of a float is read as the float. Its digits are read as the same decimal in either layout,
and the decimal is rounded to the float that it was made for.
-/
import StackBridge.Proofs.FloatBits
import StackBridge.Proofs.PlainNumbers

namespace StackBridge.Yaml

open StackBridge.Decimal (Scaled Layout natChars zeros positionalChars scientificChars shortest)

section Decimals

variable {whole fraction rest : List Char} {exponent : Int}

theorem span_digits (hwhole : ∀ c ∈ whole, c.isDigit = true)
    (hrest : ∀ c ∈ rest.head?, c.isDigit = false) :
    (whole ++ rest).takeWhile Char.isDigit = whole ∧
      (whole ++ rest).dropWhile Char.isDigit = rest := by
  have hstop : rest.takeWhile Char.isDigit = [] ∧ rest.dropWhile Char.isDigit = rest := by
    cases rest with
    | nil => exact ⟨rfl, rfl⟩
    | cons c rest => simp [hrest c rfl]
  rw [List.takeWhile_append_of_pos hwhole, List.dropWhile_append_of_pos hwhole, hstop.1, hstop.2,
    List.append_nil]
  exact ⟨rfl, rfl⟩

/-- What states an exponent is nothing or begins with its letter. -/
theorem exponentOf?_cases (hexponent : exponentOf? rest = some exponent) :
    rest = [] ∨ ∃ others, rest = 'e' :: others ∨ rest = 'E' :: others := by
  cases rest with
  | nil => exact Or.inl rfl
  | cons c others =>
      have hletter : c = 'e' ∨ c = 'E' := by
        by_contra hother
        simp [exponentOf?, not_or.1 hother] at hexponent
      exact Or.inr ⟨others, by simpa using hletter⟩

theorem not_isDigit_of_exponentOf? (hexponent : exponentOf? rest = some exponent) :
    ∀ c ∈ rest.head?, c.isDigit = false := by
  rcases exponentOf?_cases hexponent with rfl | ⟨others, rfl | rfl⟩ <;> simp

theorem decimalOf?_of_point (hwhole : ∀ c ∈ whole, c.isDigit = true) (hsome : whole ≠ [])
    (hfraction : ∀ c ∈ fraction, c.isDigit = true) (hexponent : exponentOf? rest = some exponent) :
    decimalOf? (whole ++ '.' :: (fraction ++ rest)) =
      some ⟨Nat.ofDigitChars 10 (whole ++ fraction) 0, exponent - fraction.length⟩ := by
  have hpoint : ∀ c ∈ ('.' :: (fraction ++ rest)).head?, c.isDigit = false := by simp
  obtain ⟨htaken, hdropped⟩ := span_digits hwhole hpoint
  obtain ⟨htakenNext, hdroppedNext⟩ := span_digits hfraction
    (not_isDigit_of_exponentOf? hexponent)
  unfold decimalOf?
  simp only [htaken, hdropped, htakenNext, hdroppedNext, hexponent]
  rw [digitsIn_of_digits (by simp [hsome]) (List.forall_mem_append.2 ⟨hwhole, hfraction⟩)]

/-- A decimal that ends behind its point has no exponent. -/
theorem decimalOf?_of_fraction (hwhole : ∀ c ∈ whole, c.isDigit = true) (hsome : whole ≠ [])
    (hfraction : ∀ c ∈ fraction, c.isDigit = true) :
    decimalOf? (whole ++ '.' :: fraction) =
      some ⟨Nat.ofDigitChars 10 (whole ++ fraction) 0, -fraction.length⟩ := by
  have hread := decimalOf?_of_point hwhole hsome hfraction (rfl : exponentOf? [] = some 0)
  rwa [List.append_nil, Int.zero_sub] at hread

theorem decimalOf?_of_whole (hwhole : ∀ c ∈ whole, c.isDigit = true) (hsome : whole ≠ [])
    (hexponent : exponentOf? rest = some exponent) :
    decimalOf? (whole ++ rest) = some ⟨Nat.ofDigitChars 10 whole 0, exponent⟩ := by
  obtain ⟨htaken, hdropped⟩ := span_digits hwhole (not_isDigit_of_exponentOf? hexponent)
  unfold decimalOf?
  generalize whole ++ rest = cs at *
  rcases exponentOf?_cases hexponent with rfl | ⟨others, rfl | rfl⟩ <;>
    simp [htaken, hdropped, hexponent, digitsIn_of_digits hsome hwhole]

end Decimals

theorem ofDigitChars_zeros (count start : Nat) :
    Nat.ofDigitChars 10 (zeros count) start = 10 ^ count * start :=
  Nat.ofDigitChars_replicate_zero

theorem length_zeros (count : Nat) : (zeros count).length = count :=
  List.length_replicate

/-- In full, the digits are read as the decimal, with zeros behind them that do not matter. -/
theorem decimalOf?_positionalChars (d : Scaled) :
    ∃ read, decimalOf? (positionalChars (natChars d.digits)
      (d.exponent + (natChars d.digits).length)) = some read ∧ read.value = d.value := by
  have hdigits : ∀ c ∈ natChars d.digits, c.isDigit = true := fun c hc => isDigit_of_mem_natChars hc
  have hsome := natChars_ne_nil d.digits
  have hnumber := ofDigitChars_natChars d.digits
  generalize natChars d.digits = digits at *
  have hzeros : ∀ count, ∀ c ∈ zeros count, c.isDigit = true := fun _ _ => isDigit_of_mem_zeros
  have hzero : ∀ c ∈ ['0'], c.isDigit = true := hzeros 1
  unfold positionalChars
  split
  · -- zeros precede the digits
    have hfraction :=
      List.forall_mem_append.2 ⟨hzeros (-(d.exponent + digits.length)).toNat, hdigits⟩
    have hread := decimalOf?_of_fraction hzero (by simp) hfraction
    rw [Nat.ofDigitChars_append, Nat.ofDigitChars_append, ofDigitChars_zeros] at hread
    have hplaces : -((zeros (-(d.exponent + digits.length)).toNat ++ digits).length : Int) =
        d.exponent := by
      rw [List.length_append, length_zeros]
      omega
    rw [hplaces] at hread
    exact ⟨_, hread, congrArg (fun n => (Scaled.mk n d.exponent).value) hnumber⟩
  · split
    · -- zeros follow the digits
      have hwhole := List.forall_mem_append.2
        ⟨hdigits, hzeros ((d.exponent + digits.length).toNat - digits.length)⟩
      have hread := decimalOf?_of_fraction hwhole (by simp [hsome]) hzero
      rw [Nat.ofDigitChars_append, Nat.ofDigitChars_append, ofDigitChars_zeros, hnumber] at hread
      refine ⟨_, hread, ?_⟩
      change (Scaled.mk (Nat.ofDigitChars 10 (zeros 1) _) (-1)).value = (Scaled.mk _ _).value
      rw [ofDigitChars_zeros, ← mul_assoc, ← pow_add, Scaled.value_shift]
      congr 2
      push_cast
      omega
    · -- the point is among the digits
      have hwhole : ∀ c ∈ digits.take (d.exponent + digits.length).toNat, c.isDigit = true :=
        fun c hc => hdigits c (List.mem_of_mem_take hc)
      have hfraction : ∀ c ∈ digits.drop (d.exponent + digits.length).toNat, c.isDigit = true :=
        fun c hc => hdigits c (List.mem_of_mem_drop hc)
      have hread := decimalOf?_of_fraction hwhole (by simp [hsome]; omega) hfraction
      have hplaces : -((digits.drop (d.exponent + digits.length).toNat).length : Int) =
          d.exponent := by
        rw [List.length_drop]
        omega
      rw [List.take_append_drop, hnumber, hplaces] at hread
      exact ⟨_, hread, rfl⟩

/-- An exponent is read back from its digits. No digit is a sign. -/
theorem exponentOf?_natChars (exponent : Int) :
    exponentOf? ('e' :: ((if exponent < 0 then ['-'] else []) ++ natChars exponent.natAbs)) =
      some exponent := by
  have hdigits : digitsIn 10 (natChars exponent.natAbs) = some exponent.natAbs :=
    digitsIn_toDigits _
  split
  · have hvalue : -(exponent.natAbs : Int) = exponent := by omega
    simp only [exponentOf?, List.singleton_append, hdigits]
    exact congrArg some hvalue
  · have hvalue : (exponent.natAbs : Int) = exponent := by omega
    obtain ⟨c, rest, hchars, hc, -⟩ := beginsWithDigit_natChars exponent.natAbs
    rw [hchars] at hdigits ⊢
    simp [exponentOf?, hdigits, ne_of_isDigit hc (by decide : '-'.isDigit = false),
      ne_of_isDigit hc (by decide : '+'.isDigit = false), hvalue]

/-- With an exponent, they are read as the decimal itself. -/
theorem decimalOf?_scientificChars (d : Scaled) :
    decimalOf? (scientificChars false (natChars d.digits)
      (d.exponent + (natChars d.digits).length)) = some d := by
  have hdigits : ∀ c ∈ natChars d.digits, c.isDigit = true := fun c hc => isDigit_of_mem_natChars hc
  have hsome := natChars_ne_nil d.digits
  have hnumber := ofDigitChars_natChars d.digits
  generalize natChars d.digits = digits at *
  have hexponent := exponentOf?_natChars (d.exponent + digits.length - 1)
  have hfirst : ∀ c ∈ digits.take 1, c.isDigit = true := fun c hc =>
    hdigits c (List.mem_of_mem_take hc)
  have hothers : ∀ c ∈ digits.drop 1, c.isDigit = true := fun c hc =>
    hdigits c (List.mem_of_mem_drop hc)
  unfold scientificChars
  simp only [Bool.false_eq_true, if_false]
  split
  · rename_i hsingle
    have hread := decimalOf?_of_whole hfirst (by simp [hsome]) hexponent
    have hlength : digits.length = 1 := le_antisymm hsingle (List.length_pos_iff.2 hsome)
    have hplaces : d.exponent + digits.length - 1 = d.exponent := by omega
    rw [List.take_of_length_le hsingle, hnumber, hplaces] at hread
    rw [List.take_of_length_le hsingle, hplaces]
    simpa using hread
  · have hread := decimalOf?_of_point hfirst (by simp [hsome]) hothers hexponent
    have hplaces : d.exponent + digits.length - 1 - (digits.drop 1).length = d.exponent := by
      rw [List.length_drop]
      omega
    rw [List.take_append_drop, hnumber, hplaces] at hread
    simpa using hread

/-- The digits of a decimal are read as the number that it stands for. -/
theorem decimalOf?_decimalChars (d : Scaled) :
    ∃ read, decimalOf? (floatLayout.decimalChars d) = some read ∧ read.value = d.value := by
  unfold Layout.decimalChars
  simp only
  split
  · exact decimalOf?_positionalChars d
  · exact ⟨d, decimalOf?_scientificChars d, rfl⟩

/-- The text of a decimal: characters of numbers, of which the first is a digit and one is not. -/
structure IsDecimalText (cs : List Char) : Prop where
  begins : BeginsWithDigit cs
  mark : ∃ c ∈ cs, c.isDigit = false

/-- The digits of a float, however they are laid out, are a decimal and nothing else. -/
theorem isDecimalText_decimalChars (d : Scaled) : IsDecimalText (floatLayout.decimalChars d) := by
  have hdigits := beginsWithDigit_natChars d.digits
  unfold Layout.decimalChars
  simp only
  split
  · refine ⟨beginsWithDigit_positionalChars hdigits _, '.', ?_, by decide⟩
    unfold positionalChars
    split
    · simp
    · split <;> simp
  · refine ⟨beginsWithDigit_scientificChars hdigits _ _, 'e', ?_, by decide⟩
    unfold scientificChars
    simp

theorem isDigit_of_hexValue? {c : Char} {n : Nat} (hvalue : hexValue? c = some n) (hn : n < 10) :
    c.isDigit = true := by
  have hcode : ∀ d : Char, d ≤ c ↔ d.toNat ≤ c.toNat := fun d => by
    rw [Char.le_def, UInt32.le_iff_toNat_le]
    rfl
  unfold hexValue? at hvalue
  split at hvalue
  · rename_i hdigit
    simpa [Char.isDigit, Char.le_def] using hdigit
  · split at hvalue
    · rename_i hletter
      simp only [Bool.and_eq_true, decide_eq_true_eq] at hletter
      have hbound : 97 ≤ c.toNat := (hcode 'a').1 hletter.1
      have := Option.some.inj hvalue
      omega
    · split at hvalue
      · rename_i hletter
        simp only [Bool.and_eq_true, decide_eq_true_eq] at hletter
        have hbound : 65 ≤ c.toNat := (hcode 'A').1 hletter.1
        have := Option.some.inj hvalue
        omega
      · cases hvalue

theorem isDigit_of_digitsIn {cs : List Char} {n : Nat} (hdigits : digitsIn 10 cs = some n) :
    ∀ c ∈ cs, c.isDigit = true := by
  unfold digitsIn at hdigits
  split at hdigits
  · cases hdigits
  · clear * - hdigits
    generalize 0 = start at hdigits
    induction cs generalizing start with
    | nil => simp
    | cons c rest ih =>
        rw [List.foldlM_cons] at hdigits
        obtain ⟨next, hnext, hrest⟩ := Option.bind_eq_some_iff.1 hdigits
        refine List.forall_mem_cons.2 ⟨?_, ih next hrest⟩
        split at hnext
        · rename_i hvalue
          split at hnext
          · exact isDigit_of_hexValue? hvalue ‹_›
          · cases hnext
        · cases hnext

namespace IsDecimalText

variable {cs : List Char}

/-- A decimal is no whole number of any base, as no character of it marks a base. -/
theorem magnitudeOf?_eq_none (hcs : IsDecimalText cs) : magnitudeOf? cs = none := by
  obtain ⟨⟨c, rest, rfl, hc, hrest⟩, other, hother, hmark⟩ := hcs
  have hmarked : markedDigits? (c :: rest) = none := by
    unfold markedDigits?
    split
    case h_4 => rfl
    all_goals
      rename_i hsplit
      obtain ⟨-, rfl⟩ := List.cons.inj hsplit
      exact absurd (hrest _ List.mem_cons_self) (by decide)
  unfold magnitudeOf?
  rw [hmarked]
  simp only
  split
  · rfl
  · refine Option.eq_none_iff_forall_ne_some.2 fun n hn => ?_
    rw [isDigit_of_digitsIn hn other hother] at hmark
    cases hmark

theorem head_ne (hcs : IsDecimalText cs) {other : Char} (hother : other.isDigit = false) :
    cs.head? ≠ some other := by
  obtain ⟨c, rest, rfl, hc, -⟩ := hcs.begins
  simpa using ne_of_isDigit hc hother

/-- With or without a sign, what is behind the sign is the decimal. -/
theorem drop_sign (hcs : IsDecimalText cs) (negative : Bool) :
    (if startsSigned ((if negative then ['-'] else []) ++ cs)
      then ((if negative then ['-'] else []) ++ cs).drop 1
      else (if negative then ['-'] else []) ++ cs) = cs := by
  cases negative with
  | true => rfl
  | false =>
      obtain ⟨c, rest, rfl, hc, -⟩ := hcs.begins
      simp [startsSigned, isSign, ne_of_isDigit hc (by decide : '-'.isDigit = false),
        ne_of_isDigit hc (by decide : '+'.isDigit = false)]

theorem intOf?_eq_none (hcs : IsDecimalText cs) (negative : Bool) :
    intOf? ((if negative then ['-'] else []) ++ cs) = none := by
  have hnone := hcs.magnitudeOf?_eq_none
  cases negative with
  | true => simp [intOf?, hnone]
  | false =>
      obtain ⟨c, rest, rfl, hc, -⟩ := hcs.begins
      simp [intOf?, hnone, ne_of_isDigit hc (by decide : '-'.isDigit = false),
        ne_of_isDigit hc (by decide : '+'.isDigit = false)]

theorem not_isZeroPadded (hcs : IsDecimalText cs) (negative : Bool) :
    isZeroPadded ((if negative then ['-'] else []) ++ cs) = false := by
  obtain ⟨other, hother, hmark⟩ := hcs.mark
  unfold isZeroPadded
  simp only [hcs.drop_sign negative]
  have hall : cs.all Char.isDigit = false := List.all_eq_false.2 ⟨other, hother, by simp [hmark]⟩
  simp [hall]

/-- A word with a meaning has no digits. -/
theorem no_word (hcs : IsDecimalText cs) (negative : Bool) {text : String}
    (htext : text.toList = (if negative then ['-'] else []) ++ cs) :
    text ≠ "" ∧ isNullWord text = false ∧ boolOf? text = none := by
  obtain ⟨c, rest, rfl, hc, -⟩ := hcs.begins
  have hword : ∀ word : String, word.toList.all (fun d => !d.isDigit) = true → text ≠ word := by
    rintro word hword rfl
    have hnone := List.all_eq_true.1 hword c (by simp [htext])
    simp [hc] at hnone
  exact ⟨hword "" (by decide), by simp [isNullWord, hword], by simp [boolOf?, hword]⟩

/-- A decimal is read as a finite float, as the words for other floats begin with a point. -/
theorem floatOf?_eq (hcs : IsDecimalText cs) (negative : Bool) :
    floatOf? ((if negative then ['-'] else []) ++ cs) = finiteOf? negative cs := by
  have hhead : ((if negative then ['-'] else []) ++ cs).head? = some '-' ↔ negative = true := by
    cases negative with
    | true => simp
    | false => simpa using hcs.head_ne (by decide : '-'.isDigit = false)
  have hwords : ∀ (others : List Char) (words : List String), others.head? ≠ some '.' →
      (∀ word ∈ words, word.toList.head? = some '.') →
        words.contains (String.ofList others) = false := by
    intro others words hothers hwords
    rw [Bool.eq_false_iff]
    exact fun hmem => hothers (by simpa using hwords _ (List.contains_iff_mem.1 hmem))
  have hpoint := hcs.head_ne (by decide : '.'.isDigit = false)
  have hsigned : ((if negative then ['-'] else []) ++ cs).head? ≠ some '.' := by
    cases negative with
    | true => simp
    | false => simpa using hpoint
  unfold floatOf? isInfinityWord
  simp only [hcs.drop_sign negative, hhead, hwords _ [".nan", ".NaN", ".NAN"] hsigned (by decide),
    hwords _ [".inf", ".Inf", ".INF"] hpoint (by decide), Bool.false_eq_true, if_false,
    Bool.decide_eq_true]

/-- The text means the float that it is a decimal of. -/
theorem plainMeaning_eq (hcs : IsDecimalText cs) {negative : Bool} {x : Float}
    (hx : finiteOf? negative cs = some x) :
    plainMeaning (String.ofList ((if negative then ['-'] else []) ++ cs)) = .number (.float x) := by
  obtain ⟨hempty, hnull, hbool⟩ := hcs.no_word negative String.toList_ofList
  unfold plainMeaning
  simp only [String.toList_ofList, hempty, hnull, hbool, hcs.intOf?_eq_none, hcs.not_isZeroPadded,
    hcs.floatOf?_eq, hx, decide_false, Bool.or_false, Bool.false_eq_true,
      if_false, Option.bind_none]

end IsDecimalText

section Floats

open StackBridge.Decimal (isNegative magnitude magnitude_describes floatOfBits
  floatOfBits_unsignedBits)

variable {x : Float}

/-- A finite float is read back from its text. -/
theorem plainMeaning_finite {b : Decimal.Binary} (hfinite : magnitude x = .finite b) :
    plainMeaning (numberText (.float x)) = .number (.float x) := by
  obtain ⟨d, hread, hvalue⟩ := decimalOf?_decimalChars (shortest b)
  obtain ⟨hnearest, hbounded⟩ := Decimal.nearest_eq hfinite hvalue
  have htext : numberText (.float x) = String.ofList
      ((if isNegative x then ['-'] else []) ++ floatLayout.decimalChars (shortest b)) := by
    unfold numberText Layout.render Layout.chars
    simp only [hfinite]
  have hmeant : finiteOf? (isNegative x) (floatLayout.decimalChars (shortest b)) = some x := by
    unfold finiteOf?
    simp only [hread, hnearest, hbounded, Bool.false_eq_true, if_false]
  rw [htext, (isDecimalText_decimalChars _).plainMeaning_eq hmeant]

theorem plainMeaning_zero (hzero : magnitude x = .zero) :
    plainMeaning (numberText (.float x)) = .number (.float x) := by
  have hbits := magnitude_describes x
  rw [hzero] at hbits
  have hx : floatOfBits (isNegative x) 0 = x :=
    (congrArg _ hbits.symm).trans (floatOfBits_unsignedBits x)
  have hbounded : x.isInf = false := Decimal.not_isInf_of_lt (by rw [hbits]; decide)
  have hmeant : finiteOf? (isNegative x) ['0', '.', '0'] = some x := by
    change (if (floatOfBits (isNegative x) 0).isInf then none
      else some (floatOfBits (isNegative x) 0)) = some x
    rw [hx, hbounded]
    rfl
  have htext : numberText (.float x) = String.ofList
      ((if isNegative x then ['-'] else []) ++ ['0', '.', '0']) := by
    unfold numberText Layout.render Layout.chars
    simp only [hzero]
  have hdecimal : IsDecimalText ['0', '.', '0'] :=
    ⟨⟨'0', _, rfl, by decide, by simp [isNumberChar]⟩, '.', by simp, by decide⟩
  rw [htext, hdecimal.plainMeaning_eq hmeant]

theorem plainMeaning_infinite (hinfinite : magnitude x = .infinite) :
    plainMeaning (numberText (.float x)) = .number (.float x) := by
  have hbits := magnitude_describes x
  rw [hinfinite] at hbits
  have hx : infinity (isNegative x) = x :=
    (congrArg _ hbits.symm).trans (floatOfBits_unsignedBits x)
  have htext : numberText (.float x) = String.ofList
      ((if isNegative x then ['-'] else []) ++ floatLayout.infinity.toList) := by
    unfold numberText Layout.render Layout.chars
    simp only [hinfinite]
  have hmeaning : ∀ negative, plainMeaning (String.ofList
      ((if negative then ['-'] else []) ++ floatLayout.infinity.toList)) =
        .number (.float (infinity negative)) := by
    intro negative
    cases negative <;> rfl
  rw [htext, hmeaning, hx]

theorem plainMeaning_undefined (hundefined : magnitude x = .undefined) :
    plainMeaning (numberText (.float x)) = .number (.float x) := by
  have hbits := magnitude_describes x
  rw [hundefined] at hbits
  have hx : undefinedFloat = x := by
    rw [← Float.ofBits_toBits x, Decimal.toBits_of_lt hbits]
    rfl
  have htext : numberText (.float x) = ".nan" := by
    unfold numberText Layout.render Layout.chars
    simp only [hundefined]
    rfl
  have hmeaning : plainMeaning ".nan" = .number (.float undefinedFloat) := rfl
  rw [htext, hmeaning, hx]

/-- The text of a float is read as the float. -/
theorem plainMeaning_float (x : Float) :
    plainMeaning (numberText (.float x)) = .number (.float x) := by
  cases hmagnitude : magnitude x with
  | zero => exact plainMeaning_zero hmagnitude
  | finite b => exact plainMeaning_finite hmagnitude
  | infinite => exact plainMeaning_infinite hmagnitude
  | undefined => exact plainMeaning_undefined hmagnitude

/-- The text of a number is read as the number. -/
theorem plainMeaning_number (n : Number) : plainMeaning (numberText n) = .number n := by
  cases n with
  | whole n => exact plainMeaning_whole n
  | float x => exact plainMeaning_float x

end Floats

end StackBridge.Yaml
