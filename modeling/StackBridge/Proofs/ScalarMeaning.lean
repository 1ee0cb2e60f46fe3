/-
What the scalars of a written value mean when they are read. A text is only written plain if it
reads as a text, and the digits of a whole number lead back to the number.
-/
import StackBridge.Proofs.Digits
import StackBridge.Yaml.Writing

namespace StackBridge.Yaml

theorem text_of_meaningOfInt? {n : Int} {s : String} : meaningOfInt? n ≠ some (.text s) := by
  unfold meaningOfInt?
  split
  · simp
  · split
    · simp
    · split <;> simp

/-- A plain scalar that is a text is the text that it shows. -/
theorem text_of_plainMeaning {text s : String} (hmeaning : plainMeaning text = .text s) :
    s = text := by
  unfold plainMeaning at hmeaning
  simp only at hmeaning
  split at hmeaning
  · cases hmeaning
  · split at hmeaning
    · cases hmeaning
    · split at hmeaning
      · rename_i meaning hint
        obtain ⟨n, -, hn⟩ := Option.bind_eq_some_iff.1 hint
        exact absurd (hmeaning ▸ hn) text_of_meaningOfInt?
      · split at hmeaning
        · exact (Meaning.text.inj hmeaning).symm
        · split at hmeaning
          · cases hmeaning
          · exact (Meaning.text.inj hmeaning).symm

theorem plainMeaning_of_readsAsText {text : String} (hreads : readsAsText text = true) :
    plainMeaning text = .text text := by
  unfold readsAsText at hreads
  rw [Bool.and_eq_true] at hreads
  have hmeaning := hreads.2
  split at hmeaning
  · rename_i s hs
    rw [hs, text_of_plainMeaning hs]
  · cases hmeaning

/-- A text is written plain only if it reads as a text. -/
theorem readsAsText_of_styleOf {text : String} (hstyle : styleOf text = .plain) :
    readsAsText text = true ∧ allowsPlain text.toList = true := by
  unfold styleOf at hstyle
  simp only at hstyle
  split at hstyle
  · split at hstyle <;> cases hstyle
  · split at hstyle
    · rename_i hplain
      exact Bool.and_eq_true_iff.1 hplain
    · unfold quoteStyle at hstyle
      split at hstyle <;> cases hstyle

/-- A text means itself in the style that it is written in. -/
theorem scalarMeaning_styleOf (s : String) : scalarMeaning none s (styleOf s) = .ok (.text s) := by
  unfold scalarMeaning
  by_cases hstyle : styleOf s = .plain
  · simp only [hstyle, if_true]
    rw [plainMeaning_of_readsAsText (readsAsText_of_styleOf hstyle).1]
    rfl
  · simp only [hstyle, if_false]
    rfl

/-- A text that stands for nothing is not written plain. -/
theorem not_nothing_of_styleOf {text : String} (hstyle : styleOf text = .plain) :
    ¬ (text = "" || isNullWord text) = true := by
  have hmeaning := plainMeaning_of_readsAsText (readsAsText_of_styleOf hstyle).1
  intro hnothing
  unfold plainMeaning at hmeaning
  rw [if_pos hnothing] at hmeaning
  cases hmeaning

theorem isZeroPadded_toDigits (n : Nat) : isZeroPadded (Nat.toDigits 10 n) = false := by
  obtain ⟨c, rest, hdigits, hdigit, hzero⟩ := natChars_eq_cons n
  rw [Decimal.natChars] at hdigits
  have hminus : c ≠ '-' := ne_of_isDigit hdigit (by decide)
  have hplus : c ≠ '+' := ne_of_isDigit hdigit (by decide)
  by_cases hn : n = 0
  · subst hn
    decide
  · have hlead : c ≠ '0' := fun hc => hn (hzero hc)
    simp [hdigits, isZeroPadded, startsSigned, isSign, hminus, hplus, hlead]

theorem hexValue?_of_isDigit {c : Char} (hdigit : c.isDigit = true) :
    hexValue? c = some (c.toNat - 48) := by
  have hbounds : '0' ≤ c ∧ c ≤ '9' := by
    simpa [Char.isDigit, Char.le_def] using hdigit
  unfold hexValue?
  rw [if_pos (by simp [hbounds])]

/-- Digits behind a number that was read so far, by a step that takes one more. -/
theorem foldlM_digits {step : Nat → Char → Option Nat}
    (hstep : ∀ value c, c.isDigit = true → step value c = some (10 * value + (c.toNat - 48)))
    {cs : List Char} (hdigits : ∀ c ∈ cs, c.isDigit = true) (start : Nat) :
    cs.foldlM step start = some (Nat.ofDigitChars 10 cs start) := by
  induction cs generalizing start with
  | nil => rfl
  | cons c rest ih =>
      rw [List.foldlM_cons, hstep start c (hdigits c List.mem_cons_self), Nat.ofDigitChars_cons]
      exact ih (fun d hd => hdigits d (List.mem_cons_of_mem c hd)) _

theorem digitsIn_of_digits {cs : List Char} (hsome : cs ≠ [])
    (hdigits : ∀ c ∈ cs, c.isDigit = true) : digitsIn 10 cs = some (Nat.ofDigitChars 10 cs 0) := by
  unfold digitsIn
  rw [if_neg (by simpa using hsome), foldlM_digits ?step hdigits]
  intro value c hdigit
  have hbounds : 48 ≤ c.toNat ∧ c.toNat ≤ 57 := by
    simpa [Char.isDigit, Char.le_def, UInt32.le_iff_toNat_le] using hdigit
  simp only [hexValue?_of_isDigit hdigit]
  rw [if_pos (by omega), Nat.mul_comm]

theorem digitsIn_toDigits (n : Nat) : digitsIn 10 (Nat.toDigits 10 n) = some n := by
  rw [digitsIn_of_digits Nat.toDigits_ne_nil fun c hc => isDigit_of_mem_natChars hc,
    Nat.ofDigitChars_toDigits (by decide) (by decide)]

theorem magnitudeOf?_toDigits (n : Nat) : magnitudeOf? (Nat.toDigits 10 n) = some n := by
  have hmarked : markedDigits? (Nat.toDigits 10 n) = none := by
    have hletter : ∀ c ∈ (Nat.toDigits 10 n)[1]?, c.isDigit = true :=
      fun c hc => isDigit_of_mem_natChars (List.mem_of_getElem? hc)
    unfold markedDigits?
    split
    case h_4 => rfl
    all_goals
      rename_i hmark
      exact absurd (hletter _ (by rw [hmark]; rfl)) (by decide)
  unfold magnitudeOf?
  rw [hmarked, isZeroPadded_toDigits]
  exact digitsIn_toDigits n

/-- The characters of a whole number: a minus if it is negative, and decimal digits. -/
theorem toList_toString (n : Int) : (toString n).toList =
    (if n < 0 then ['-'] else []) ++ Nat.toDigits 10 n.natAbs := by
  cases n with
  | ofNat n =>
      rw [if_neg (by simp)]
      exact congrArg String.toList Nat.repr_eq_ofList_toDigits |>.trans String.toList_ofList
  | negSucc n =>
      rw [if_pos (Int.negSucc_lt_zero n)]
      change ("-" ++ Nat.repr (n + 1)).toList = _
      rw [String.toList_append, Nat.repr_eq_ofList_toDigits, String.toList_ofList,
        Int.natAbs_negSucc, String.toList_ofList]

theorem mem_toString {n : Int} {c : Char} (hc : c ∈ (toString n).toList) :
    c = '-' ∨ c.isDigit = true := by
  rw [toList_toString, List.mem_append] at hc
  rcases hc with hsign | hdigit
  · split at hsign
    · exact Or.inl (by simpa using hsign)
    · cases hsign
  · exact Or.inr (isDigit_of_mem_natChars hdigit)

/-- A whole number is read back from its text. No digit is a sign. -/
theorem intOf?_toString (n : Int) : intOf? (toString n).toList = some n := by
  rw [toList_toString]
  by_cases hn : n < 0
  · rw [if_pos hn]
    have hvalue : -(n.natAbs : Int) = n := by omega
    simp only [List.singleton_append, intOf?, magnitudeOf?_toDigits]
    exact congrArg some hvalue
  · rw [if_neg hn, List.nil_append]
    have hvalue : (magnitudeOf? (Nat.toDigits 10 n.natAbs)).map Int.ofNat = some n := by
      rw [magnitudeOf?_toDigits, Option.map_some, Option.some.injEq]
      exact Int.natAbs_of_nonneg (by omega)
    have hdigits : ∀ c ∈ (Nat.toDigits 10 n.natAbs).head?, c.isDigit = true :=
      fun c hc => isDigit_of_mem_natChars (List.mem_of_head? hc)
    unfold intOf?
    split
    case h_3 => exact hvalue
    all_goals
      rename_i hsign
      exact absurd (hdigits _ (by rw [hsign]; rfl)) (by decide)

/-- What looks like a whole number is none of the words with a meaning. -/
theorem no_word {text : String} (htext : ∀ c ∈ text.toList, c = '-' ∨ c.isDigit = true) :
    isNullWord text = false ∧ boolOf? text = none := by
  have hword : ∀ word : String, word.toList.any (fun c => c != '-' && !c.isDigit) = true →
      text ≠ word := by
    rintro word hword rfl
    obtain ⟨c, hc, hother⟩ := List.any_eq_true.1 hword
    rcases htext c hc with rfl | hdigit
    · simp at hother
    · simp [hdigit] at hother
  constructor
  · simp [isNullWord, hword]
  · simp [boolOf?, hword]

/-- A whole number reads as itself. -/
theorem plainMeaning_whole (n : Whole) :
    plainMeaning (numberText (.whole n)) = .number (.whole n) := by
  change plainMeaning (toString n.val) = _
  obtain ⟨hnull, hbool⟩ := no_word fun c hc => mem_toString (n := n.val) hc
  have hempty : toString n.val ≠ "" := by
    intro hempty
    have hchars := toList_toString n.val
    rw [hempty] at hchars
    exact absurd (List.append_eq_nil_iff.1 hchars.symm).2 Nat.toDigits_ne_nil
  have hnumber : meaningOfInt? n.val = some (.number (.whole n)) := by
    unfold meaningOfInt? Whole.ofInt?
    rw [dif_pos n.fits]
  unfold plainMeaning
  simp only [intOf?_toString, Option.bind_some, hnumber, hnull, hbool, hempty, decide_false,
    Bool.or_false, Bool.false_eq_true, if_false]

end StackBridge.Yaml
