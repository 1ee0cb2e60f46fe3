/-
The texts of what is no text: numbers, truth values and nothing. All of them can be written plain.
-/
import StackBridge.Proofs.PlainScalars
import StackBridge.Proofs.ScalarMeaning

namespace StackBridge.Yaml

open StackBridge.Decimal (Layout natChars zeros positionalChars scientificChars)

/-- The characters of numbers. -/
def isNumberChar (c : Char) : Bool :=
  c.isDigit || "+-.aefin".toList.contains c

theorem isNumberChar_of_isDigit {c : Char} (hc : c.isDigit = true) : isNumberChar c = true := by
  simp [isNumberChar, hc]

theorem isNumberChar_cases {c : Char} (hc : isNumberChar c = true) :
    isPrintable c = true ∧ isSpace c = false ∧ isBreak c = false ∧ c ≠ ':' ∧ c ≠ '#' := by
  rw [isNumberChar, Bool.or_eq_true] at hc
  rcases hc with hdigit | hmark
  · have hbounds : 48 ≤ c.toNat ∧ c.toNat ≤ 57 := by
      simpa [Char.isDigit, Char.le_def, UInt32.le_iff_toNat_le] using hdigit
    have hother : ∀ d : Char, d.toNat < 48 ∨ 57 < d.toNat → c ≠ d := by
      rintro d hd rfl
      omega
    refine ⟨?_, ?_, ?_, hother ':' (by decide), hother '#' (by decide)⟩
    · simp [isPrintable]
      omega
    · simp [isSpace, hother ' ' (by decide)]
    · simp [isBreak, hother '\r' (by decide), hother '\n' (by decide)]
      omega
  · have hall : "+-.aefin".toList.all (fun c => isPrintable c && !isSpace c && !isBreak c &&
        c != ':' && c != '#') = true := by decide
    have hc := List.all_eq_true.1 hall c (by simpa using hmark)
    simpa [and_assoc] using hc

/-- Characters of numbers can be written plain if no mark stands at their front. -/
theorem allowsPlain_of_number {cs : List Char} (hcs : ∀ c ∈ cs, isNumberChar c = true)
    (hstart : startsWithMark cs = false) : allowsPlain cs = true := by
  have hprintable : cs.any (fun c => !isPrintable c) = false :=
    List.any_eq_false.2 fun c hc => by simp [(isNumberChar_cases (hcs c hc)).1]
  have hbreak : cs.any isBreak = false :=
    List.any_eq_false.2 fun c hc => by simp [(isNumberChar_cases (hcs c hc)).2.2.1]
  have hend : ∀ c : Option Char, (∀ d, c = some d → d ∈ cs) →
      (c.any fun c => isSpace c || isBreak c) = false := by
    intro c hc
    cases c with
    | none => rfl
    | some d =>
        have hd := isNumberChar_cases (hcs d (hc d rfl))
        simp [hd.2.1, hd.2.2.1]
  have hpair : hasPair isSpace isBreak cs = false := by
    clear hprintable hend hbreak hstart
    induction cs with
    | nil => rfl
    | cons c rest ih =>
        have hrest := ih fun d hd => hcs d (List.mem_cons_of_mem c hd)
        have hc := isNumberChar_cases (hcs c List.mem_cons_self)
        cases rest with
        | nil => rfl
        | cons d rest => simp [hasPair, hc.2.1, hrest]
  have hinner : hasInnerMark cs = false := by
    clear hprintable hend hbreak hpair hstart
    induction cs with
    | nil => rfl
    | cons c rest ih =>
        have hrest := ih fun d hd => hcs d (List.mem_cons_of_mem c hd)
        cases rest with
        | nil => rfl
        | cons d rest =>
            have hd := isNumberChar_cases (hcs d (by simp))
            simp [hasInnerMark, hd.2.2.2.1, hd.2.2.2.2, hrest]
  unfold allowsPlain needsEscapes
  simp only [hend cs.head? fun d hd => List.mem_of_head? hd,
    hend cs.getLast? fun d hd => List.mem_of_getLast? hd, hprintable, hpair, hbreak, hstart, hinner]
  rfl

theorem not_startsWithMark_of_isDigit {c : Char} (hc : c.isDigit = true) (rest : List Char) :
    startsWithMark (c :: rest) = false ∧ startsWithMark ('-' :: c :: rest) = false := by
  have hother : ∀ d : Char, d.isDigit = false → c ≠ d := fun d hd => ne_of_isDigit hc hd
  have hword : endsWordAt (some c) = false := by
    have hchar := isNumberChar_cases (isNumberChar_of_isDigit hc)
    simp [endsWordAt, endsWord, endOr, isBlank_of_isPrintable hchar.1, hchar.2.1, hchar.2.2.1,
      hother '\x00' (by decide)]
  constructor
  · unfold startsWithMark
    split
    · rename_i hnil
      cases hnil
    · rename_i hdash
      exact absurd (List.cons.inj hdash).1 (hother '-' (by decide))
    · rename_i hdot
      exact absurd (List.cons.inj hdot).1 (hother '.' (by decide))
    · rename_i hsplit
      obtain ⟨rfl, rfl⟩ := List.cons.inj hsplit
      simp [hother]
  · unfold startsWithMark
    split
    · rename_i hnil
      cases hnil
    · rename_i hdash
      exact absurd (List.cons.inj (List.cons.inj hdash).2).1 (hother '-' (by decide))
    · rename_i hdot
      exact absurd (List.cons.inj hdot).1 (by decide)
    · rename_i hsplit
      obtain ⟨rfl, rfl⟩ := List.cons.inj hsplit
      simp [hword]

/-- Characters of numbers of which a digit is the first. -/
def BeginsWithDigit (cs : List Char) : Prop :=
  ∃ c rest, cs = c :: rest ∧ c.isDigit = true ∧ ∀ d ∈ rest, isNumberChar d = true

theorem BeginsWithDigit.append {cs others : List Char} (hcs : BeginsWithDigit cs)
    (hothers : ∀ d ∈ others, isNumberChar d = true) : BeginsWithDigit (cs ++ others) := by
  obtain ⟨c, rest, rfl, hc, hrest⟩ := hcs
  exact ⟨c, rest ++ others, rfl, hc, List.forall_mem_append.2 ⟨hrest, hothers⟩⟩

/-- A minus may precede the digit. -/
theorem BeginsWithDigit.allowsPlain {cs : List Char} (hcs : BeginsWithDigit cs) (negative : Bool) :
    (if negative then ['-'] else []) ++ cs ≠ [] ∧
      allowsPlain ((if negative then ['-'] else []) ++ cs) = true := by
  obtain ⟨c, rest, rfl, hc, hrest⟩ := hcs
  have hstart := not_startsWithMark_of_isDigit hc rest
  have hchars : ∀ d ∈ c :: rest, isNumberChar d = true :=
    List.forall_mem_cons.2 ⟨isNumberChar_of_isDigit hc, hrest⟩
  cases negative with
  | false => exact ⟨List.cons_ne_nil _ _, allowsPlain_of_number hchars hstart.1⟩
  | true =>
      exact ⟨List.cons_ne_nil _ _,
        allowsPlain_of_number (List.forall_mem_cons.2 ⟨by decide, hchars⟩) hstart.2⟩

theorem isNumberChar_of_mem_natChars {n : Nat} {c : Char} (hc : c ∈ natChars n) :
    isNumberChar c = true :=
  isNumberChar_of_isDigit (isDigit_of_mem_natChars hc)

theorem beginsWithDigit_natChars (n : Nat) : BeginsWithDigit (natChars n) := by
  have hchars : ∀ c ∈ natChars n, c.isDigit = true := fun c hc => isDigit_of_mem_natChars hc
  have hsome : natChars n ≠ [] := Nat.toDigits_ne_nil
  obtain ⟨c, rest, hdigits⟩ := List.exists_cons_of_ne_nil hsome
  rw [hdigits] at hchars ⊢
  obtain ⟨hc, hrest⟩ := List.forall_mem_cons.1 hchars
  exact ⟨c, rest, rfl, hc, fun d hd => isNumberChar_of_isDigit (hrest d hd)⟩

theorem allowsPlain_whole (n : Int) :
    (toString n).toList ≠ [] ∧ allowsPlain (toString n).toList = true := by
  have hplain := (beginsWithDigit_natChars n.natAbs).allowsPlain (decide (n < 0))
  rw [toList_toString]
  simpa [natChars] using hplain

theorem isDigit_of_mem_zeros {count : Nat} {c : Char} (hc : c ∈ zeros count) :
    c.isDigit = true := by
  obtain ⟨-, rfl⟩ := List.mem_replicate.1 hc
  decide

theorem isNumberChar_of_mem_zeros {count : Nat} {c : Char} (hc : c ∈ zeros count) :
    isNumberChar c = true :=
  isNumberChar_of_isDigit (isDigit_of_mem_zeros hc)

theorem beginsWithDigit_take {cs : List Char} (hcs : BeginsWithDigit cs) {count : Nat}
    (hcount : count ≠ 0) : BeginsWithDigit (cs.take count) := by
  obtain ⟨c, rest, rfl, hc, hrest⟩ := hcs
  obtain ⟨more, rfl⟩ : ∃ more, count = more + 1 := ⟨count - 1, by omega⟩
  exact ⟨c, rest.take more, rfl, hc, fun d hd => hrest d (List.mem_of_mem_take hd)⟩

theorem isNumberChar_of_mem {cs : List Char} (hcs : BeginsWithDigit cs) {c : Char} (hc : c ∈ cs) :
    isNumberChar c = true := by
  obtain ⟨d, rest, rfl, hd, hrest⟩ := hcs
  rcases List.mem_cons.1 hc with rfl | hc
  · exact isNumberChar_of_isDigit hd
  · exact hrest c hc

theorem beginsWithDigit_positionalChars {cs : List Char} (hcs : BeginsWithDigit cs) (point : Int) :
    BeginsWithDigit (positionalChars cs point) := by
  unfold positionalChars
  split
  · refine ⟨'0', '.' :: (zeros (-point).toNat ++ cs), by simp, by decide, ?_⟩
    refine List.forall_mem_cons.2 ⟨by decide, List.forall_mem_append.2 ⟨?_, ?_⟩⟩
    · exact fun d hd => isNumberChar_of_mem_zeros hd
    · exact fun d hd => isNumberChar_of_mem hcs hd
  · split
    · exact (hcs.append fun d hd => isNumberChar_of_mem_zeros hd).append (by simp [isNumberChar])
    · refine (beginsWithDigit_take hcs (by omega)).append ?_
      exact List.forall_mem_cons.2
        ⟨by decide, fun d hd => isNumberChar_of_mem hcs (List.mem_of_mem_drop hd)⟩

theorem beginsWithDigit_scientificChars {cs : List Char} (hcs : BeginsWithDigit cs)
    (plusSign : Bool) (point : Int) : BeginsWithDigit (scientificChars plusSign cs point) := by
  unfold scientificChars
  refine ((((beginsWithDigit_take hcs (by decide)).append ?_).append ?_).append ?_).append
    fun d hd => isNumberChar_of_mem_natChars hd
  · split
    · simp
    · exact List.forall_mem_cons.2
        ⟨by decide, fun d hd => isNumberChar_of_mem hcs (List.mem_of_mem_drop hd)⟩
  · simp [isNumberChar]
  · split
    · simp [isNumberChar]
    · split <;> simp [isNumberChar]

/-- The text of a float can stand as it is. -/
theorem allowsPlain_float (x : Float) : (numberText (.float x)).toList ≠ [] ∧
    allowsPlain (numberText (.float x)).toList = true := by
  change (String.ofList (floatLayout.chars x)).toList ≠ [] ∧
    allowsPlain (String.ofList (floatLayout.chars x)).toList = true
  rw [String.toList_ofList]
  unfold Layout.chars
  cases Decimal.magnitude x with
  | zero =>
      have hzero : BeginsWithDigit ['0', '.', '0'] :=
        ⟨'0', _, rfl, by decide, by simp [isNumberChar]⟩
      exact hzero.allowsPlain _
  | finite value =>
      have hdigits := beginsWithDigit_natChars (Decimal.shortest value).digits
      have hdecimal : BeginsWithDigit (floatLayout.decimalChars (Decimal.shortest value)) := by
        unfold Layout.decimalChars
        simp only
        split
        · exact beginsWithDigit_positionalChars hdigits _
        · exact beginsWithDigit_scientificChars hdigits _ _
      exact hdecimal.allowsPlain _
  | infinite => cases Decimal.isNegative x <;> decide
  | undefined =>
      change ".nan".toList ≠ [] ∧ allowsPlain ".nan".toList = true
      decide

/-- The text of a number can be written plain. -/
theorem allowsPlain_numberText (n : Number) :
    (numberText n).toList ≠ [] ∧ allowsPlain (numberText n).toList = true := by
  cases n with
  | whole n => exact allowsPlain_whole n.val
  | float x => exact allowsPlain_float x

end StackBridge.Yaml
