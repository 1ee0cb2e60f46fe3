/-
Quoted scalars as they are written. Between double quotes each character that could be taken for
something else has an escape, and no line ends; between single quotes only the quote itself is
doubled, and a break is followed by an indentation that does not count.
-/
import StackBridge.Proofs.PlainNumbers

namespace StackBridge.Yaml

theorem simpleEscape?_of_escapeLetter? {c letter : Char} (hletter : escapeLetter? c = some letter) :
    Lexer.simpleEscape? letter = some c ∧ isBreak letter = false ∧ isPrintable letter = true := by
  unfold escapeLetter? at hletter
  have hchar : ∀ code, c.toNat = code → c = Char.ofNat code := by
    rintro code rfl
    exact (Char.ofNat_toNat c).symm
  split at hletter
  case h_15 => cases hletter
  all_goals
    rename_i hcode
    cases hletter
    rw [hchar _ hcode]
    decide

/-- A character without a letter ends no line and is no mark of the quotes. -/
theorem ne_of_escapeLetter? {c : Char} (hletter : escapeLetter? c = none) :
    isBreak c = false ∧ c ≠ '"' ∧ c ≠ '\\' := by
  have hother : ∀ code, (escapeLetter? (Char.ofNat code)).isSome = true → c ≠ Char.ofNat code := by
    rintro code hsome rfl
    rw [hletter] at hsome
    cases hsome
  have hcode : ∀ code, c.toNat = code → c = Char.ofNat code := by
    rintro code rfl
    exact (Char.ofNat_toNat c).symm
  refine ⟨?_, hother 0x22 (by decide), hother 0x5c (by decide)⟩
  have hreturn : c ≠ '\r' := hother 0x0d (by decide)
  have hfeed : c ≠ '\n' := hother 0x0a (by decide)
  have hnel : c.toNat ≠ 0x85 := fun h => hother 0x85 (by decide) (hcode _ h)
  have hline : c.toNat ≠ 0x2028 := fun h => hother 0x2028 (by decide) (hcode _ h)
  have hparagraph : c.toNat ≠ 0x2029 := fun h => hother 0x2029 (by decide) (hcode _ h)
  simp [isBreak, hreturn, hfeed, hnel, hline, hparagraph]

theorem hexValue?_digitChar {d : Nat} (hd : d < 16) :
    hexValue? (Nat.digitChar d).toUpper = some d ∧ isBreak (Nat.digitChar d).toUpper = false ∧
      isPrintable (Nat.digitChar d).toUpper = true := by
  have hall : ∀ d < 16, hexValue? (Nat.digitChar d).toUpper = some d ∧
      isBreak (Nat.digitChar d).toUpper = false ∧
      isPrintable (Nat.digitChar d).toUpper = true := by decide
  exact hall d hd

theorem hexNumber?_append {front : List Char} {value d : Nat}
    (hfront : Lexer.hexNumber? front = some value) (hd : d < 16) :
    Lexer.hexNumber? (front ++ [(Nat.digitChar d).toUpper]) = some (value * 16 + d) := by
  unfold Lexer.hexNumber? at hfront ⊢
  rw [List.foldlM_append, hfront]
  simp [(hexValue?_digitChar hd).1]

theorem hexNumber?_zeros (count : Nat) :
    Lexer.hexNumber? (List.replicate count '0') = some 0 := by
  induction count with
  | zero => rfl
  | succ count ih =>
      rw [List.replicate_succ']
      exact hexNumber?_append ih (show 0 < 16 by decide)

/-- The digits of a number lead back to the number. -/
theorem hexNumber?_upperHex (width n : Nat) : Lexer.hexNumber? (upperHex width n) = some n := by
  unfold upperHex
  simp only
  generalize width - ((Nat.toDigits 16 n).map Char.toUpper).length = padding
  induction n using Nat.strongRecOn with
  | ind n ih =>
      rw [Nat.toDigits_eq_if (by decide)]
      split
      · rename_i hsmall
        have hdigit := hexNumber?_append (hexNumber?_zeros padding) hsmall
        simpa using hdigit
      · rename_i hlarge
        have hdigit := hexNumber?_append (ih (n / 16) (by omega)) (Nat.mod_lt n (by decide))
        rw [List.map_append, ← List.append_assoc]
        rw [show n / 16 * 16 + n % 16 = n by omega] at hdigit
        exact hdigit

theorem length_upperHex {width n : Nat} (hwidth : 0 < width) (hn : n < Nat.pow 16 width) :
    (upperHex width n).length = width := by
  have hlength := (Nat.length_toDigits_le_iff (b := 16) (by decide) hwidth).2 hn
  simp only [upperHex, List.length_append, List.length_replicate, List.length_map]
  omega

theorem upperHex_line {width n : Nat} {c : Char} (hc : c ∈ upperHex width n) :
    isBreak c = false ∧ isPrintable c = true := by
  have hdigits : ∀ n : Nat, ∀ c ∈ (Nat.toDigits 16 n).map Char.toUpper,
      isBreak c = false ∧ isPrintable c = true := by
    intro n
    induction n using Nat.strongRecOn with
    | ind n ih =>
        rw [Nat.toDigits_eq_if (by decide)]
        split
        · rename_i hsmall
          simpa using (hexValue?_digitChar hsmall).2
        · rename_i hlarge
          rw [List.map_append]
          refine List.forall_mem_append.2 ⟨ih (n / 16) (by omega), ?_⟩
          simpa using (hexValue?_digitChar (Nat.mod_lt n (by decide))).2
  unfold upperHex at hc
  rcases List.mem_append.1 hc with hzero | hdigit
  · obtain ⟨-, rfl⟩ := List.mem_replicate.1 hzero
    decide
  · exact hdigits n c hdigit

/-- The number of bytes of a character grows with its code. -/
theorem le_utf8Size (c : Char) :
    (0x7f < c.toNat → 2 ≤ c.utf8Size) ∧ (0xffff < c.toNat → 4 ≤ c.utf8Size) := by
  unfold Char.utf8Size
  simp only [UInt32.le_iff_toNat_le, UInt32.toNat_ofNatLT]
  have hcode : c.val.toNat = c.toNat := rfl
  rw [hcode]
  split
  · omega
  · split
    · omega
    · split
      · omega
      · omega

/-- A text has no more characters than a number of times its bytes, if each of its characters is
written with no more than that for each byte. -/
theorem length_flatMap_le {charText : Char → List Char} {factor : Nat}
    (hchars : ∀ c, (charText c).length ≤ factor * c.utf8Size) (cs : List Char) :
    (cs.flatMap charText).length ≤ factor * (String.ofList cs).utf8ByteSize := by
  induction cs with
  | nil => exact Nat.zero_le _
  | cons c rest ih =>
      have hc := hchars c
      have hsplit : String.ofList (c :: rest) = String.singleton c ++ String.ofList rest := by
        rw [← List.singleton_append, String.ofList_append]
        rfl
      rw [hsplit, String.utf8ByteSize_append, String.utf8ByteSize_singleton, List.flatMap_cons,
        List.length_append, Nat.mul_add]
      omega

namespace Lexer

variable {start mark : Mark} {rest : List Char} {c : Char}

/-- A numeric escape of a character. -/
theorem lexes_escape_hex {letter : Char} {count : Nat} (hletter : escapeLength? letter = some count)
    (hsimple : simpleEscape? letter = none) (hbreak : isBreak letter = false)
    (hcount : 0 < count) (hc : c.toNat < Nat.pow 16 count) :
    (escape start).Lexes ⟨'\\' :: letter :: (upperHex count c.toNat ++ rest), mark⟩ c
      ⟨rest, mark.over ('\\' :: letter :: upperHex count c.toNat)⟩ := by
  have hlength := length_upperHex hcount hc
  have hvalid : ¬ ((0xd800 ≤ c.toNat && c.toNat ≤ 0xdfff) || 0x10ffff < c.toNat) = true := by
    have hc : c.toNat < 0xd800 ∨ 0xdfff < c.toNat ∧ c.toNat < 0x110000 := c.valid
    simp only [Bool.or_eq_true, Bool.and_eq_true, decide_eq_true_eq]
    omega
  unfold escape
  refine (lexes_peek _ _).bind ?_
  simp only [Cursor.at?, List.drop_succ_cons, List.drop_zero, List.head?_cons,
    hsimple, hletter]
  have hmark : ∀ d ∈ ['\\', letter], isBreak d = false := by
    simp only [List.mem_cons, List.not_mem_nil, or_false, forall_eq_or_imp, forall_eq]
    exact ⟨by decide, hbreak⟩
  refine (lexes_advanceBy ['\\', letter] hmark (upperHex count c.toNat ++ rest) mark).bind
    ((lexes_get _).bind ?_)
  have htake : (upperHex count c.toNat ++ rest).take count = upperHex count c.toNat := by
    rw [List.take_append_of_le_length (by omega), List.take_of_length_le (by omega)]
  simp only [htake, hexNumber?_upperHex, hlength, Nat.lt_irrefl, if_false, hvalid]
  have hdigits := lexes_advanceBy (upperHex count c.toNat)
    (fun d hd => (upperHex_line hd).1) rest (mark.over ['\\', letter])
  rw [hlength] at hdigits
  refine hdigits.bind ?_
  rw [Char.ofNat_toNat]
  exact lexes_pure c _

/-- Between double quotes a character stands for itself or has an escape. -/
theorem escapedChar_cases (c : Char) :
    (escapedChar c = [c] ∧ isPrintable c = true ∧ escapeLetter? c = none) ∨
      ∃ letter others, escapedChar c = '\\' :: letter :: others ∧
        (∀ d ∈ letter :: others, isBreak d = false ∧ isPrintable d = true) ∧
        others.length + 2 ≤ 4 * c.utf8Size ∧
        ∀ start rest mark, (escape start).Lexes ⟨'\\' :: letter :: (others ++ rest), mark⟩ c
          ⟨rest, mark.over ('\\' :: letter :: others)⟩ := by
  have hsize := c.utf8Size_pos
  cases hletter : escapeLetter? c with
  | some letter =>
      obtain ⟨hsimple, hline⟩ := simpleEscape?_of_escapeLetter? hletter
      have hmarks : ∀ d ∈ ['\\', letter], isBreak d = false :=
        List.forall_mem_cons.2 ⟨by decide, by simpa using hline.1⟩
      refine Or.inr ⟨letter, [], by simp only [escapedChar, hletter], by simpa using hline,
        by simp only [List.length_nil]; omega, fun start rest mark => ?_⟩
      unfold escape
      refine (lexes_peek _ _).bind ?_
      simp only [Cursor.at?, List.drop_succ_cons, List.drop_zero, List.head?_cons, hsimple]
      exact (lexes_advanceBy ['\\', letter] hmarks rest mark).bind (lexes_pure c _)
  | none =>
      by_cases hprintable : isPrintable c = true
      · refine Or.inl ⟨?_, hprintable, rfl⟩
        simp only [escapedChar, hletter, hprintable, if_true]
      · refine Or.inr ?_
        have hhex : ∀ (letter : Char) (count : Nat), escapeLength? letter = some count →
            simpleEscape? letter = none → isBreak letter = false ∧ isPrintable letter = true →
              0 < count →
            c.toNat < 16 ^ count → count + 2 ≤ 4 * c.utf8Size →
            escapedChar c = '\\' :: letter :: upperHex count c.toNat →
            ∃ letter others, escapedChar c = '\\' :: letter :: others ∧
              (∀ d ∈ letter :: others, isBreak d = false ∧ isPrintable d = true) ∧
              others.length + 2 ≤ 4 * c.utf8Size ∧
              ∀ start rest mark, (escape start).Lexes ⟨'\\' :: letter :: (others ++ rest), mark⟩ c
                ⟨rest, mark.over ('\\' :: letter :: others)⟩ := by
          intro letter count hlength hsimple hline hcount hc hfew hchars
          refine ⟨letter, _, hchars, ?_, ?_, fun start rest mark => ?_⟩
          · exact List.forall_mem_cons.2 ⟨hline, fun d hd => upperHex_line hd⟩
          · rw [length_upperHex hcount hc]
            exact hfew
          · exact lexes_escape_hex hlength hsimple hline.1 hcount hc
        have hbound : c.toNat < 0xd800 ∨ 0xdfff < c.toNat ∧ c.toNat < 0x110000 := c.valid
        have hwide := le_utf8Size c
        by_cases hbyte : c.toNat ≤ 0xff
        · refine hhex 'x' 2 rfl rfl (by decide) (by decide) (by omega) (by omega) ?_
          simp only [escapedChar, hletter, hprintable, hbyte, if_true]
          rfl
        · by_cases hshort : c.toNat ≤ 0xffff
          · refine hhex 'u' 4 rfl rfl (by decide) (by decide) (by omega) (by omega) ?_
            simp only [escapedChar, hletter, hprintable, hbyte, hshort, if_true, if_false]
            rfl
          · refine hhex 'U' 8 rfl rfl (by decide) (by decide) (by omega) (by omega) ?_
            simp only [escapedChar, hletter, hprintable, hbyte, hshort, if_false]
            rfl

/-- What stands for a character between double quotes ends no line and is not much longer. It begins
a word unless the character is a space. -/
theorem escapedChar_line (c : Char) :
    (∀ d ∈ escapedChar c, isBreak d = false ∧ isPrintable d = true) ∧ 0 < (escapedChar c).length ∧
      (escapedChar c).length ≤ 4 * c.utf8Size ∧
      (c ≠ ' ' → ∀ rest, StartsWord (escapedChar c ++ rest)) := by
  have hsize := c.utf8Size_pos
  rcases escapedChar_cases c with ⟨hchars, hprintable, hletter⟩ | ⟨letter, others, hchars, hrest⟩
  · have hbreak := (ne_of_escapeLetter? hletter).1
    rw [hchars]
    refine ⟨by simpa using ⟨hbreak, hprintable⟩, by simp,
      by simp only [List.length_singleton]; omega,
      fun hspace rest => ?_⟩
    have hblank : isBlank c = false := by
      simpa [isBlank_of_isPrintable hprintable, isSpace] using hspace
    simp [StartsWord, hblank, hbreak]
  · rw [hchars]
    exact ⟨List.forall_mem_cons.2 ⟨by decide, hrest.1⟩, by simp, hrest.2.1,
      fun _ rest => by simp [StartsWord, isBlank, isBreak]⟩

/-- Between double quotes a character is read from its escape, or as it is. -/
theorem quotedWord_escaped (hspace : c ≠ ' ') (steps : Nat) (read : List Char) {after : Cursor}
    {value : List Char × WordEnd}
    (hmore : (quotedWord false start steps (c :: read)).Lexes
      ⟨rest, mark.over (escapedChar c)⟩ value after) :
    (quotedWord false start (steps + 1) read).Lexes ⟨escapedChar c ++ rest, mark⟩ value after := by
  rcases escapedChar_cases c with
    ⟨hchars, hprintable, hletter⟩ | ⟨letter, others, hchars, hline, -, hread⟩
  · obtain ⟨hbreak, hquote, hbackslash⟩ := ne_of_escapeLetter? hletter
    have hblank : isBlank c = false := by
      simpa [isBlank_of_isPrintable hprintable, isSpace] using hspace
    rw [hchars] at hmore ⊢
    unfold quotedWord
    refine (lexes_peek _ _).bind ?_
    simp only [Cursor.at?, List.cons_append, List.drop_zero, List.head?_cons, hblank, hbreak,
      hquote, hbackslash]
    exact (lexes_advance hbreak _ _).bind hmore
  · rw [hchars] at hmore ⊢
    unfold quotedWord
    refine (lexes_peek _ _).bind ?_
    simp only [Cursor.at?, List.cons_append, List.drop_zero, List.head?_cons]
    rw [if_neg (by decide), if_neg (by decide), if_neg (by decide), if_pos (by decide)]
    refine (lexes_peek _ _).bind ?_
    rw [if_neg (by simp [Cursor.at?, (hline letter List.mem_cons_self).1])]
    exact (hread start rest mark).bind hmore

def quoteMark (single : Bool) : Char :=
  if single then '\'' else '"'

/-- Whether the words of a quoted scalar end here, be it for a gap or for the closing quote. -/
def EndsQuotedWord (single : Bool) : List Char → Prop
  | [] => False
  | c :: rest => isBlank c = true ∨ isBreak c = true ∨
      c = quoteMark single ∧ (single = true → rest.head? ≠ some '\'')

variable {single : Bool} {steps : Nat} {read word : List Char} {after : Cursor}

/-- No more of a word is read where a blank, a break or the closing quote stands. -/
theorem quotedWord_at_end (hrest : EndsQuotedWord single rest) (steps : Nat) (read : List Char)
    (mark : Mark) :
    (quotedWord single start steps read).Lexes ⟨rest, mark⟩ (read.reverse, .plain)
      ⟨rest, mark⟩ := by
  cases steps with
  | zero => exact lexes_pure _ _
  | succ steps =>
      cases rest with
      | nil => exact hrest.elim
      | cons c others =>
          unfold quotedWord
          refine (lexes_peek _ _).bind ?_
          simp only [Cursor.at?, List.drop_zero, List.head?_cons]
          by_cases hgap : (isBlank c || isBreak c) = true
          · rw [if_pos hgap]
            exact lexes_pure _ _
          · rw [if_neg hgap]
            rw [Bool.or_eq_true, not_or] at hgap
            obtain ⟨rfl, hother⟩ := (hrest.resolve_left hgap.1).resolve_left hgap.2
            cases single with
            | true =>
                have hnext : ¬ others.head? = some '\'' := hother rfl
                rw [if_pos (by decide)]
                refine (lexes_peek _ _).bind ?_
                simp only [Cursor.at?, List.drop_succ_cons, List.drop_zero, hnext, if_false]
                exact lexes_pure _ _
            | false =>
                rw [if_neg (by decide), if_pos (by decide)]
                exact lexes_pure _ _

/-- A word between double quotes. -/
theorem quotedWord_double {word : List Char} (hword : ∀ c ∈ word, c ≠ ' ')
    (hrest : EndsQuotedWord false rest) (hsteps : word.length ≤ steps) (read : List Char)
    (mark : Mark) :
    (quotedWord false start steps read).Lexes ⟨word.flatMap escapedChar ++ rest, mark⟩
      (read.reverse ++ word, .plain) ⟨rest, mark.over (word.flatMap escapedChar)⟩ := by
  induction word generalizing steps read mark with
  | nil =>
      rw [List.append_nil]
      exact quotedWord_at_end hrest steps read mark
  | cons c others ih =>
      obtain ⟨steps, rfl⟩ : ∃ before, steps = before + 1 := ⟨steps - 1, by
        rw [List.length_cons] at hsteps
        omega⟩
      obtain ⟨hc, hothers⟩ := List.forall_mem_cons.1 hword
      have hmore := ih hothers (Nat.le_of_succ_le_succ hsteps) (c :: read)
        (mark.over (escapedChar c))
      rw [List.reverse_cons, List.append_assoc, ← Mark.over_append] at hmore
      rw [List.flatMap_cons, List.append_assoc]
      exact quotedWord_escaped hc steps read hmore

/-- A character between single quotes: the quote itself is doubled. -/
def doubledQuote (c : Char) : List Char :=
  if c = '\'' then ['\'', '\''] else [c]

/-- A word between single quotes. -/
theorem quotedWord_single {word : List Char}
    (hword : ∀ c ∈ word, isBlank c = false ∧ isBreak c = false)
    (hrest : EndsQuotedWord true rest) (hsteps : word.length ≤ steps) (read : List Char)
    (mark : Mark) :
    (quotedWord true start steps read).Lexes ⟨word.flatMap doubledQuote ++ rest, mark⟩
      (read.reverse ++ word, .plain) ⟨rest, mark.over (word.flatMap doubledQuote)⟩ := by
  induction word generalizing steps read mark with
  | nil =>
      rw [List.append_nil]
      exact quotedWord_at_end hrest steps read mark
  | cons c others ih =>
      obtain ⟨steps, rfl⟩ : ∃ before, steps = before + 1 := ⟨steps - 1, by
        rw [List.length_cons] at hsteps
        omega⟩
      obtain ⟨⟨hblank, hbreak⟩, hothers⟩ := List.forall_mem_cons.1 hword
      have hmore := ih hothers (Nat.le_of_succ_le_succ hsteps) (c :: read)
        (mark.over (doubledQuote c))
      rw [List.reverse_cons, List.append_assoc, ← Mark.over_append] at hmore
      rw [List.flatMap_cons, List.append_assoc]
      by_cases hquote : c = '\''
      · subst hquote
        have hmarks : ∀ d ∈ ['\'', '\''], isBreak d = false := by simp [isBreak]
        unfold quotedWord
        refine (lexes_peek _ _).bind ?_
        simp only [doubledQuote, Cursor.at?, List.cons_append, List.drop_zero, List.head?_cons,
          if_true]
        rw [if_neg (by decide), if_pos (by decide)]
        refine (lexes_peek _ _).bind ?_
        rw [if_pos (by simp [Cursor.at?])]
        exact (lexes_advanceBy ['\'', '\''] hmarks (others.flatMap doubledQuote ++ rest) mark).bind
          hmore
      · have hchars : doubledQuote c = [c] := if_neg hquote
        rw [hchars] at hmore ⊢
        unfold quotedWord
        refine (lexes_peek _ _).bind ?_
        simp only [Cursor.at?, List.cons_append, List.drop_zero, List.head?_cons, hblank, hbreak,
          hquote]
        exact (lexes_advance hbreak _ _).bind hmore

/-- The last word ends at the closing quote. -/
theorem quotedBody_of_last {front : List Char} {behind : Mark}
    (hmarker : (Cursor.mk (front ++ quoteMark single :: rest) mark).atDocumentMarker = false)
    (hword : (quotedWord single start ((front ++ quoteMark single :: rest).length + 1) []).Lexes
      ⟨front ++ quoteMark single :: rest, mark⟩ (word, .plain) ⟨quoteMark single :: rest, behind⟩)
    (steps : Nat) (read : List Char) :
    (quotedBody single start (steps + 1) read).Lexes ⟨front ++ quoteMark single :: rest, mark⟩
      (read ++ word) ⟨quoteMark single :: rest, behind⟩ := by
  have hquote : (Cursor.mk (quoteMark single :: rest) behind).at? 0 =
      some (if single then '\'' else '"') := by
    cases single <;> rfl
  unfold quotedBody
  refine (lexes_get _).bind ?_
  rw [if_neg (by simp [hmarker])]
  refine (lexes_peek _ _).bind ?_
  rw [if_neg (by cases front <;> simp [Cursor.at?])]
  refine (lexes_remaining _).bind (hword.bind ((lexes_peek _ _).bind ?_))
  rw [if_pos hquote]
  exact lexes_pure _ _

/-- Any other word ends at a gap. -/
theorem quotedBody_of_word {front : List Char} {behind : Mark} {gap : Gap} {next : Cursor}
    {value : List Char}
    (hmarker : (Cursor.mk (front ++ c :: rest) mark).atDocumentMarker = false)
    (hword : (quotedWord single start ((front ++ c :: rest).length + 1) []).Lexes
      ⟨front ++ c :: rest, mark⟩ (word, .plain) ⟨c :: rest, behind⟩)
    (hquote : c ≠ quoteMark single)
    (hgap : (gapFrom (fun _ => return) ((c :: rest).length + 1) Gap.none).Lexes ⟨c :: rest, behind⟩
      gap next)
    (hbody : (quotedBody single start steps (read ++ word ++ gap.fold)).Lexes next value after) :
    (quotedBody single start (steps + 1) read).Lexes ⟨front ++ c :: rest, mark⟩ value after := by
  unfold quotedBody
  refine (lexes_get _).bind ?_
  rw [if_neg (by simp [hmarker])]
  refine (lexes_peek _ _).bind ?_
  rw [if_neg (by cases front <;> simp [Cursor.at?])]
  refine (lexes_remaining _).bind (hword.bind ((lexes_peek _ _).bind ?_))
  rw [if_neg (by simpa [Cursor.at?, quoteMark] using hquote)]
  exact (lexes_remaining _).bind (hgap.bind hbody)

theorem escapedChar_ne_nil (c : Char) : escapedChar c ≠ [] :=
  List.length_pos_iff.1 (escapedChar_line c).2.1

theorem flatMap_escapedChar_spaces (count : Nat) :
    (List.replicate count ' ').flatMap escapedChar = List.replicate count ' ' := by
  induction count with
  | zero => rfl
  | succ count ih =>
      rw [List.replicate_succ, List.flatMap_cons, ih]
      rfl

/-- The words between double quotes are read with the spaces between them. -/
theorem lexes_quotedBody_double (start : Mark) (cs rest : List Char) {steps : Nat}
    (hcolumn : mark.column ≠ 0) (hsteps : cs.length < steps) (read : List Char) :
    (quotedBody false start steps read).Lexes
      ⟨cs.flatMap escapedChar ++ quoteMark false :: rest, mark⟩
      (read ++ cs) ⟨quoteMark false :: rest, mark.over (cs.flatMap escapedChar)⟩ := by
  induction hsize : cs.length using Nat.strongRecOn generalizing cs steps read mark with
  | ind size ih =>
      obtain ⟨word, count, next, rfl, hword, hnext, hlast⟩ := exists_word cs
      obtain ⟨steps, rfl⟩ : ∃ before, steps = before + 1 := ⟨steps - 1, by omega⟩
      simp only [List.length_append, List.length_replicate] at hsteps hsize
      rw [List.flatMap_append, List.flatMap_append, flatMap_escapedChar_spaces, List.append_assoc]
      have hmarker : ∀ rest, (Cursor.mk rest mark).atDocumentMarker = false :=
        fun rest => atDocumentMarker_of_column hcolumn
      have hread : ∀ rest, EndsQuotedWord false rest →
          (quotedWord false start ((word.flatMap escapedChar ++ rest).length + 1) []).Lexes
            ⟨word.flatMap escapedChar ++ rest, mark⟩ (word, .plain)
            ⟨rest, mark.over (word.flatMap escapedChar)⟩ := by
        intro rest hrest
        have hlength := length_le_flatMap escapedChar_ne_nil word
        refine quotedWord_double hword hrest ?_ [] mark
        rw [List.length_append]
        omega
      rcases count with _ | count
      · obtain rfl := hlast rfl
        simp only [List.replicate_zero, List.flatMap_nil, List.append_nil, List.nil_append]
        exact quotedBody_of_last (hmarker _) (hread _ (Or.inr (Or.inr ⟨rfl, by simp⟩))) steps read
      · have hstarts : StartsWord (next.flatMap escapedChar ++ quoteMark false :: rest) := by
          cases next with
          | nil => simp [StartsWord, quoteMark, isBlank, isBreak]
          | cons c others =>
              rw [List.flatMap_cons, List.append_assoc]
              exact (escapedChar_line c).2.2.2 (by simpa using hnext) _
        have hbehind : ((mark.over (word.flatMap escapedChar)).over
            (List.replicate (count + 1) ' ')).column ≠ 0 := by
          rw [Mark.over_line (by simp [isBreak]), Mark.over_line]
          · simp only
            omega
          · intro d hd
            obtain ⟨c, -, hc⟩ := List.mem_flatMap.1 hd
            exact ((escapedChar_line c).1 d hc).1
        have hmore := ih next.length (by omega) next hbehind (show next.length < steps by omega)
          (read ++ word ++ List.replicate (count + 1) ' ') rfl
        have hgap : (gapFrom (fun _ => return) ((List.replicate (count + 1) ' ' ++
            (next.flatMap escapedChar ++ quoteMark false :: rest)).length + 1) Gap.none).Lexes
              ⟨List.replicate (count + 1) ' ' ++
                (next.flatMap escapedChar ++ quoteMark false :: rest),
                mark.over (word.flatMap escapedChar)⟩
              ⟨List.replicate (count + 1) ' ', .none, []⟩
              ⟨next.flatMap escapedChar ++ quoteMark false :: rest,
                (mark.over (word.flatMap escapedChar)).over (List.replicate (count + 1) ' ')⟩ := by
          refine gapFrom_blanks ?_ [] hstarts (mark.over (word.flatMap escapedChar))
          simp only [List.length_append, List.length_replicate]
          omega
        rw [Mark.over_append, Mark.over_append, ← List.append_assoc read,
          ← List.append_assoc (read ++ word), List.append_assoc (List.replicate (count + 1) ' ')]
        exact quotedBody_of_word (hmarker _) (hread _ (Or.inl rfl)) (by decide) hgap hmore

/-- The quotes around an inside. -/
theorem quoted_of_body {cs inner : List Char}
    (hbody : (quotedBody single mark ((inner ++ quoteMark single :: rest).length + 1) []).Lexes
      ⟨inner ++ quoteMark single :: rest, mark.past (quoteMark single)⟩ cs
      ⟨quoteMark single :: rest, (mark.past (quoteMark single)).over inner⟩) :
    ∃ token, token.kind =
        .scalar (String.ofList cs) (if single then .singleQuoted else .doubleQuoted) ∧
      (quoted single).Lexes ⟨quoteMark single :: (inner ++ quoteMark single :: rest), mark⟩ token
        ⟨rest, mark.over (quoteMark single :: (inner ++ [quoteMark single]))⟩ := by
  have hquote : isBreak (quoteMark single) = false := by
    cases single <;> decide
  rw [Mark.over_cons, Mark.over_append]
  refine ⟨⟨_, mark, ((mark.past (quoteMark single)).over inner).past (quoteMark single)⟩, rfl, ?_⟩
  refine (lexes_here _).bind ((lexes_advance hquote _ _).bind ?_)
  refine (lexes_remaining _).bind (hbody.bind ?_)
  exact (lexes_advance hquote _ _).bind ((lexes_here _).bind (lexes_pure _ _))

/-- A double-quoted scalar. -/
theorem lexes_double (indent : Nat) (cs rest : List Char) (mark : Mark) :
    ∃ token, token.kind = .scalar (String.ofList cs) .doubleQuoted ∧
      (quoted false).Lexes ⟨styledChars indent cs .doubleQuoted ++ rest, mark⟩ token
        ⟨rest, mark.over (styledChars indent cs .doubleQuoted)⟩ := by
  have hlength := length_le_flatMap escapedChar_ne_nil cs
  have hcolumn : (mark.past '"').column ≠ 0 := by
    simp [Mark.past_of_not_break (show isBreak '"' = false by decide)]
  have hsteps : cs.length < (cs.flatMap escapedChar ++ quoteMark false :: rest).length + 1 := by
    simp only [List.length_append]
    omega
  have htoken := quoted_of_body (lexes_quotedBody_double mark cs rest hcolumn hsteps [])
  unfold styledChars
  simpa [quoteMark] using htoken

theorem exists_span (test : Char → Bool) (cs : List Char) : ∃ front back, cs = front ++ back ∧
    (∀ c ∈ front, test c = true) ∧ back.head?.any test = false := by
  refine ⟨cs.takeWhile test, cs.dropWhile test, List.takeWhile_append_dropWhile.symm,
    fun c hc => List.all_eq_true.1 List.all_takeWhile c hc, ?_⟩
  cases hback : cs.dropWhile test with
  | nil => rfl
  | cons c rest =>
      have := List.head_dropWhile_not test (l := cs) (by simp [hback])
      simpa [hback] using this

theorem not_hasPair_behind {first second : Char → Bool} {front back : List Char}
    (hpair : hasPair first second (front ++ back) = false) : hasPair first second back = false := by
  induction front with
  | nil => exact hpair
  | cons c rest ih =>
      refine ih ?_
      cases hrest : rest ++ back with
      | nil => rfl
      | cons d others =>
          rw [List.cons_append, hrest, hasPair, Bool.or_eq_false_iff] at hpair
          exact hpair.2

/-- No character of the second kind stands behind a gap of the first. -/
theorem not_second_behind {first second : Char → Bool} {front gap next : List Char}
    (hpair : hasPair first second (front ++ (gap ++ next)) = false) (hempty : gap ≠ [])
    (hgap : ∀ c ∈ gap, first c = true) : next.head?.any second = false := by
  obtain ⟨before, c, rfl⟩ := (List.eq_nil_or_concat gap).resolve_left hempty
  cases next with
  | nil => rfl
  | cons d others =>
      have hbehind : hasPair first second (c :: d :: others) = false := by
        have hall : hasPair first second ((front ++ before) ++ c :: d :: others) = false := by
          simpa using hpair
        exact not_hasPair_behind hall
      rw [hasPair, Bool.or_eq_false_iff, hgap c (by simp)] at hbehind
      simpa using hbehind.1

/-- What a text needs to be read between single quotes. A break is not a line feed, and there is an
indentation behind it. -/
structure SingleText (indent : Nat) (cs : List Char) : Prop where
  printable : ∀ c ∈ cs, isPrintable c = true ∧ c ≠ '\n'
  spaces : hasPair isSpace isBreak cs = false
  breaks : hasPair isBreak isSpace cs = false
  indented : indent ≠ 0 ∨ ∀ c ∈ cs, isBreak c = false

theorem SingleText.behind {indent : Nat} {front back : List Char}
    (htext : SingleText indent (front ++ back)) : SingleText indent back where
  printable c hc := htext.printable c (List.mem_append_right front hc)
  spaces := not_hasPair_behind htext.spaces
  breaks := not_hasPair_behind htext.breaks
  indented := htext.indented.imp_right fun hline c hc => hline c (List.mem_append_right front hc)

/-- The characters of such a text up to its first gap, which is of one kind. -/
theorem SingleText.split {indent : Nat} {cs : List Char} (htext : SingleText indent cs) :
    ∃ word gap next, cs = word ++ (gap ++ next) ∧
      (∀ c ∈ word, isBlank c = false ∧ isBreak c = false) ∧ StartsWord next ∧
      (gap = [] ∧ next = [] ∨ (∃ count, gap = List.replicate (count + 1) ' ') ∨
        ∃ c breaks, gap = c :: breaks ∧ ∀ d ∈ gap, isBreak d = true) := by
  have hblank : ∀ c ∈ cs, isBlank c = isSpace c :=
    fun c hc => isBlank_of_isPrintable (htext.printable c hc).1
  obtain ⟨word, tail, rfl, hword, htail⟩ := exists_span (fun c => !isSpace c && !isBreak c) cs
  have hwords : ∀ c ∈ word, isBlank c = false ∧ isBreak c = false := by
    intro c hc
    rw [hblank c (List.mem_append_left tail hc)]
    simpa using hword c hc
  have hstarts : ∀ gap next, tail = gap ++ next → next.head?.any isSpace = false →
      next.head?.any isBreak = false → StartsWord next := by
    rintro gap next rfl hspace hbreak
    cases next with
    | nil => simp [StartsWord]
    | cons c others =>
        simp only [List.head?_cons, Option.any_some] at hspace hbreak
        simp [StartsWord, hblank c (by simp), hspace, hbreak]
  cases hfirst : tail with
  | nil => exact ⟨word, [], [], by simp, hwords, by simp [StartsWord], Or.inl ⟨rfl, rfl⟩⟩
  | cons c rest =>
      rw [← hfirst]
      have hgapped : isSpace c = true ∨ isBreak c = true := by
        rw [hfirst] at htail
        cases hspace : isSpace c with
        | false => exact Or.inr (by simpa [hspace] using htail)
        | true => exact Or.inl rfl
      rcases hgapped with hspace | hbreak
      · obtain ⟨gap, next, hsplit, hgap, hnext⟩ := exists_span isSpace tail
        have hempty : gap ≠ [] := by
          rintro rfl
          rw [List.nil_append] at hsplit
          rw [← hsplit, hfirst] at hnext
          simp [hspace] at hnext
        have hspaces := htext.spaces
        rw [hsplit] at hspaces
        refine ⟨word, gap, next, by rw [hsplit], hwords,
          hstarts gap next hsplit hnext (not_second_behind hspaces hempty hgap), Or.inr (Or.inl ?_)⟩
        obtain ⟨d, others, rfl⟩ := List.exists_cons_of_ne_nil hempty
        refine ⟨others.length, List.eq_replicate_iff.2 ⟨rfl, fun e he => ?_⟩⟩
        simpa [isSpace] using hgap e he
      · obtain ⟨gap, next, hsplit, hgap, hnext⟩ := exists_span isBreak tail
        have hempty : gap ≠ [] := by
          rintro rfl
          rw [List.nil_append] at hsplit
          rw [← hsplit, hfirst] at hnext
          simp [hbreak] at hnext
        have hbreaks := htext.breaks
        rw [hsplit] at hbreaks
        obtain ⟨d, others, rfl⟩ := List.exists_cons_of_ne_nil hempty
        exact ⟨word, d :: others, next, by rw [hsplit], hwords,
          hstarts _ next hsplit (not_second_behind hbreaks hempty hgap) hnext,
          Or.inr (Or.inr ⟨d, others, rfl, hgap⟩)⟩

section Lines

variable {indent : Nat} {charText : Char → List Char} {lineStart : Bool}

theorem indentedLines_word {word : List Char} (hword : ∀ c ∈ word, isBreak c = false)
    (rest : List Char) : indentedLines indent charText false (word ++ rest) =
      word.flatMap charText ++ indentedLines indent charText false rest := by
  induction word with
  | nil => rfl
  | cons c others ih =>
      obtain ⟨hc, hothers⟩ := List.forall_mem_cons.1 hword
      rw [List.cons_append, indentedLines, if_neg (by simp [hc]), ih hothers, List.flatMap_cons]
      simp

theorem indentedLines_breaks {breaks : List Char} (hbreaks : ∀ c ∈ breaks, isBreak c = true)
    (rest : List Char) : indentedLines indent charText true (breaks ++ rest) =
      breaks ++ indentedLines indent charText true rest := by
  induction breaks with
  | nil => rfl
  | cons c others ih =>
      obtain ⟨hc, hothers⟩ := List.forall_mem_cons.1 hbreaks
      rw [List.cons_append, indentedLines, if_pos hc, ih hothers, List.cons_append]

theorem indentedLines_of_break {breaks : List Char} {c : Char}
    (hbreaks : ∀ d ∈ c :: breaks, isBreak d = true) (rest : List Char) :
    indentedLines indent charText lineStart (c :: breaks ++ rest) =
      c :: breaks ++ indentedLines indent charText true rest := by
  obtain ⟨hc, hothers⟩ := List.forall_mem_cons.1 hbreaks
  rw [List.cons_append, indentedLines, if_pos hc, indentedLines_breaks hothers, List.cons_append]

/-- A line begins with its indentation. -/
theorem indentedLines_start {next : List Char} (hnext : next ≠ [])
    (hfirst : next.head?.any isBreak = false) : indentedLines indent charText true next =
      spaces indent ++ indentedLines indent charText false next := by
  obtain ⟨c, rest, rfl⟩ := List.exists_cons_of_ne_nil hnext
  have hc : isBreak c = false := by simpa using hfirst
  simp [indentedLines, hc]

end Lines

theorem any_isBreak_of_startsWord (hrest : StartsWord rest) : rest.head?.any isBreak = false := by
  cases rest with
  | nil => rfl
  | cons c others =>
      have hc : isBlank c = false ∧ isBreak c = false := by simpa [StartsWord] using hrest
      exact hc.2

theorem singleQuotedBody_spaces {indent count : Nat} (hword : ∀ c ∈ word, isBreak c = false)
    (next : List Char) :
    singleQuotedBody indent (word ++ (List.replicate (count + 1) ' ' ++ next)) =
      word.flatMap doubledQuote ++
        (List.replicate (count + 1) ' ' ++ singleQuotedBody indent next) := by
  have hspaces : ∀ count, (List.replicate count ' ').flatMap doubledQuote =
      List.replicate count ' ' := by
    intro count
    induction count with
    | zero => rfl
    | succ count ih =>
        rw [List.replicate_succ, List.flatMap_cons, ih]
        rfl
  have hlines : indentedLines indent doubledQuote false
      (word ++ (List.replicate (count + 1) ' ' ++ next)) = word.flatMap doubledQuote ++
        (List.replicate (count + 1) ' ' ++ indentedLines indent doubledQuote false next) := by
    rw [indentedLines_word hword, indentedLines_word (by simp [isBreak]), hspaces]
  have hlast : (word ++ (List.replicate (count + 1) ' ' ++ next)).getLast?.any isBreak =
      next.getLast?.any isBreak := by
    rw [List.getLast?_append, List.getLast?_append, List.replicate_succ', List.getLast?_append]
    cases next.getLast? <;> simp [isBreak]
  change indentedLines indent doubledQuote false _ ++ _ = _ ++ (_ ++
    (indentedLines indent doubledQuote false next ++ _))
  rw [hlines, hlast]
  simp only [List.append_assoc]

/-- Breaks between words are written as they are, and the next line is indented. -/
theorem singleQuotedBody_breaks {indent : Nat} {breaks next : List Char}
    (hword : ∀ c ∈ word, isBreak c = false) (hbreaks : ∀ d ∈ c :: breaks, isBreak d = true)
    (hnext : StartsWord next) :
    singleQuotedBody indent (word ++ (c :: breaks ++ next)) =
      word.flatMap doubledQuote ++
        (c :: breaks ++ (spaces indent ++ singleQuotedBody indent next)) := by
  change indentedLines indent doubledQuote false _ ++ _ = _ ++ (_ ++ (_ ++
    (indentedLines indent doubledQuote false next ++ _)))
  rw [indentedLines_word hword, indentedLines_of_break hbreaks]
  rcases List.eq_nil_or_concat next with rfl | ⟨before, d, rfl⟩
  · have hlast : (word ++ (c :: breaks ++ [])).getLast?.any isBreak = true := by
      obtain ⟨front, e, hsplit⟩ := (List.eq_nil_or_concat (c :: breaks)).resolve_left (by simp)
      rw [hsplit] at hbreaks ⊢
      simpa using hbreaks e (by simp)
    rw [hlast]
    simp [indentedLines]
  · have hlast : (word ++ (c :: breaks ++ before.concat d)).getLast? = some d := by
      rw [List.concat_eq_append, ← List.append_assoc, ← List.append_assoc, List.getLast?_concat]
    rw [indentedLines_start (by simp) (any_isBreak_of_startsWord hnext), hlast]
    simp

/-- What is between single quotes begins with a word, unless it is empty. -/
theorem startsWord_singleQuotedBody {indent : Nat} {next : List Char} (hnext : StartsWord next)
    (hrest : StartsWord rest) : StartsWord (singleQuotedBody indent next ++ rest) := by
  cases next with
  | nil => exact hrest
  | cons c others =>
      have hc : isBlank c = false ∧ isBreak c = false := by simpa [StartsWord] using hnext
      have hchars : singleQuotedBody indent (c :: others) ++ rest = doubledQuote c ++
          (indentedLines indent doubledQuote false others ++
            ((if (c :: others).getLast?.any isBreak then spaces indent else []) ++ rest)) := by
        change (indentedLines indent doubledQuote false (c :: others) ++ _) ++ rest = _
        simp [indentedLines, hc.2]
      rw [hchars]
      by_cases hquote : c = '\''
      · simp [doubledQuote, hquote, StartsWord, isBlank, isBreak]
      · simp [doubledQuote, hquote, StartsWord, hc]

theorem length_le_indentedLines (indent : Nat) {charText : Char → List Char}
    (hchars : ∀ c, charText c ≠ []) (lineStart : Bool) (cs : List Char) :
    cs.length ≤ (indentedLines indent charText lineStart cs).length := by
  induction cs generalizing lineStart with
  | nil => exact Nat.zero_le _
  | cons c rest ih =>
      have hbreak := ih true
      have hword := ih false
      have hone := List.length_pos_iff.2 (hchars c)
      unfold indentedLines
      split
      · simp only [List.length_cons]
        omega
      · simp only [List.length_append, List.length_cons]
        omega

theorem doubledQuote_ne_nil (c : Char) : doubledQuote c ≠ [] := by
  unfold doubledQuote
  split <;> simp

theorem length_le_singleQuotedBody (indent : Nat) (cs : List Char) :
    cs.length ≤ (singleQuotedBody indent cs).length := by
  have hlines := length_le_indentedLines indent doubledQuote_ne_nil false cs
  change _ ≤ (indentedLines indent doubledQuote false cs ++ _).length
  rw [List.length_append]
  omega

theorem column_over_word {word : List Char} (hword : ∀ c ∈ word, isBreak c = false)
    (hcolumn : mark.column ≠ 0) : (mark.over word).column ≠ 0 := by
  rw [Mark.over_line hword]
  simp only
  omega

theorem not_isBreak_of_mem_doubledQuote {word : List Char}
    (hword : ∀ c ∈ word, isBreak c = false) :
        ∀ d ∈ word.flatMap doubledQuote, isBreak d = false := by
  intro d hd
  obtain ⟨c, hc, hdc⟩ := List.mem_flatMap.1 hd
  unfold doubledQuote at hdc
  split at hdc
  · simp only [List.mem_cons, List.not_mem_nil, or_false, or_self] at hdc
    rw [hdc]
    decide
  · rw [List.mem_singleton.1 hdc]
    exact hword c hc

/-- The words between single quotes are read with the spaces or the breaks between them. -/
theorem lexes_quotedBody_single (start : Mark) {indent : Nat} {cs rest : List Char} {steps : Nat}
    (htext : SingleText indent cs) (hcolumn : mark.column ≠ 0) (hsteps : cs.length < steps)
    (hrest : rest.head? ≠ some '\'') (read : List Char) :
    (quotedBody true start steps read).Lexes
      ⟨singleQuotedBody indent cs ++ quoteMark true :: rest, mark⟩ (read ++ cs)
      ⟨quoteMark true :: rest, mark.over (singleQuotedBody indent cs)⟩ := by
  induction hsize : cs.length using Nat.strongRecOn generalizing cs steps read mark with
  | ind size ih =>
      obtain ⟨word, gap, next, rfl, hword, hnext, hkind⟩ := htext.split
      obtain ⟨steps, rfl⟩ : ∃ before, steps = before + 1 := ⟨steps - 1, by omega⟩
      simp only [List.length_append] at hsteps hsize
      have hline : ∀ c ∈ word, isBreak c = false := fun c hc => (hword c hc).2
      have hmarker : ∀ rest, (Cursor.mk rest mark).atDocumentMarker = false :=
        fun rest => atDocumentMarker_of_column hcolumn
      have hread : ∀ rest, EndsQuotedWord true rest →
          (quotedWord true start ((word.flatMap doubledQuote ++ rest).length + 1) []).Lexes
            ⟨word.flatMap doubledQuote ++ rest, mark⟩ (word, .plain)
            ⟨rest, mark.over (word.flatMap doubledQuote)⟩ := by
        intro rest hrest
        have hlength := length_le_flatMap doubledQuote_ne_nil word
        refine quotedWord_single hword hrest ?_ [] mark
        rw [List.length_append]
        omega
      have hquote : StartsWord (quoteMark true :: rest) := by
        simp [StartsWord, quoteMark, isBlank, isBreak]
      have hbehind := column_over_word (not_isBreak_of_mem_doubledQuote hline) hcolumn
      rcases hkind with ⟨rfl, rfl⟩ | ⟨count, rfl⟩ | ⟨c, breaks, rfl, hbreaks⟩
      · have hlast : word.getLast?.any isBreak = false := by
          cases hfound : word.getLast? with
          | none => rfl
          | some c => exact hline c (List.mem_of_getLast? hfound)
        have hbody : singleQuotedBody indent (word ++ ([] ++ [])) = word.flatMap doubledQuote := by
          change indentedLines indent doubledQuote false _ ++ _ = _
          rw [List.append_nil, indentedLines_word hline, List.append_nil, hlast]
          simp [indentedLines]
        rw [hbody]
        simp only [List.append_nil]
        exact quotedBody_of_last (hmarker _) (hread _ (Or.inr (Or.inr ⟨rfl, fun _ => hrest⟩))) steps
          read
      · rw [List.length_replicate] at hsize hsteps
        have hmore := ih next.length (by omega) htext.behind.behind
          (column_over_word
            (show ∀ c ∈ List.replicate (count + 1) ' ',
              isBreak c = false by simp [isBreak]) hbehind)
          (show next.length < steps by omega) (read ++ word ++ List.replicate (count + 1) ' ') rfl
        have hgap : (gapFrom (fun _ => return) ((List.replicate (count + 1) ' ' ++
            (singleQuotedBody indent next ++ quoteMark true :: rest)).length + 1) Gap.none).Lexes
              ⟨List.replicate (count + 1) ' ' ++
                (singleQuotedBody indent next ++ quoteMark true :: rest),
                mark.over (word.flatMap doubledQuote)⟩
              ⟨List.replicate (count + 1) ' ', .none, []⟩
              ⟨singleQuotedBody indent next ++ quoteMark true :: rest,
                (mark.over (word.flatMap doubledQuote)).over (List.replicate (count + 1) ' ')⟩ := by
          refine gapFrom_blanks ?_ [] (startsWord_singleQuotedBody hnext hquote)
            (mark.over (word.flatMap doubledQuote))
          simp only [List.length_append, List.length_replicate]
          omega
        rw [singleQuotedBody_spaces hline, Mark.over_append, Mark.over_append,
          ← List.append_assoc read, ← List.append_assoc (read ++ word), List.append_assoc,
          List.append_assoc (List.replicate (count + 1) ' ')]
        exact quotedBody_of_word (hmarker _) (hread _ (Or.inl rfl)) (by decide) hgap hmore
      · have hprintable : ∀ d ∈ c :: breaks, isPrintable d = true ∧ d ≠ '\n' :=
          fun d hd => htext.printable d
            (List.mem_append_right word (List.mem_append_left next hd))
        have hindent : indent ≠ 0 := by
          refine htext.indented.resolve_right fun hnone => ?_
          have hc := hnone c (by simp)
          rw [hbreaks c List.mem_cons_self] at hc
          cases hc
        have hmargin : (((mark.over (word.flatMap doubledQuote)).over (c :: breaks)).over
            (spaces indent)).column ≠ 0 := by
          rw [show spaces indent = List.replicate indent ' ' from rfl,
            Mark.over_line (by simp [isBreak])]
          simp only [List.length_replicate]
          omega
        rw [List.length_cons] at hsize hsteps
        have hmore := ih next.length (by omega) htext.behind.behind hmargin
          (show next.length < steps by omega) (read ++ word ++ c :: breaks) rfl
        have hgap : (gapFrom (fun _ => return) ((c :: breaks ++ (spaces indent ++
            (singleQuotedBody indent next ++ quoteMark true :: rest))).length + 1) Gap.none).Lexes
              ⟨c :: breaks ++ (spaces indent ++
                (singleQuotedBody indent next ++ quoteMark true :: rest)),
                mark.over (word.flatMap doubledQuote)⟩
              ⟨[], some [c], breaks⟩
              ⟨singleQuotedBody indent next ++ quoteMark true :: rest,
                ((mark.over (word.flatMap doubledQuote)).over (c :: breaks)).over
                  (spaces indent)⟩ := by
          refine gapFrom_of_break (fun cursor => lexes_pure () cursor)
            (fun d hd => ⟨hbreaks d hd, (hprintable d hd).1⟩) ?_
            (startsWord_singleQuotedBody hnext hquote) (mark.over (word.flatMap doubledQuote))
          simp only [spaces, List.length_append, List.length_replicate, List.length_cons]
          omega
        have hfold : Gap.fold ⟨[], some [c], breaks⟩ = c :: breaks := by
          have hc := (hprintable c List.mem_cons_self).2
          unfold Gap.fold
          split
          · rename_i hnone
            cases hnone
          · rename_i hfeed
            cases hfeed
            exact absurd rfl hc
          · rename_i first _ hfirst
            cases hfirst
            rfl
        rw [singleQuotedBody_breaks hline hbreaks hnext, Mark.over_append, Mark.over_append,
          Mark.over_append, ← List.append_assoc read, ← List.append_assoc (read ++ word),
          List.append_assoc, List.append_assoc (c :: breaks), List.append_assoc (spaces indent)]
        refine quotedBody_of_word (hmarker _) (hread _ (Or.inr (Or.inl ?_))) ?_ hgap ?_
        · exact hbreaks c List.mem_cons_self
        · rintro rfl
          exact absurd (hbreaks _ List.mem_cons_self) (by decide)
        · rw [hfold]
          exact hmore

/-- A single-quoted scalar. -/
theorem lexes_single {indent : Nat} {cs rest : List Char} (htext : SingleText indent cs)
    (hrest : rest.head? ≠ some '\'') (mark : Mark) :
    ∃ token, token.kind = .scalar (String.ofList cs) .singleQuoted ∧
      (quoted true).Lexes ⟨styledChars indent cs .singleQuoted ++ rest, mark⟩ token
        ⟨rest, mark.over (styledChars indent cs .singleQuoted)⟩ := by
  have hcolumn : (mark.past '\'').column ≠ 0 := by
    simp [Mark.past_of_not_break (show isBreak '\'' = false by decide)]
  have hsteps : cs.length < (singleQuotedBody indent cs ++ quoteMark true :: rest).length + 1 := by
    have := length_le_singleQuotedBody indent cs
    simp only [List.length_append]
    omega
  have htoken := quoted_of_body (lexes_quotedBody_single mark htext hcolumn hsteps hrest [])
  unfold styledChars
  simpa [quoteMark] using htoken

end Lexer

end StackBridge.Yaml
