/-
Skipping what can be read. A reader that does not want a value skips it with a bracket counter and a
fuel of its own. Where the value can be read, skipping it ends at the same place.
-/
import StackBridge.Proofs.ValueReading

namespace StackBridge.Json.Reader

variable {α β : Type} {cursor between after : Cursor}

@[simp]
theorem answers_digits_iff {found : List Char} :
    digits.Answers cursor found after ↔
      after = cursor.skipWhile Char.isDigit ∧ cursor.rest.takeWhile Char.isDigit = found :=
  Answers.iff_eq rfl found

@[simp]
theorem answers_get_iff {found : Cursor} :
    (get : Reader Cursor).Answers cursor found after ↔ after = cursor ∧ cursor = found :=
  Answers.iff_eq rfl found

theorem Answers.floatOfParts_stays {negative : Bool} {significand : Nat} {exponent : Int}
    {x : Float} (hparts : (floatOfParts negative significand exponent).Answers cursor x after) :
    after = cursor := by
  unfold floatOfParts at hparts
  split at hparts
  · simp at hparts
  · exact (answers_pure_iff.1 hparts).1

/-- A sign may stand in front of the digits of an exponent. -/
def Cursor.unsigned (cursor : Cursor) : Cursor :=
  if cursor.rest.head? = some '+' ∨ cursor.rest.head? = some '-' then cursor.next else cursor

theorem Answers.exponentDigits {negative : Bool} {significand : Nat} {shift : Int}
    {x : Float} (hpart : (exponentPart negative significand shift).Answers cursor x after) :
    (∃ c, (Cursor.unsigned cursor.next).rest.head? = some c ∧ c.isDigit) ∧
      after = (Cursor.unsigned cursor.next).skipWhile Char.isDigit := by
  simp only [exponentPart, answers_bind_iff, answers_advance_iff, answers_peek_iff] at hpart
  obtain ⟨⟨⟩, _, rfl, sign, _, ⟨rfl, rfl⟩, hpart⟩ := hpart
  unfold Cursor.unsigned
  simp only [Bool.or_eq_true, decide_eq_true_eq] at hpart
  split at hpart
  all_goals
    rename_i hsign
    simp only [hsign, if_true, if_false]
    simp at hpart
    split at hpart
    · simp at hpart
    · rename_i c hc
      rcases hdigit : c.isDigit with _ | _
      · simp [hdigit] at hpart
      · simp only [hdigit, Bool.true_eq_false, if_false, answers_bind_iff, answers_get_iff,
          answers_digits_iff] at hpart
        obtain ⟨_, _, ⟨rfl, rfl⟩, _, _, ⟨rfl, rfl⟩, hpart⟩ := hpart
        refine ⟨⟨c, hc, hdigit⟩, ?_⟩
        split at hpart
        · exact hpart.floatOfParts_stays
        · split at hpart
          · simp at hpart
          · exact (answers_pure_iff.1 hpart).1

theorem skipExponent_of_digit
    (hdigit : ∃ c, (Cursor.unsigned cursor.next).rest.head? = some c ∧ c.isDigit) :
    skipExponent.Answers cursor () ((Cursor.unsigned cursor.next).skipWhile Char.isDigit) := by
  obtain ⟨c, hc, hdigit⟩ := hdigit
  unfold Cursor.unsigned at hc ⊢
  simp only [skipExponent, answers_bind_iff, answers_advance_iff, answers_peek_iff]
  refine ⟨(), _, rfl, _, _, ⟨rfl, rfl⟩, ?_⟩
  simp only [Bool.or_eq_true, decide_eq_true_eq]
  split at hc
  all_goals
    rename_i hsign
    simp only [hsign, if_true, if_false]
    simp [hc, hdigit]

theorem skipExponent_of_exponentPart {negative : Bool} {significand : Nat} {shift : Int}
    {x : Float} (hpart : (exponentPart negative significand shift).Answers cursor x after) :
    skipExponent.Answers cursor () after := by
  obtain ⟨hdigit, rfl⟩ := hpart.exponentDigits
  exact skipExponent_of_digit hdigit

def skipUnsigned : Reader Unit := do
  match ← peek with
  | none => failHere .invalidNumber
  | some c => if !c.isDigit then failNext .invalidNumber
  let _ ← digits

theorem skipExponent_eq : skipExponent = (do
    advance
    let sign ← peek
    if sign = some '+' || sign = some '-' then advance
    skipUnsigned) := rfl

def skipLetter : Reader Unit := do
  match ← peek with
  | some 'e' | some 'E' => skipExponent
  | _ => return

def skipFraction : Reader Unit := do
  match ← peek with
  | some '.' =>
      advance
      if (← digits).isEmpty then failNext .invalidNumber
      skipLetter
  | some 'e' | some 'E' => skipExponent
  | _ => return

theorem skipFraction_of_point {negative : Bool} {significand : Nat} {shift : Int}
    {x : Float} (hpoint : cursor.rest.head? = some '.')
    (hpart : (fractionPart negative significand shift).Answers cursor x after) :
    skipFraction.Answers cursor () after := by
  simp only [skipFraction, fractionPart, answers_bind_iff, answers_peek_iff, answers_advance_iff,
    answers_digits_iff] at hpart ⊢
  obtain ⟨⟨⟩, _, rfl, found, _, ⟨rfl, hfound⟩, hpart⟩ := hpart
  refine ⟨_, _, ⟨rfl, hpoint⟩, ?_⟩
  simp only [answers_bind_iff, answers_advance_iff, answers_digits_iff]
  refine ⟨(), _, rfl, found, _, ⟨rfl, hfound⟩, ?_⟩
  by_cases hempty : found.isEmpty = true
  · simp only [hempty, if_true] at hpart
    simp at hpart
    split at hpart <;> simp at hpart
  · simp only [hempty, if_false, Bool.false_eq_true, skipLetter, answers_bind_iff,
      answers_peek_iff] at hpart ⊢
    obtain ⟨_, _, ⟨rfl, rfl⟩, hpart⟩ := hpart
    refine ⟨_, _, ⟨rfl, rfl⟩, ?_⟩
    split at hpart
    · rename_i hletter
      simpa [hletter] using skipExponent_of_exponentPart hpart
    · rename_i hletter
      simpa [hletter] using skipExponent_of_exponentPart hpart
    · cases hpart.floatOfParts_stays
      simp

theorem skipFraction_of_afterInteger {negative : Bool} {significand dropped : Nat} {n : Number}
    (hafter : (afterInteger negative significand dropped).Answers cursor n after) :
    skipFraction.Answers cursor () after := by
  simp only [afterInteger, answers_bind_iff, answers_peek_iff] at hafter
  obtain ⟨_, cursor, ⟨rfl, rfl⟩, hafter⟩ := hafter
  split at hafter
  · rename_i hpoint
    obtain ⟨x, hpart, -⟩ := by simpa using hafter
    exact skipFraction_of_point hpoint hpart
  · rename_i hletter
    obtain ⟨x, hpart, -⟩ := by simpa using hafter
    simpa [skipFraction, hletter] using skipExponent_of_exponentPart hpart
  · rename_i hletter
    obtain ⟨x, hpart, -⟩ := by simpa using hafter
    simpa [skipFraction, hletter] using skipExponent_of_exponentPart hpart
  · have hstays : after = cursor := by
      split at hafter
      · exact (answers_pure_iff.1 hafter).1
      · obtain ⟨x, hpart, -⟩ := by simpa using hafter
        exact hpart.floatOfParts_stays
    simp only [skipFraction, answers_bind_iff, answers_peek_iff]
    refine ⟨_, _, ⟨rfl, rfl⟩, ?_⟩
    split <;> simp_all

/-- A number that can be read can be skipped, and both end at the same place. -/
theorem skipNumber_of_number {negative : Bool} {n : Number}
    (hnumber : (number negative).Answers cursor n after) :
    skipNumber.Answers cursor () after := by
  simp only [number, skipNumber, answers_bind_iff, answers_peek_iff] at hnumber ⊢
  obtain ⟨head, cursor, ⟨rfl, hhead⟩, hnumber⟩ := hnumber
  refine ⟨head, _, ⟨rfl, hhead⟩, ?_⟩
  rcases head with _ | c
  · simp at hnumber
  by_cases hzero : c = '0'
  · subst hzero
    simp only [answers_bind_iff, answers_advance_iff, answers_peek_iff] at hnumber ⊢
    obtain ⟨⟨⟩, _, rfl, next, _, ⟨rfl, hnext⟩, hnumber⟩ := hnumber
    refine ⟨(), _, rfl, next, _, ⟨rfl, hnext⟩, ?_⟩
    cases next with
    | none =>
        have hend := skipFraction_of_afterInteger hnumber
        simpa [skipFraction, hnext] using hend
    | some c =>
        by_cases hdigit : c.isDigit = true
        · simp [hdigit] at hnumber
        · simp only [hdigit, if_false, Bool.false_eq_true] at hnumber ⊢
          exact skipFraction_of_afterInteger hnumber
  · simp only at hnumber ⊢
    by_cases hdigit : c.isDigit = true
    · simp only [hdigit, if_true, answers_bind_iff, answers_digits_iff] at hnumber
      obtain ⟨found, _, ⟨rfl, hfound⟩, hnumber⟩ := hnumber
      have hend := skipFraction_of_afterInteger hnumber
      simp only [hdigit, Bool.not_true, Bool.false_eq_true, if_false]
      rw [answers_bind_iff]
      exact ⟨found, _, answers_digits_iff.2 ⟨rfl, hfound⟩, hend⟩
    · simp [hdigit] at hnumber

theorem Answers.hexEscape_after {code : Nat} (hescape : hexEscape.Answers cursor code after) :
    after = cursor.next.next.next.next := by
  simp only [hexEscape, answers_bind_iff, answers_get_iff] at hescape
  obtain ⟨_, cursor, ⟨rfl, rfl⟩, hescape⟩ := hescape
  split at hescape
  · simp at hescape
    exact hescape.1
  · split at hescape <;> simp at hescape

theorem Answers.length_le_of_hexEscape {code : Nat}
    (hescape : hexEscape.Answers cursor code after) :
    after.rest.length ≤ cursor.rest.length := by
  rw [hescape.hexEscape_after]
  have h₁ := cursor.length_next_le
  have h₂ := cursor.next.length_next_le
  have h₃ := cursor.next.next.length_next_le
  have h₄ := cursor.next.next.next.length_next_le
  omega

theorem Answers.pairChar_after {expected : Char}
    (hpair : (pairChar expected).Answers cursor () after) :
    cursor.rest.head? = some expected ∧ after = cursor.next := by
  simp only [pairChar, answers_bind_iff, answers_peek_iff] at hpair
  obtain ⟨_, cursor, ⟨rfl, rfl⟩, hpair⟩ := hpair
  split at hpair
  · simp at hpair
  · split at hpair
    · simp_all
    · simp at hpair

/-- A numeric escape is skipped one half at a time. -/
theorem skipStringBody_of_hexEscape {fuel code : Nat} (hslash : cursor.rest.head? = some '\\')
    (hletter : cursor.next.rest.head? = some 'u')
    (hescape : hexEscape.Answers cursor.next.next code between)
    (hrest : (skipStringBody fuel).Answers between () after) :
    (skipStringBody (fuel + 1)).Answers cursor () after := by
  rw [skipStringBody, answers_bind_iff]
  refine ⟨_, _, answers_peek_iff.2 ⟨rfl, hslash⟩, ?_⟩
  simp only [answers_bind_iff, answers_advance_iff]
  refine ⟨(), _, rfl, _, _, answers_peek_iff.2 ⟨rfl, hletter⟩, ?_⟩
  simp only [answers_bind_iff, answers_advance_iff]
  exact ⟨(), _, rfl, code, _, hescape, hrest⟩

/-- A numeric escape is one code unit, or two of which each has its own backslash. -/
theorem Answers.unicodeEscape_cases {c : Char} (hescape : unicodeEscape.Answers cursor c after) :
    (∃ code, hexEscape.Answers cursor code after) ∨
      ∃ first second half, hexEscape.Answers cursor first half ∧
        half.rest.head? = some '\\' ∧ half.next.rest.head? = some 'u' ∧
        hexEscape.Answers half.next.next second after := by
  rw [unicodeEscape, answers_bind_iff] at hescape
  obtain ⟨first, half, hfirst, hescape⟩ := hescape
  by_cases hlow : (decide (0xdc00 ≤ first) && decide (first ≤ 0xdfff)) = true
  · simp only [hlow, if_true] at hescape
    simp at hescape
  · simp only [hlow, if_false, Bool.false_eq_true] at hescape
    by_cases halone : (decide (first < 0xd800) || decide (0xdbff < first)) = true
    · simp only [halone, if_true] at hescape
      obtain ⟨rfl, -⟩ := answers_pure_iff.1 hescape
      exact Or.inl ⟨first, hfirst⟩
    · simp only [halone, if_false, Bool.false_eq_true, answers_bind_iff] at hescape
      obtain ⟨⟨⟩, _, hslash, ⟨⟩, _, hpair, second, _, hsecond, hescape⟩ := hescape
      obtain ⟨hbackslash, rfl⟩ := hslash.pairChar_after
      obtain ⟨hletter, rfl⟩ := hpair.pairChar_after
      split at hescape
      · simp at hescape
      · obtain ⟨rfl, -⟩ := answers_pure_iff.1 hescape
        exact Or.inr ⟨first, second, half, hfirst, hbackslash, hletter, hsecond⟩

/-- A string that can be read can be skipped, to the same place behind its closing quote. -/
theorem skipStringBody_of_stringBody {steps fuel : Nat} {read : List Char} {s : String}
    (hbody : (stringBody steps read).Answers cursor s after) (hfuel : cursor.rest.length < fuel) :
    (skipStringBody fuel).Answers cursor () after ∧ after.rest.length < cursor.rest.length := by
  induction steps generalizing read cursor fuel with
  | zero => simp [stringBody] at hbody
  | succ steps ih =>
      obtain ⟨left, rfl⟩ : ∃ left, fuel = left + 1 := ⟨fuel - 1, by omega⟩
      rw [stringBody, answers_bind_iff] at hbody
      obtain ⟨next, cursor, hpeek, hbody⟩ := hbody
      obtain ⟨rfl, hnext⟩ := answers_peek_iff.1 hpeek
      split at hbody
      · simp at hbody
      · have hlength := Cursor.length_next_of_head hnext
        obtain rfl : after = cursor.next := And.left (by simpa using hbody)
        exact ⟨by simp [skipStringBody, hnext], by omega⟩
      · simp only [answers_bind_iff, answers_advance_iff] at hbody
        obtain ⟨⟨⟩, _, rfl, c, between, hescape, hbody⟩ := hbody
        have hlength := Cursor.length_next_of_head hnext
        simp only [escape, answers_bind_iff] at hescape
        obtain ⟨letter, start, hpeek, hescape⟩ := hescape
        obtain ⟨rfl, hletter⟩ := answers_peek_iff.1 hpeek
        have hstart := Cursor.length_next_le cursor.next
        split at hescape
        · simp at hescape
        · simp only [answers_bind_iff, answers_advance_iff] at hescape
          obtain ⟨⟨⟩, _, rfl, hescape⟩ := hescape
          rcases hescape.unicodeEscape_cases with
            ⟨code, hcode⟩ | ⟨first, second, half, hfirst, hbackslash, hpair, hsecond⟩
          · have hend := hcode.length_le_of_hexEscape
            obtain ⟨hrest, hless⟩ := ih hbody (by omega : _ < left)
            exact ⟨skipStringBody_of_hexEscape hnext hletter hcode hrest, by omega⟩
          · have hhalf := hfirst.length_le_of_hexEscape
            have hslash := Cursor.length_next_of_head hbackslash
            have hmark := Cursor.length_next_of_head hpair
            have hend := hsecond.length_le_of_hexEscape
            obtain ⟨fewer, rfl⟩ : ∃ fewer, left = fewer + 1 := ⟨left - 1, by omega⟩
            obtain ⟨hrest, hless⟩ := ih hbody (by omega : _ < fewer)
            exact ⟨skipStringBody_of_hexEscape hnext hletter hfirst
              (skipStringBody_of_hexEscape hbackslash hpair hsecond hrest), by omega⟩
        · rename_i letter hother
          split at hescape
          · rename_i meaning hmeaning
            obtain ⟨rfl, -⟩ : between = cursor.next.next ∧ meaning = c := by simpa using hescape
            obtain ⟨hrest, hless⟩ := ih hbody (by omega : _ < left)
            refine ⟨?_, by omega⟩
            rw [skipStringBody, answers_bind_iff]
            refine ⟨_, _, answers_peek_iff.2 ⟨rfl, hnext⟩, ?_⟩
            simp only [answers_bind_iff, answers_advance_iff]
            refine ⟨(), _, rfl, _, _, answers_peek_iff.2 ⟨rfl, hletter⟩, ?_⟩
            simpa [hmeaning] using hrest
          · simp at hescape
      · rename_i c hquote hslash
        have hlength := Cursor.length_next_of_head hnext
        by_cases hcontrol : c.toNat < 0x20
        · simp [hcontrol] at hbody
        · have hbody : (stringBody steps (c :: read)).Answers cursor.next s after := by
            simpa [hcontrol] using hbody
          obtain ⟨hrest, hless⟩ := ih hbody (by omega : _ < left)
          exact ⟨by simpa [skipStringBody, hnext, hcontrol] using hrest, by omega⟩

theorem skipString_of_string {s : String} (hstring : string.Answers cursor s after) :
    skipString.Answers cursor () after ∧ after.rest.length < cursor.rest.length := by
  simp only [string, skipString, answers_bind_iff, answers_remaining_iff] at hstring ⊢
  obtain ⟨steps, _, ⟨rfl, rfl⟩, hbody⟩ := hstring
  obtain ⟨hskip, hless⟩ := skipStringBody_of_stringBody hbody (Nat.lt_succ_self _)
  exact ⟨⟨_, _, ⟨rfl, rfl⟩, hskip⟩, hless⟩

/-- A reader never moves the cursor back. -/
def Advances (reader : Reader α) : Prop :=
  ∀ cursor value after, reader.Answers cursor value after →
    after.rest.length ≤ cursor.rest.length

theorem advances_of_not_answers {reader : Reader α}
    (hreader : ∀ {cursor value after}, reader.Answers cursor value after ↔ False) :
    reader.Advances := fun _ _ _ hvalue => (hreader.1 hvalue).elim

theorem advances_pure (value : α) : (pure value : Reader α).Advances := by
  intro cursor other after hother
  obtain ⟨rfl, -⟩ := answers_pure_iff.1 hother
  exact Nat.le_refl _

theorem Advances.bind {reader : Reader α} {next : α → Reader β} (hreader : reader.Advances)
    (hnext : ∀ value, (next value).Advances) : (reader >>= next).Advances := by
  intro cursor value after hvalue
  obtain ⟨found, between, hfound, hvalue⟩ := answers_bind_iff.1 hvalue
  exact Nat.le_trans (hnext found between value after hvalue) (hreader cursor found between hfound)

theorem advances_peek : peek.Advances := by
  intro cursor next after hnext
  obtain ⟨rfl, -⟩ := answers_peek_iff.1 hnext
  exact Nat.le_refl _

theorem advances_advance : advance.Advances := by
  intro cursor next after hnext
  rw [answers_advance_iff.1 hnext]
  exact cursor.length_next_le

theorem advances_digits : digits.Advances := by
  intro cursor next after hnext
  rw [(answers_digits_iff.1 hnext).1]
  exact Cursor.length_skipList_le _ _ _

theorem advances_word (letters : List Char) : (word letters).Advances := by
  induction letters with
  | nil => exact advances_pure ()
  | cons c letters ih =>
      refine advances_peek.bind fun next => ?_
      split
      · exact advances_of_not_answers answers_failHere_iff
      · split
        · exact advances_advance.bind fun _ => ih
        · exact advances_of_not_answers answers_failNext_iff

theorem advances_skipUnsigned : skipUnsigned.Advances := by
  have hdigits : (do let _ ← digits : Reader Unit).Advances :=
    advances_digits.bind fun _ => advances_pure ()
  refine advances_peek.bind fun next => ?_
  split
  · exact (advances_of_not_answers answers_failHere_iff).bind fun _ => hdigits
  · dsimp only
    split
    · exact (advances_of_not_answers answers_failNext_iff).bind fun _ => hdigits
    · exact hdigits

theorem advances_skipExponent : skipExponent.Advances := by
  rw [skipExponent_eq]
  refine advances_advance.bind fun _ => advances_peek.bind fun sign => ?_
  dsimp only
  split
  · exact advances_advance.bind fun _ => advances_skipUnsigned
  · exact advances_skipUnsigned

theorem advances_skipLetter : skipLetter.Advances := by
  refine advances_peek.bind fun next => ?_
  split
  · exact advances_skipExponent
  · exact advances_skipExponent
  · exact advances_pure ()

theorem advances_skipFraction : skipFraction.Advances := by
  refine advances_peek.bind fun next => ?_
  split
  · refine advances_advance.bind fun _ => advances_digits.bind fun found => ?_
    dsimp only
    split
    · exact (advances_of_not_answers answers_failNext_iff).bind fun _ => advances_skipLetter
    · exact advances_skipLetter
  · exact advances_skipExponent
  · exact advances_skipExponent
  · exact advances_pure ()

theorem Answers.length_le_of_closeList (hclose : closeList.Answers cursor () after) :
    after.rest.length ≤ cursor.rest.length := by
  rw [hclose.list_closed.2]
  exact Nat.le_trans cursor.token.length_next_le cursor.length_token_le

theorem Answers.length_le_of_closeObject (hclose : closeObject.Answers cursor () after) :
    after.rest.length ≤ cursor.rest.length := by
  rw [hclose.object_closed.2]
  exact Nat.le_trans cursor.token.length_next_le cursor.length_token_le

theorem length_lt_of_skipNumber (hskip : skipNumber.Answers cursor () after) :
    after.rest.length < cursor.rest.length := by
  rw [skipNumber, answers_bind_iff] at hskip
  obtain ⟨next, cursor, hpeek, hskip⟩ := hskip
  obtain ⟨rfl, hnext⟩ := answers_peek_iff.1 hpeek
  split at hskip
  · simp at hskip
  · have hzero := Cursor.length_next_of_head hnext
    simp only [answers_bind_iff, answers_advance_iff] at hskip
    obtain ⟨⟨⟩, _, rfl, behind, _, hpeek, hskip⟩ := hskip
    obtain ⟨rfl, -⟩ := answers_peek_iff.1 hpeek
    split at hskip
    · rw [(answers_pure_iff.1 hskip).1]
      omega
    · split at hskip
      · simp at hskip
      · have := advances_skipFraction _ _ _ hskip
        omega
  · rename_i c hzero
    split at hskip
    · simp at hskip
    · rename_i hdigit
      rw [answers_bind_iff] at hskip
      obtain ⟨found, _, hdigits, hskip⟩ := hskip
      obtain ⟨rfl, -⟩ := answers_digits_iff.1 hdigits
      have hfraction := advances_skipFraction _ _ _ hskip
      have hstrict := Cursor.length_skipWhile_lt hnext (by simpa using hdigit : c.isDigit = true)
      omega

theorem Answers.length_le_of_colon (hcolon : colon.Answers cursor () after) :
    after.rest.length ≤ cursor.rest.length := by
  rw [hcolon.colon_after]
  exact Nat.le_trans cursor.token.length_next_le cursor.length_token_le

/-- A value that can be read takes up some of the text, and can be skipped to the same place. -/
def Skippable (item : Reader α) : Prop :=
  ∀ {cursor value after}, item.Answers cursor value after →
    after.rest.length < cursor.token.rest.length ∧
      ∀ {start : Cursor} {fuel : Nat}, start.token = cursor.token →
        2 * cursor.token.rest.length ≤ fuel → (skipValue fuel).Answers start () after

/-- How skipping goes on where reading does. -/
theorem Turn.separator (bracket : Bracket) {starts : Char → Prop} {isFirst more : Bool}
    (hturn : Turn bracket.closing starts cursor isFirst more after)
    (hstarts : ∀ c, starts c → c ≠ bracket.closing) :
    ∃ start, (skipSeparator bracket !isFirst).Answers cursor (!more) start ∧
      (more = true → start.token = after ∧ after.token = after) ∧
      (more = false → start = after.next) := by
  have hcomma : bracket.closing ≠ ',' := by cases bracket <;> decide
  simp only [skipSeparator, answers_bind_iff]
  cases hturn with
  | closes hhead =>
      refine ⟨cursor.token.next, ⟨_, _, answers_peekToken_iff.2 ⟨rfl, hhead⟩, ?_⟩, by simp⟩
      simp [hcomma]
  | opens hhead hc =>
      refine ⟨cursor.token, ⟨_, _, answers_peekToken_iff.2 ⟨rfl, hhead⟩, ?_⟩, by simp⟩
      simp [hstarts _ hc]
  | comma hhead hbehind hc =>
      refine ⟨cursor.token.next, ⟨_, _, answers_peekToken_iff.2 ⟨rfl, hhead⟩, ?_⟩, by simp⟩
      simp

theorem Turn.length_le {closing : Char} {starts : Char → Prop} {isFirst more : Bool}
    (hturn : Turn closing starts cursor isFirst more after) :
    after.rest.length ≤ cursor.rest.length := by
  have htoken := cursor.length_token_le
  cases hturn with
  | closes => exact htoken
  | opens => exact htoken
  | comma =>
      have hnext := cursor.token.length_next_le
      have hbehind := cursor.token.next.length_token_le
      omega

/-- A list is skipped to its closing bracket. -/
theorem skipRest_of_items {item : Reader α} (hitem : item.Skippable) {isFirst : Bool}
    {values : List α} {inside : Cursor} (hitems : Items item isFirst cursor values inside)
    (hclose : closeList.Answers inside () after) :
    inside.rest.length ≤ cursor.rest.length ∧
      ∀ {fuel : Nat}, 2 * cursor.rest.length < fuel →
        (skipRest fuel .list !isFirst).Answers cursor () after := by
  induction hitems with
  | done hnext =>
      refine ⟨hnext.item_turn.length_le, fun {fuel} hfuel => ?_⟩
      obtain ⟨left, rfl⟩ : ∃ left, fuel = left + 1 := ⟨fuel - 1, by omega⟩
      obtain ⟨start, hseparator, -, hstart⟩ :=
        Turn.separator .list hnext.item_turn fun _ hc => hc
      cases hnext.item_turn with
      | closes =>
          obtain ⟨-, rfl⟩ := hclose.list_closed
          rw [skipRest, answers_bind_iff]
          exact ⟨_, _, hseparator, by simp [hstart rfl]⟩
  | more hnext hvalue hrest ih =>
      obtain ⟨hinside, hskipRest⟩ := ih hclose
      have hnextLength := hnext.item_turn.length_le
      obtain ⟨hless, hskip⟩ := hitem hvalue
      obtain ⟨from', hseparator, hfrom, -⟩ :=
        Turn.separator .list hnext.item_turn fun _ hc => hc
      obtain ⟨hsame, htoken⟩ := hfrom rfl
      rw [htoken] at hless hskip
      refine ⟨by omega, fun {fuel} hfuel => ?_⟩
      obtain ⟨left, rfl⟩ : ∃ left, fuel = left + 1 := ⟨fuel - 1, by omega⟩
      rw [skipRest, answers_bind_iff]
      refine ⟨_, _, hseparator, ?_⟩
      simp only [Bool.not_true, Bool.false_eq_true, if_false, reduceCtorEq, answers_bind_iff]
      exact ⟨(), _, hskip hsame (by omega), hskipRest (by omega)⟩

/-- An object is skipped to its closing bracket. -/
theorem skipRest_of_members {item : Reader α} (hitem : item.Skippable) {isFirst : Bool}
    {entries : List (String × α)} {inside : Cursor}
    (hmembers : Members item isFirst cursor entries inside)
    (hclose : closeObject.Answers inside () after) :
    inside.rest.length ≤ cursor.rest.length ∧
      ∀ {fuel : Nat}, 2 * cursor.rest.length < fuel →
        (skipRest fuel .object !isFirst).Answers cursor () after := by
  have hquote : ∀ c, c = '"' → c ≠ Bracket.object.closing := by
    rintro c rfl
    decide
  induction hmembers with
  | done hnext =>
      refine ⟨hnext.member_turn.length_le, fun {fuel} hfuel => ?_⟩
      obtain ⟨left, rfl⟩ : ∃ left, fuel = left + 1 := ⟨fuel - 1, by omega⟩
      obtain ⟨start, hseparator, -, hstart⟩ :=
        Turn.separator .object hnext.member_turn hquote
      cases hnext.member_turn with
      | closes =>
          obtain ⟨-, rfl⟩ := hclose.object_closed
          rw [skipRest, answers_bind_iff]
          exact ⟨_, _, hseparator, by simp [hstart rfl]⟩
  | @more _ cursor start named colons between after name value rest hnext hkey hcolon hvalue hrest
      ih =>
      obtain ⟨hinside, hskipRest⟩ := ih hclose
      have hnextLength := hnext.member_turn.length_le
      obtain ⟨hless, hskip⟩ := hitem hvalue
      obtain ⟨gap, hseparator, hgap, -⟩ :=
        Turn.separator .object hnext.member_turn hquote
      obtain ⟨hsame, htoken⟩ := hgap rfl
      obtain ⟨c, hhead, rfl⟩ := hnext.member_turn.exists_head
      have hstart := Cursor.length_next_of_head hhead
      simp only [key, answers_bind_iff, answers_advance_iff] at hkey
      obtain ⟨⟨⟩, _, rfl, hstring⟩ := hkey
      obtain ⟨hskipString, hnamed⟩ := skipString_of_string hstring
      have hcolonLength := hcolon.length_le_of_colon
      have hcolonsLength := colons.length_token_le
      have hskipKey : skipKey.Answers gap () colons := by
        rw [skipKey, answers_bind_iff]
        refine ⟨_, _, answers_peekToken_iff.2 ⟨hsame.symm, by rw [hsame, hhead]⟩, ?_⟩
        simp only [answers_bind_iff, answers_advance_iff]
        exact ⟨(), _, rfl, (), _, hskipString, hcolon⟩
      refine ⟨by omega, fun {fuel} hfuel => ?_⟩
      obtain ⟨left, rfl⟩ : ∃ left, fuel = left + 1 := ⟨fuel - 1, by omega⟩
      rw [skipRest, answers_bind_iff]
      refine ⟨_, _, hseparator, ?_⟩
      simp only [Bool.not_true, Bool.false_eq_true, if_false, if_true, answers_bind_iff]
      exact ⟨(), _, hskipKey, (), _, hskip rfl (by omega), hskipRest (by omega)⟩

/-- A value is skipped to where reading it leads. -/
theorem skippable_value (depth : Nat) : (value depth).Skippable := by
  induction depth using Nat.strongRecOn with
  | ind depth ih =>
      intro cursor json after hvalue
      obtain ⟨c, hhead, hbegins⟩ := hvalue.begins
      have hstart := Cursor.length_next_of_head hhead
      refine ⟨?_, fun {start fuel} hsame hfuel => ?_⟩
      · cases hbegins with
        | null hword => exact Nat.lt_of_le_of_lt (advances_word _ _ _ _ hword) (by omega)
        | true hword => exact Nat.lt_of_le_of_lt (advances_word _ _ _ _ hword) (by omega)
        | false hword => exact Nat.lt_of_le_of_lt (advances_word _ _ _ _ hword) (by omega)
        | negative hnumber =>
            have hless := length_lt_of_skipNumber (skipNumber_of_number hnumber)
            omega
        | number _ hnumber => exact length_lt_of_skipNumber (skipNumber_of_number hnumber)
        | string hstring =>
            have hless := (skipString_of_string hstring).2
            omega
        | array hdepth hitems _ hclose =>
            have hinside := (skipRest_of_items (ih _ (by omega)) hitems hclose).1
            have hend := hclose.length_le_of_closeList
            omega
        | object hdepth hmembers _ hclose =>
            have hinside := (skipRest_of_members (ih _ (by omega)) hmembers hclose).1
            have hend := hclose.length_le_of_closeObject
            omega
      · obtain ⟨left, rfl⟩ : ∃ left, fuel = left + 1 := ⟨fuel - 1, by omega⟩
        rw [skipValue, answers_bind_iff]
        refine ⟨_, _, answers_peekToken_iff.2 ⟨hsame.symm, by rw [hsame, hhead]⟩, ?_⟩
        cases hbegins with
        | null hword => exact answers_bind_iff.2 ⟨(), _, answers_advance_iff.2 rfl, hword⟩
        | true hword => exact answers_bind_iff.2 ⟨(), _, answers_advance_iff.2 rfl, hword⟩
        | false hword => exact answers_bind_iff.2 ⟨(), _, answers_advance_iff.2 rfl, hword⟩
        | negative hnumber =>
            exact answers_bind_iff.2
              ⟨(), _, answers_advance_iff.2 rfl, skipNumber_of_number hnumber⟩
        | number hdigit hnumber =>
            have hskip := skipNumber_of_number hnumber
            split <;> simp_all
        | string hstring =>
            exact answers_bind_iff.2
              ⟨(), _, answers_advance_iff.2 rfl, (skipString_of_string hstring).1⟩
        | array hdepth hitems _ hclose =>
            obtain ⟨-, hskip⟩ := skipRest_of_items (ih _ (by omega)) hitems hclose
            exact answers_bind_iff.2 ⟨(), _, answers_advance_iff.2 rfl, hskip (by omega)⟩
        | object hdepth hmembers _ hclose =>
            obtain ⟨-, hskip⟩ := skipRest_of_members (ih _ (by omega)) hmembers hclose
            exact answers_bind_iff.2 ⟨(), _, answers_advance_iff.2 rfl, hskip (by omega)⟩

theorem skip_of_value {depth : Nat} {json : Json}
    (hvalue : (value depth).Answers cursor json after) : skip.Answers cursor () after := by
  obtain ⟨-, hskip⟩ := skippable_value depth hvalue
  have htoken := cursor.length_token_le
  rw [skip, answers_bind_iff]
  exact ⟨_, _, answers_remaining_iff.2 ⟨rfl, rfl⟩, hskip rfl (by omega)⟩

end StackBridge.Json.Reader
