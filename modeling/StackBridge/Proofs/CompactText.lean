/-
The compact text of a value is read as that value, if its numbers are whole and it is not nested too
deep. A reader that takes up a text leaves the cursor behind it, whatever follows there, as long as
no number is prolonged.
-/
import StackBridge.Proofs.Digits
import StackBridge.Proofs.Spacing

namespace StackBridge.Json

mutual

/-- How many lists and objects stand inside each other at the most. -/
def depth : Json → Nat
  | .array items => depthItems items + 1
  | .object members => depthMembers members + 1
  | .null | .bool _ | .number _ | .string _ => 0

def depthItems : List Json → Nat
  | [] => 0
  | item :: rest => max item.depth (depthItems rest)

def depthMembers : List (String × Json) → Nat
  | [] => 0
  | member :: rest => max member.2.depth (depthMembers rest)

end

mutual

/-- Whether all numbers within a value are whole. -/
def isWhole : Json → Bool
  | .number (.float _) => false
  | .array items => areItemsWhole items
  | .object members => areMembersWhole members
  | .null | .bool _ | .number (.whole _) | .string _ => true

def areItemsWhole : List Json → Bool
  | [] => true
  | item :: rest => item.isWhole && areItemsWhole rest

def areMembersWhole : List (String × Json) → Bool
  | [] => true
  | member :: rest => member.2.isWhole && areMembersWhole rest

end

namespace Reader

variable {α β : Type} {reader : Reader α} {text rest : List Char} {c : Char}

/-- Whether a reader takes up a text, with something behind it, and answers a value. -/
def Takes (reader : Reader α) (text rest : List Char) (value : α) : Prop :=
  ∀ place, ∃ after, reader.Answers ⟨text ++ rest, place⟩ value ⟨rest, after⟩

theorem takes_pure (value : α) (rest : List Char) : (pure value : Reader α).Takes [] rest value :=
  fun place => ⟨place, answers_pure_iff.2 ⟨rfl, rfl⟩⟩

/-- Readers take one text after the other. -/
theorem Takes.bind {first second : List Char} {found : α} {next : α → Reader β} {value : β}
    (hfound : reader.Takes first (second ++ rest) found)
    (hvalue : (next found).Takes second rest value) :
    (reader >>= next).Takes (first ++ second) rest value := by
  intro place
  obtain ⟨between, hfirst⟩ := hfound place
  obtain ⟨after, hsecond⟩ := hvalue between
  refine ⟨after, ?_⟩
  rw [List.append_assoc, hfirst.bind_iff]
  exact hsecond

/-- What follows a reader need not take up anything. -/
theorem Takes.last {found : α} (hfound : reader.Takes text rest found) {next : α → Reader β}
    {value : β} (hnext : next found = pure value) : (reader >>= next).Takes text rest value := by
  have hvalue : (next found).Takes [] rest value := hnext ▸ takes_pure value rest
  simpa using hfound.bind hvalue

/-- A reader that first moves on takes up one character more. -/
theorem Takes.behind {next : Unit → Reader β} {value : β} (hvalue : (next ()).Takes text rest value)
    (c : Char) : (advance >>= next).Takes (c :: text) rest value := by
  have hadvance : advance.Takes [c] (text ++ rest) () :=
    fun place => ⟨place.after c, answers_advance_iff.2 rfl⟩
  exact hadvance.bind hvalue

theorem Takes.peeked {next : Option Char → Reader β} {value : β}
    (hvalue : (next (text ++ rest).head?).Takes text rest value) :
    (peek >>= next).Takes text rest value := by
  intro place
  obtain ⟨after, hnext⟩ := hvalue place
  exact ⟨after, (((@answers_peek_iff _ _ _).2 ⟨rfl, rfl⟩).bind_iff).2 hnext⟩

theorem Takes.counted {next : Nat → Reader β} {value : β}
    (hvalue : (next ((text ++ rest).length + 1)).Takes text rest value) :
    (remaining >>= next).Takes text rest value := by
  intro place
  obtain ⟨after, hnext⟩ := hvalue place
  exact ⟨after, (((@answers_remaining_iff _ _ _).2 ⟨rfl, rfl⟩).bind_iff).2 hnext⟩

theorem takes_word (letters rest : List Char) : (word letters).Takes letters rest () := by
  induction letters with
  | nil => exact takes_pure () rest
  | cons letter letters ih =>
      rw [word]
      apply Takes.peeked
      simp only [List.cons_append, List.head?_cons, if_true]
      exact ih.behind letter

theorem hexValue?_hexDigit {n : Nat} (hn : n < 16) : hexValue? (hexDigit n) = some n := by
  revert n
  decide

/-- A control character is read from the last two digits of its escape. -/
theorem takes_hexEscape {n : Nat} (hn : n < 256) (rest : List Char) :
    hexEscape.Takes ['0', '0', hexDigit (n / 16), hexDigit (n % 16)] rest n := by
  have hquad : hexQuad? ['0', '0', hexDigit (n / 16), hexDigit (n % 16)] = some n := by
    have hzero : hexValue? '0' = some 0 := by decide
    simp only [hexQuad?, hzero, hexValue?_hexDigit (show n / 16 < 16 by omega),
      hexValue?_hexDigit (show n % 16 < 16 by omega)]
    exact congrArg some (by omega)
  have htaken : (do
      advance
      advance
      advance
      advance
      return n : Reader Nat).Takes ['0', '0', hexDigit (n / 16), hexDigit (n % 16)] rest n :=
    ((((takes_pure n rest).behind _).behind _).behind _).behind _
  intro place
  obtain ⟨after, hafter⟩ := htaken place
  refine ⟨after, ?_⟩
  rw [hexEscape, (answers_get_iff.2 ⟨rfl, rfl⟩).bind_iff]
  simp only [List.cons_append, List.nil_append, List.take_succ_cons, List.take_zero, hquad]
  exact hafter

theorem takes_simpleEscape {meaning : Char} (hmeaning : escape.simpleEscape? c = some meaning)
    (rest : List Char) : escape.Takes [c] rest meaning := by
  rw [escape]
  apply Takes.peeked
  simp only [List.cons_append, List.head?_cons]
  split
  · rename_i hnone
    cases hnone
  · rename_i hletter
    cases hletter
    cases hmeaning
  · rename_i d _ hd
    cases hd
    rw [hmeaning]
    exact (takes_pure meaning rest).behind c

/-- A character is written behind a backslash as a letter or as a number, or it stands as it is. -/
theorem escapeChar_cases (c : Char) :
    (∃ letter, escapeChar c = ['\\', letter] ∧ escape.simpleEscape? letter = some c) ∨
      (c.toNat < 32 ∧ escapeChar c =
        ['\\', 'u', '0', '0', hexDigit (c.toNat / 16), hexDigit (c.toNat % 16)]) ∨
      escapeChar c = [c] ∧ c ≠ '"' ∧ c ≠ '\\' ∧ ¬ c.toNat < 32 := by
  have hsame : ∀ {n : Nat}, c.toNat = n → some (Char.ofNat n) = some c := by
    rintro n rfl
    rw [Char.ofNat_toNat]
  unfold escapeChar
  split_ifs with hquote hslash hback hfeed hline hreturn htab hcontrol
  · exact Or.inl ⟨_, rfl, congrArg some hquote.symm⟩
  · exact Or.inl ⟨_, rfl, congrArg some hslash.symm⟩
  · exact Or.inl ⟨_, rfl, hsame hback⟩
  · exact Or.inl ⟨_, rfl, hsame hfeed⟩
  · exact Or.inl ⟨_, rfl, congrArg some hline.symm⟩
  · exact Or.inl ⟨_, rfl, congrArg some hreturn.symm⟩
  · exact Or.inl ⟨_, rfl, congrArg some htab.symm⟩
  · exact Or.inr (Or.inl ⟨hcontrol, rfl⟩)
  · exact Or.inr (Or.inr ⟨rfl, hquote, hslash, hcontrol⟩)

theorem takes_controlEscape (hcontrol : c.toNat < 32) (rest : List Char) :
    escape.Takes ['u', '0', '0', hexDigit (c.toNat / 16), hexDigit (c.toNat % 16)] rest c := by
  have hcode : unicodeEscape.Takes ['0', '0', hexDigit (c.toNat / 16), hexDigit (c.toNat % 16)]
      rest c := by
    refine (takes_hexEscape (show c.toNat < 256 by omega) rest).last ?_
    have hlow : ¬ (0xdc00 ≤ c.toNat ∧ c.toNat ≤ 0xdfff) := by omega
    have hsingle : c.toNat < 0xd800 ∨ 0xdbff < c.toNat := by omega
    simp only [Bool.and_eq_true, decide_eq_true_eq, Bool.or_eq_true, if_neg hlow, if_pos hsingle,
      Char.ofNat_toNat]
  rw [escape]
  apply Takes.peeked
  exact hcode.behind 'u'

/-- What is written for a character is taken up in one step. -/
theorem takes_escapeChar {steps : Nat} {read : List Char} {value : String}
    (hvalue : (stringBody steps (c :: read)).Takes text rest value) :
    (stringBody (steps + 1) read).Takes (escapeChar c ++ text) rest value := by
  rw [stringBody]
  apply Takes.peeked
  rcases escapeChar_cases c with ⟨letter, hchars, hletter⟩ | ⟨hcontrol, hchars⟩ |
    ⟨hchars, hquote, hslash, hcontrol⟩
  · rw [hchars]
    exact ((takes_simpleEscape hletter _).bind hvalue).behind '\\'
  · rw [hchars]
    exact ((takes_controlEscape hcontrol _).bind hvalue).behind '\\'
  · rw [hchars]
    simp only [List.cons_append, List.nil_append, List.head?_cons]
    rw [if_neg hcontrol]
    exact hvalue.behind c

/-- A string is read back from its escaped characters. -/
theorem takes_stringBody (letters read rest : List Char) {steps : Nat}
    (hsteps : letters.length < steps) :
    (stringBody steps read).Takes (letters.flatMap escapeChar ++ ['"']) rest
      (String.ofList (read.reverse ++ letters)) := by
  induction letters generalizing steps read with
  | nil =>
      obtain ⟨steps, rfl⟩ : ∃ left, steps = left + 1 := ⟨steps - 1, by simp at hsteps; omega⟩
      rw [stringBody]
      apply Takes.peeked
      rw [List.append_nil]
      exact (takes_pure (String.ofList read.reverse) rest).behind '"'
  | cons letter letters ih =>
      obtain ⟨steps, rfl⟩ : ∃ left, steps = left + 1 := ⟨steps - 1, by omega⟩
      have hbehind := ih (letter :: read) (Nat.lt_of_succ_lt_succ hsteps)
      rw [List.reverse_cons, List.append_assoc] at hbehind
      rw [List.flatMap_cons, List.append_assoc]
      exact takes_escapeChar hbehind

theorem escapeChar_ne_nil (letter : Char) : escapeChar letter ≠ [] := by
  rcases escapeChar_cases letter with ⟨_, hchars, _⟩ | ⟨_, hchars⟩ | ⟨hchars, _⟩ <;>
    simp [hchars]

/-- A string is taken up behind its opening quote. -/
theorem takes_string (s : String) (rest : List Char) :
    string.Takes (s.toList.flatMap escapeChar ++ ['"']) rest s := by
  rw [string]
  apply Takes.counted
  have hsteps : s.toList.length < (s.toList.flatMap escapeChar ++ ['"'] ++ rest).length + 1 := by
    have hlength := length_le_flatMap escapeChar_ne_nil s.toList
    simp only [List.length_append]
    omega
  have hbody := takes_stringBody s.toList [] rest hsteps
  rwa [List.reverse_nil, List.nil_append, String.ofList_toList] at hbody

theorem takes_key (s : String) (rest : List Char) : key.Takes (stringChars s) rest s :=
  (takes_string s rest).behind '"'

/-- What may stand behind a number. -/
def Ends (rest : List Char) : Prop :=
  ∀ c, rest.head? = some c → isWordy c = false

theorem takes_digits {found : List Char} (hfound : ∀ c ∈ found, c.isDigit = true)
    (hrest : ∀ c, rest.head? = some c → c.isDigit = false) : digits.Takes found rest found := by
  have hskip : ∀ place, ∃ after,
      Cursor.skipList Char.isDigit place (found ++ rest) = ⟨rest, after⟩ := by
    induction found with
    | nil =>
        intro place
        cases hcases : rest with
        | nil => exact ⟨place, rfl⟩
        | cons c rest =>
            exact ⟨place, Cursor.skipList_cons_of_neg (hrest c (by rw [hcases]; rfl)) place rest⟩
    | cons c found ih =>
        intro place
        obtain ⟨hc, hbehind⟩ := List.forall_mem_cons.1 hfound
        obtain ⟨after, hafter⟩ := ih hbehind (place.after c)
        exact ⟨after, (Cursor.skipList_cons_of_pos hc place (found ++ rest)).trans hafter⟩
  have htaken : (found ++ rest).takeWhile Char.isDigit = found := by
    rw [List.takeWhile_append_of_pos hfound]
    cases hcases : rest with
    | nil => simp
    | cons c rest => simp [hrest c (by rw [hcases]; rfl)]
  intro place
  obtain ⟨after, hafter⟩ := hskip place
  exact ⟨after, answers_digits_iff.2 ⟨hafter.symm, htaken⟩⟩

theorem digitValue_digitChar {n : Nat} (hn : n < 10) : digitValue (Nat.digitChar n) = n := by
  revert n
  decide

/-- Digits that fit are gathered before those behind them are looked at. -/
theorem gather_append {limit value found : Nat} {front : List Char}
    (hfront : gather limit value front = (found, [])) (back : List Char) :
    gather limit value (front ++ back) = gather limit found back := by
  induction front generalizing value with
  | nil =>
      cases hfront
      rfl
  | cons c front ih =>
      rw [gather] at hfront
      split at hfront
      · rename_i hfits
        rw [List.cons_append, gather, if_pos hfits]
        exact ih hfront
      · cases hfront

/-- The digits of a number are gathered into the number. -/
theorem gather_natChars {limit n : Nat} (hn : n ≤ limit) :
    gather limit 0 (Decimal.natChars n) = (n, []) := by
  induction n using Nat.strongRecOn with
  | ind n ih =>
      rw [Decimal.natChars, Nat.toDigits_eq_if (by decide)]
      split
      · rename_i hsmall
        simp [gather, digitValue_digitChar hsmall, hn]
      · have hfront := ih (n / 10) (by omega) (by omega)
        have hlast := digitValue_digitChar (Nat.mod_lt n (show 0 < 10 by decide))
        have hsame : n / 10 * 10 + n % 10 = n := by omega
        rw [← Decimal.natChars, gather_append hfront]
        simp [gather, hlast, hsame, hn]

/-- Without a fraction and an exponent the digits are all there is of a number. -/
theorem takes_afterInteger (hrest : Ends rest) (negative : Bool) (n : Nat) :
    (afterInteger negative n 0).Takes [] rest (wholeNumber negative n) := by
  rw [afterInteger]
  apply Takes.peeked
  rw [List.nil_append]
  have hpoint := ne_of_end hrest (by decide : isWordy '.' = true)
  have hlower := ne_of_end hrest (by decide : isWordy 'e' = true)
  have hupper := ne_of_end hrest (by decide : isWordy 'E' = true)
  split
  · contradiction
  · contradiction
  · contradiction
  · exact takes_pure _ rest

/-- A natural number is taken up behind its sign. -/
theorem takes_number {n : Nat} (hn : n ≤ maxSignificand) (negative : Bool) (hrest : Ends rest) :
    (number negative).Takes (Decimal.natChars n) rest (wholeNumber negative n) := by
  have hends : ∀ c, rest.head? = some c → c.isDigit = false := not_isDigit_of_end hrest
  rw [number]
  apply Takes.peeked
  by_cases hzero : n = 0
  · subst hzero
    apply Takes.behind _ '0'
    apply Takes.peeked
    split
    · rename_i c hc
      rw [if_neg (by simp [hends c hc])]
      exact takes_afterInteger hrest negative 0
    · exact takes_afterInteger hrest negative 0
  · obtain ⟨c, tail, hchars, hdigit, hc⟩ := natChars_eq_cons n
    have hdigits : ∀ d ∈ Decimal.natChars n, d.isDigit = true := fun d => isDigit_of_mem_natChars
    have hhead : (Decimal.natChars n ++ rest).head? = some c := by rw [hchars]; rfl
    rw [hhead]
    split
    · contradiction
    · rename_i hfirst
      exact absurd (hc (Option.some.inj hfirst)) hzero
    · rename_i d _ hfirst
      cases hfirst
      rw [if_pos hdigit]
      have hfound : digits.Takes (Decimal.natChars n) ([] ++ rest) (Decimal.natChars n) :=
        takes_digits hdigits hends
      rw [← List.append_nil (Decimal.natChars n)]
      refine hfound.bind ?_
      rw [gather_natChars hn]
      exact takes_afterInteger hrest negative n

/-- A value is read that begins with its character. -/
theorem answers_value_of_begins {depth : Nat} {cursor after : Cursor} {json : Json}
    (hhead : cursor.token.rest.head? = some c) (hbegins : Begins depth cursor.token after c json) :
    (value depth).Answers cursor json after := by
  rw [value_eq, valueOr, (answers_peekToken_iff.2 ⟨rfl, hhead⟩).bind_iff]
  cases hbegins with
  | null hword => simpa using ⟨(), hword⟩
  | true hword => simpa using ⟨(), hword⟩
  | false hword => simpa using ⟨(), hword⟩
  | negative hnumber => simpa using hnumber
  | string hstring => simpa using hstring
  | array hdepth hitems hcount hclose =>
      simp only [answers_deeper_iff, answers_bind_iff, answers_list_iff, answers_items_iff,
        answers_pure_iff]
      exact ⟨_, hdepth, _, _, ⟨_, ⟨hitems, hcount⟩, hclose⟩, rfl, rfl⟩
  | @object inner inside entries hdepth hmembers hcount hclose =>
      simp only [answers_deeper_iff, answers_bind_iff, answers_object_iff, answers_members_iff,
        answers_pure_iff]
      exact ⟨_, hdepth, entries.reverse, _, ⟨_, ⟨by simpa using hmembers, by simpa using hcount⟩,
        hclose⟩, rfl, by simp⟩
  | number hdigit hnumber =>
      split <;> rename_i hfirst
      case h_9 =>
        cases hfirst
        rw [if_pos hdigit]
        simpa using hnumber
      all_goals cases hfirst
      all_goals exact absurd hdigit (by decide)

theorem token_of_head {place : Place} (hblank : Cursor.isSpace c = false) :
    (⟨c :: rest, place⟩ : Cursor).token = ⟨c :: rest, place⟩ :=
  Cursor.skipList_cons_of_neg hblank place rest

/-- A value is taken up if it can be told from its first character. -/
theorem takes_value_of_begins {depth : Nat} {json : Json} (hblank : Cursor.isSpace c = false)
    (hbegins : ∀ place, ∃ after, Begins depth ⟨c :: text ++ rest, place⟩ ⟨rest, after⟩ c json) :
    (value depth).Takes (c :: text) rest json := by
  intro place
  obtain ⟨after, hafter⟩ := hbegins place
  have htoken : (⟨c :: text ++ rest, place⟩ : Cursor).token = ⟨c :: text ++ rest, place⟩ :=
    token_of_head hblank
  refine ⟨after, answers_value_of_begins ?_ (c := c) ?_⟩
  · rw [htoken]
    rfl
  · rw [htoken]
    exact hafter

/-- The number that is read from the digits of a whole number, behind its sign. -/
theorem wholeNumber_natAbs (n : Whole) :
    wholeNumber (decide (n.val < 0)) n.val.natAbs = .whole n := by
  have hval : Whole.ofInt? n.val = some n := dif_pos n.fits
  unfold wholeNumber
  by_cases hnegative : n.val < 0
  · have hpositive : n.val.natAbs ≠ 0 := by omega
    have hsame : -(n.val.natAbs : Int) = n.val := by omega
    rw [decide_eq_true hnegative, if_pos rfl, if_neg hpositive, hsame, hval]
  · have hsame : (n.val.natAbs : Int) = n.val := by omega
    rw [decide_eq_false hnegative, if_neg Bool.false_ne_true, hsame, hval]

/-- A whole number is read back from its text. -/
theorem takes_whole {depth : Nat} (hrest : Ends rest) (n : Whole) :
    (value depth).Takes (intChars n.val) rest (.number (.whole n)) := by
  have hfits := n.fits
  have hsize : n.val.natAbs ≤ maxSignificand := by
    unfold maxSignificand
    omega
  have hread := wholeNumber_natAbs n
  unfold intChars
  by_cases hnegative : n.val < 0
  · rw [if_pos hnegative, List.singleton_append]
    refine takes_value_of_begins (by decide) fun place => ?_
    obtain ⟨after, hnumber⟩ := takes_number hsize true hrest (place.after '-')
    rw [decide_eq_true hnegative] at hread
    exact ⟨after, .negative (hread ▸ hnumber)⟩
  · rw [if_neg hnegative, List.nil_append]
    obtain ⟨c, tail, hchars, hdigit, -⟩ := natChars_eq_cons n.val.natAbs
    have hblank : Cursor.isSpace c = false := isSpace_of_isWordy (isWordy_of_isDigit hdigit)
    rw [decide_eq_false hnegative] at hread
    rw [hchars]
    refine takes_value_of_begins hblank fun place => ?_
    obtain ⟨after, hnumber⟩ := takes_number hsize false hrest place
    rw [hchars, hread] at hnumber
    exact ⟨after, .number hdigit hnumber⟩

theorem answers_peekToken_cons (hblank : Cursor.isSpace c = false) (rest : List Char)
    (place : Place) : peekToken.Answers ⟨c :: rest, place⟩ (some c) ⟨c :: rest, place⟩ :=
  answers_peekToken_iff.2 (by rw [token_of_head hblank]; exact ⟨rfl, rfl⟩)

theorem answers_advance_cons (c : Char) (rest : List Char) (place : Place) :
    advance.Answers ⟨c :: rest, place⟩ () ⟨rest, place.after c⟩ :=
  answers_advance_iff.2 rfl

theorem answers_closeList (rest : List Char) (place : Place) :
    closeList.Answers ⟨']' :: rest, place⟩ () ⟨rest, place.after ']'⟩ := by
  rw [closeList, (answers_peekToken_cons (by decide) rest place).bind_iff]
  exact answers_advance_cons ']' rest place

theorem answers_closeObject (rest : List Char) (place : Place) :
    closeObject.Answers ⟨'\x7d' :: rest, place⟩ () ⟨rest, place.after '\x7d'⟩ := by
  rw [closeObject, (answers_peekToken_cons (by decide) rest place).bind_iff]
  exact answers_advance_cons '\x7d' rest place

theorem answers_colon (rest : List Char) (place : Place) :
    colon.Answers ⟨':' :: rest, place⟩ () ⟨rest, place.after ':'⟩ := by
  rw [colon, (answers_peekToken_cons (by decide) rest place).bind_iff]
  exact answers_advance_cons ':' rest place

theorem answers_nextItem_first (hblank : Cursor.isSpace c = false) (hc : c ≠ ']') (rest : List Char)
    (place : Place) :
    (nextItem true).Answers ⟨c :: rest, place⟩ true ⟨c :: rest, place⟩ := by
  rw [nextItem, (answers_peekToken_cons hblank rest place).bind_iff]
  simp

theorem answers_nextItem_comma (hblank : Cursor.isSpace c = false) (hc : c ≠ ']') (rest : List Char)
    (place : Place) :
    (nextItem false).Answers ⟨',' :: c :: rest, place⟩ true ⟨c :: rest, place.after ','⟩ := by
  rw [nextItem, (answers_peekToken_cons (by decide) (c :: rest) place).bind_iff]
  change (advance >>= _).Answers _ _ _
  rw [(answers_advance_cons ',' (c :: rest) place).bind_iff,
    (answers_peekToken_cons hblank rest _).bind_iff]
  simp

theorem answers_nextItem_closing (isFirst : Bool) (rest : List Char) (place : Place) :
    (nextItem isFirst).Answers ⟨']' :: rest, place⟩ false ⟨']' :: rest, place⟩ :=
  answers_nextItem_of_closing rfl

theorem answers_nextMember_first (rest : List Char) (place : Place) :
    (nextMember true).Answers ⟨'"' :: rest, place⟩ true ⟨'"' :: rest, place⟩ := by
  rw [nextMember, (answers_peekToken_cons (by decide) rest place).bind_iff]
  exact answers_pure_iff.2 ⟨rfl, rfl⟩

theorem answers_nextMember_comma (rest : List Char) (place : Place) :
    (nextMember false).Answers ⟨',' :: '"' :: rest, place⟩ true ⟨'"' :: rest, place.after ','⟩ := by
  rw [nextMember, (answers_peekToken_cons (by decide) ('"' :: rest) place).bind_iff]
  change (advance >>= _).Answers _ _ _
  rw [(answers_advance_cons ',' ('"' :: rest) place).bind_iff,
    (answers_peekToken_cons (by decide) rest _).bind_iff]
  exact answers_pure_iff.2 ⟨rfl, rfl⟩

theorem answers_nextMember_closing (isFirst : Bool) (rest : List Char) (place : Place) :
    (nextMember isFirst).Answers ⟨'\x7d' :: rest, place⟩ false ⟨'\x7d' :: rest, place⟩ := by
  rw [nextMember, (answers_peekToken_cons (by decide) rest place).bind_iff]
  exact answers_pure_iff.2 ⟨rfl, rfl⟩

/-- The text of an item, with those that follow it. -/
def itemsText (item : Json) (items : List Json) : List Char :=
  item.chars ++ charsItems items

theorem chars_items (item : Json) (items : List Json) :
    (Json.array (item :: items)).chars = '[' :: (itemsText item items ++ [']']) := by
  simp [chars, itemsText]

theorem charsItems_cons (item : Json) (items : List Json) :
    charsItems (item :: items) = ',' :: itemsText item items := by
  simp [charsItems, itemsText]

def membersText (member : String × Json) (members : List (String × Json)) : List Char :=
  stringChars member.1 ++ ':' :: (member.2.chars ++ charsMembers members)

theorem chars_members (member : String × Json) (members : List (String × Json)) :
    (Json.object (member :: members)).chars =
      '\x7b' :: (membersText member members ++ ['\x7d']) := by
  simp [chars, membersText]

theorem charsMembers_cons (member : String × Json) (members : List (String × Json)) :
    charsMembers (member :: members) = ',' :: membersText member members := by
  simp [charsMembers, membersText]

theorem ends_cons (hc : isWordy c = false) (rest : List Char) : Ends (c :: rest) := by
  rintro d hd
  cases hd
  exact hc

/-- Behind an item there is a comma or the closing bracket. -/
theorem ends_charsItems (items : List Json) (rest : List Char) :
    Ends (charsItems items ++ ']' :: rest) := by
  cases items with
  | nil => exact ends_cons (by decide) rest
  | cons item items => exact ends_cons (by decide) _

theorem ends_charsMembers (members : List (String × Json)) (rest : List Char) :
    Ends (charsMembers members ++ '\x7d' :: rest) := by
  cases members with
  | nil => exact ends_cons (by decide) rest
  | cons member members => exact ends_cons (by decide) _

/-- The text of a value begins neither with a blank nor with a closing bracket. -/
theorem chars_eq_cons {json : Json} (hwhole : json.isWhole = true) :
    ∃ c tail, json.chars = c :: tail ∧ Cursor.isSpace c = false ∧ c ≠ ']' := by
  cases json with
  | null => exact ⟨_, _, rfl, by decide, by decide⟩
  | bool b => cases b <;> exact ⟨_, _, rfl, by decide, by decide⟩
  | number n =>
      cases n with
      | whole n =>
          obtain ⟨c, tail, hchars, hdigit, -⟩ := natChars_eq_cons n.val.natAbs
          change ∃ c tail, intChars n.val = c :: tail ∧ _
          unfold intChars
          split
          · exact ⟨'-', _, rfl, by decide, by decide⟩
          · exact ⟨c, tail, hchars, isSpace_of_isWordy (isWordy_of_isDigit hdigit),
              ne_of_isDigit hdigit (by decide)⟩
      | float x => cases hwhole
  | string s => exact ⟨_, _, rfl, by decide, by decide⟩
  | array items => cases items <;> exact ⟨_, _, rfl, by decide, by decide⟩
  | object members => cases members <;> exact ⟨_, _, rfl, by decide, by decide⟩

/-- A list is taken up whose items are found up to its closing bracket. -/
theorem takes_array {depth : Nat} {items : List Json}
    (hitems : ∀ place, ∃ after, Items (value depth) true ⟨text ++ ']' :: rest, place⟩ items
      ⟨']' :: rest, after⟩) :
    (value (depth + 1)).Takes ('[' :: (text ++ [']'])) rest (.array items) := by
  refine takes_value_of_begins (by decide) fun place => ?_
  obtain ⟨inside, hinside⟩ := hitems (place.after '[')
  have hrest : '[' :: (text ++ [']']) ++ rest = '[' :: (text ++ ']' :: rest) := by simp
  rw [hrest]
  exact ⟨_, .array rfl hinside (hinside.length_le (skippable_value depth))
    (answers_closeList rest inside)⟩

/-- An object is taken up whose members are found up to its closing brace. -/
theorem takes_object {depth : Nat} {members : List (String × Json)}
    (hmembers : ∀ place, ∃ after, Members (value depth) true ⟨text ++ '\x7d' :: rest, place⟩ members
      ⟨'\x7d' :: rest, after⟩) :
    (value (depth + 1)).Takes ('\x7b' :: (text ++ ['\x7d'])) rest (.object members) := by
  refine takes_value_of_begins (by decide) fun place => ?_
  obtain ⟨inside, hinside⟩ := hmembers (place.after '\x7b')
  have hrest : '\x7b' :: (text ++ ['\x7d']) ++ rest = '\x7b' :: (text ++ '\x7d' :: rest) := by
    simp
  rw [hrest]
  exact ⟨_, .object rfl hinside (hinside.length_le (skippable_value depth))
    (answers_closeObject rest inside)⟩

/-- An item that is taken up comes before those that are found behind it. -/
theorem items_cons {depth : Nat} {isFirst : Bool} {cursor : Cursor} {place : Place} {item : Json}
    {items : List Json} (hnext : (nextItem isFirst).Answers cursor true ⟨item.chars ++ text, place⟩)
    (hitem : (value depth).Takes item.chars text item)
    (hitems : ∀ place, ∃ after, Items (value depth) false ⟨text, place⟩ items ⟨rest, after⟩) :
    ∃ after, Items (value depth) isFirst cursor (item :: items) ⟨rest, after⟩ := by
  obtain ⟨between, hvalue⟩ := hitem place
  obtain ⟨after, hbehind⟩ := hitems between
  exact ⟨after, .more hnext hvalue hbehind⟩

/-- A member whose value is taken up comes before those that are found behind it. -/
theorem members_cons {depth : Nat} {isFirst : Bool} {cursor : Cursor} {place : Place}
    {member : String × Json} {members : List (String × Json)}
    (hnext : (nextMember isFirst).Answers cursor true
      ⟨stringChars member.1 ++ ':' :: (member.2.chars ++ text), place⟩)
    (hmember : (value depth).Takes member.2.chars text member.2)
    (hmembers : ∀ place, ∃ after, Members (value depth) false ⟨text, place⟩ members
      ⟨rest, after⟩) :
    ∃ after, Members (value depth) isFirst cursor (member :: members) ⟨rest, after⟩ := by
  obtain ⟨named, hkey⟩ := takes_key member.1 (':' :: (member.2.chars ++ text)) place
  obtain ⟨between, hvalue⟩ := hmember (named.after ':')
  obtain ⟨after, hbehind⟩ := hmembers between
  exact ⟨after, .more hnext hkey (answers_colon _ named) hvalue hbehind⟩

mutual

/-- The text of a value is taken up as the value. -/
theorem takes_value {depth : Nat} {rest : List Char} (hrest : Ends rest) :
    (json : Json) → json.depth ≤ depth → json.isWhole = true →
      (value depth).Takes json.chars rest json
  | .null, _, _ => by
      refine takes_value_of_begins (by decide) fun place => ?_
      obtain ⟨after, hword⟩ := takes_word ['u', 'l', 'l'] rest (place.after 'n')
      exact ⟨after, .null hword⟩
  | .bool true, _, _ => by
      refine takes_value_of_begins (by decide) fun place => ?_
      obtain ⟨after, hword⟩ := takes_word ['r', 'u', 'e'] rest (place.after 't')
      exact ⟨after, .true hword⟩
  | .bool false, _, _ => by
      refine takes_value_of_begins (by decide) fun place => ?_
      obtain ⟨after, hword⟩ := takes_word ['a', 'l', 's', 'e'] rest (place.after 'f')
      exact ⟨after, .false hword⟩
  | .number (.whole n), _, _ => takes_whole hrest n
  | .number (.float x), _, hwhole => by cases hwhole
  | .string s, _, _ => by
      refine takes_value_of_begins (by decide) fun place => ?_
      obtain ⟨after, hstring⟩ := takes_string s rest (place.after '"')
      exact ⟨after, .string hstring⟩
  | .array [], hdepth, _ => by
      cases depth with
      | zero => cases hdepth
      | succ depth =>
          have hitems : ∀ place, ∃ after, Items (value depth) true ⟨[] ++ ']' :: rest, place⟩ []
              ⟨']' :: rest, after⟩ :=
            fun place => ⟨place, .done (answers_nextItem_closing true rest place)⟩
          exact takes_array hitems
  | .array (item :: items), hdepth, hwhole => by
      cases depth with
      | zero => cases hdepth
      | succ depth =>
          have hinner := Nat.max_le.1 (Nat.le_of_succ_le_succ hdepth)
          obtain ⟨hitem, hitems⟩ := Bool.and_eq_true_iff.1 hwhole
          obtain ⟨c, tail, hchars, hblank, hc⟩ := chars_eq_cons hitem
          rw [chars_items]
          refine takes_array fun place => ?_
          have hnext := answers_nextItem_first hblank hc
            (tail ++ (charsItems items ++ ']' :: rest)) place
          rw [← List.cons_append, ← hchars] at hnext
          rw [itemsText, List.append_assoc]
          exact items_cons hnext (takes_value (ends_charsItems items rest) item hinner.1 hitem)
            (items_of_chars rest items hinner.2 hitems)
  | .object [], hdepth, _ => by
      cases depth with
      | zero => cases hdepth
      | succ depth =>
          have hmembers : ∀ place, ∃ after, Members (value depth) true
              ⟨[] ++ '\x7d' :: rest, place⟩ [] ⟨'\x7d' :: rest, after⟩ :=
            fun place => ⟨place, .done (answers_nextMember_closing true rest place)⟩
          exact takes_object hmembers
  | .object (member :: members), hdepth, hwhole => by
      cases depth with
      | zero => cases hdepth
      | succ depth =>
          have hinner := Nat.max_le.1 (Nat.le_of_succ_le_succ hdepth)
          obtain ⟨hmember, hmembers⟩ := Bool.and_eq_true_iff.1 hwhole
          rw [chars_members]
          refine takes_object fun place => ?_
          rw [membersText, List.append_assoc, List.cons_append, List.append_assoc]
          exact members_cons (answers_nextMember_first _ place)
            (takes_value (ends_charsMembers members rest) member.2 hinner.1 hmember)
            (members_of_chars rest members hinner.2 hmembers)

/-- The items of a list behind the first are found behind their commas. -/
theorem items_of_chars {depth : Nat} (rest : List Char) :
    (items : List Json) → depthItems items ≤ depth → areItemsWhole items = true → ∀ place,
      ∃ after, Items (value depth) false ⟨charsItems items ++ ']' :: rest, place⟩ items
        ⟨']' :: rest, after⟩
  | [], _, _, place => ⟨place, .done (answers_nextItem_closing false rest place)⟩
  | item :: items, hdepth, hwhole, place => by
      obtain ⟨hitem, hitems⟩ := Bool.and_eq_true_iff.1 hwhole
      obtain ⟨c, tail, hchars, hblank, hc⟩ := chars_eq_cons hitem
      have hnext := answers_nextItem_comma hblank hc
        (tail ++ (charsItems items ++ ']' :: rest)) place
      rw [← List.cons_append, ← hchars] at hnext
      have hinner := Nat.max_le.1 hdepth
      rw [charsItems_cons, List.cons_append, itemsText, List.append_assoc]
      exact items_cons hnext (takes_value (ends_charsItems items rest) item hinner.1 hitem)
        (items_of_chars rest items hinner.2 hitems)

/-- The members of an object behind the first are found behind their commas. -/
theorem members_of_chars {depth : Nat} (rest : List Char) :
    (members : List (String × Json)) → depthMembers members ≤ depth →
      areMembersWhole members = true → ∀ place, ∃ after,
        Members (value depth) false ⟨charsMembers members ++ '\x7d' :: rest, place⟩ members
          ⟨'\x7d' :: rest, after⟩
  | [], _, _, place => ⟨place, .done (answers_nextMember_closing false rest place)⟩
  | member :: members, hdepth, hwhole, place => by
      obtain ⟨hmember, hmembers⟩ := Bool.and_eq_true_iff.1 hwhole
      have hinner := Nat.max_le.1 hdepth
      rw [charsMembers_cons, List.cons_append, membersText, List.append_assoc, List.cons_append,
        List.append_assoc]
      exact members_cons (answers_nextMember_comma _ place)
        (takes_value (ends_charsMembers members rest) member.2 hinner.1 hmember)
        (members_of_chars rest members hinner.2 hmembers)

end

end Reader

/-- The compact text of a value is parsed as the value. -/
theorem parse_compact {json : Json} (hdepth : json.depth ≤ maxDepth)
    (hwhole : json.isWhole = true) :
    Json.parse json.compact = .ok json := by
  have hrest : Reader.Ends [] := fun _ hhead => by cases hhead
  obtain ⟨after, hvalue⟩ := Reader.takes_value hrest json hdepth hwhole ⟨1, 0⟩
  have hend : Reader.atEnd.Answers ⟨[], after⟩ () ⟨[], after⟩ := by
    rw [Reader.atEnd, (Reader.answers_peekToken_iff.2 ⟨rfl, rfl⟩).bind_iff]
    exact Reader.answers_pure_iff.2 ⟨rfl, rfl⟩
  have hstart : Cursor.start json.compact = ⟨json.chars ++ [], ⟨1, 0⟩⟩ := by
    rw [Cursor.start, compact, String.toList_ofList, List.append_nil]
  exact Reader.parse_eq_ok_iff.2 ⟨_, _, hstart ▸ hvalue, hend⟩

end StackBridge.Json
