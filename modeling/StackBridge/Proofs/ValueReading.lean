/-
What reading a value goes through. A reader that answers leaves the cursor at one place, so each
combinator is described by the answers of its parts. Fuel and accumulators play no role in the
description: the items of a list follow one another from cursor to cursor, and so do the members of
an object.
-/
import StackBridge.Proofs.ReaderAnswers

namespace StackBridge.Json

/-- The cursor in front of the next token. -/
def Cursor.token (cursor : Cursor) : Cursor :=
  cursor.skipWhile Cursor.isSpace

namespace Cursor

theorem skipList_place (test : Char → Bool) (place : Place) (rest : List Char) :
    (skipList test place rest).skipWhile test = skipList test place rest := by
  induction rest generalizing place with
  | nil => rfl
  | cons c rest ih =>
      rw [skipList]
      by_cases hc : test c
      · rw [if_pos hc, ih]
      · rw [if_neg hc]
        simp [skipWhile, skipList, hc]

@[simp]
theorem token_token (cursor : Cursor) : cursor.token.token = cursor.token :=
  skipList_place isSpace cursor.place cursor.rest

theorem length_skipList_le (test : Char → Bool) (place : Place) (rest : List Char) :
    (skipList test place rest).rest.length ≤ rest.length := by
  induction rest generalizing place with
  | nil => exact Nat.le_refl _
  | cons c rest ih =>
      rw [skipList]
      split
      · exact Nat.le_succ_of_le (ih _)
      · exact Nat.le_refl _

theorem length_skipWhile_lt {test : Char → Bool} {cursor : Cursor} {c : Char}
    (hhead : cursor.rest.head? = some c) (hc : test c = true) :
    (cursor.skipWhile test).rest.length < cursor.rest.length := by
  obtain ⟨rest, hrest⟩ := List.head?_eq_some_iff.1 hhead
  rw [skipWhile, hrest, skipList, if_pos hc, List.length_cons]
  exact Nat.lt_succ_of_le (length_skipList_le _ _ _)

theorem length_next_le (cursor : Cursor) : cursor.next.rest.length ≤ cursor.rest.length := by
  unfold next
  split <;> simp_all

theorem length_next_of_head {cursor : Cursor} {c : Char} (hhead : cursor.rest.head? = some c) :
    cursor.next.rest.length + 1 = cursor.rest.length := by
  unfold next
  split <;> simp_all

theorem length_token_le (cursor : Cursor) : cursor.token.rest.length ≤ cursor.rest.length :=
  length_skipList_le _ _ _

end Cursor

namespace Reader

variable {α β : Type} {reader : Reader α} {cursor between after last : Cursor}

/-- Whether a reader answers a value and leaves the cursor at a place. -/
def Answers (reader : Reader α) (cursor : Cursor) (value : α) (after : Cursor) : Prop :=
  reader.run cursor = (.ok value, after)

/-- A reader answers one value. -/
theorem Answers.iff_eq {value : α} (hvalue : reader.Answers cursor value after) (other : α) :
    reader.Answers cursor other last ↔ last = after ∧ value = other := by
  constructor
  · intro hother
    cases hvalue.symm.trans hother
    exact ⟨rfl, rfl⟩
  · rintro ⟨rfl, rfl⟩
    exact hvalue

section Steps

@[simp]
theorem answers_pure_iff {value other : α} :
    (pure value : Reader α).Answers cursor other after ↔ after = cursor ∧ value = other :=
  Answers.iff_eq rfl other

@[simp]
theorem answers_bind_iff {next : α → Reader β} {value : β} :
    (reader >>= next).Answers cursor value after ↔
      ∃ found between, reader.Answers cursor found between ∧
        (next found).Answers between value after :=
  run_bind_eq_ok_iff

/-- What follows a reader that answers goes on from its answer. -/
theorem Answers.bind_iff {found : α} (hfound : reader.Answers cursor found between)
    {next : α → Reader β} {value : β} :
    (reader >>= next).Answers cursor value after ↔ (next found).Answers between value after := by
  rw [Answers, run_bind_of_ok hfound]
  rfl

@[simp]
theorem answers_map_iff {change : α → β} {value : β} :
    (change <$> reader).Answers cursor value after ↔
      ∃ found, reader.Answers cursor found after ∧ change found = value := by
  rw [map_eq_pure_bind, answers_bind_iff]
  constructor
  · rintro ⟨found, between, hfound, hvalue⟩
    obtain ⟨rfl, hsame⟩ := answers_pure_iff.1 hvalue
    exact ⟨found, hfound, hsame⟩
  · rintro ⟨found, hfound, hsame⟩
    exact ⟨found, after, hfound, answers_pure_iff.2 ⟨rfl, hsame⟩⟩

/-- A reader whose answers have a property that nothing has does not answer. -/
theorem Ensures.not_answers (hreader : reader.Ensures fun _ => False) {value : α} :
    reader.Answers cursor value after ↔ False :=
  iff_false_intro (hreader cursor value after)

@[simp]
theorem answers_mismatch_iff {m : Mismatch} {value : α} :
    (mismatch m : Reader α).Answers cursor value after ↔ False :=
  (ensures_fault _).not_answers

@[simp]
theorem answers_failAt_iff {m : Malformed} {place : Place} {value : α} :
    (failAt m place : Reader α).Answers cursor value after ↔ False :=
  (ensures_fault _).not_answers

@[simp]
theorem answers_failHere_iff {m : Malformed} {value : α} :
    (failHere m : Reader α).Answers cursor value after ↔ False :=
  (ensures_bind fun _ => ensures_fault _).not_answers

@[simp]
theorem answers_failNext_iff {m : Malformed} {value : α} :
    (failNext m : Reader α).Answers cursor value after ↔ False :=
  (ensures_failNext m).not_answers

@[simp]
theorem answers_refuse_iff {wanted : String} {value : α} :
    (refuse wanted : Reader α).Answers cursor value after ↔ False :=
  (ensures_refuse wanted).not_answers

@[simp]
theorem answers_advance_iff {value : Unit} :
    advance.Answers cursor value after ↔ after = cursor.next :=
  (Answers.iff_eq rfl value).trans (and_iff_left rfl)

@[simp]
theorem answers_peek_iff {next : Option Char} :
    peek.Answers cursor next after ↔ after = cursor ∧ cursor.rest.head? = next :=
  Answers.iff_eq rfl next

@[simp]
theorem answers_peekToken_iff {next : Option Char} :
    peekToken.Answers cursor next after ↔
      after = cursor.token ∧ cursor.token.rest.head? = next :=
  Answers.iff_eq rfl next

@[simp]
theorem answers_remaining_iff {steps : Nat} :
    remaining.Answers cursor steps after ↔ after = cursor ∧ cursor.rest.length + 1 = steps :=
  Answers.iff_eq rfl steps

@[simp]
theorem answers_anchored_iff {value : α} :
    (anchored reader).Answers cursor value after ↔ reader.Answers cursor value after := by
  constructor
  · intro hanchored
    rcases hrun : reader.run cursor with ⟨fault | found, between⟩
    · simp only [Answers, anchored, ExceptT.run, ExceptT.mk] at hanchored hrun
      rw [hrun] at hanchored
      cases hanchored
    · simp only [Answers, anchored, ExceptT.run, ExceptT.mk] at hanchored hrun ⊢
      rw [hrun] at hanchored ⊢
      exact hanchored
  · intro hreader
    simp only [Answers, anchored, ExceptT.run, ExceptT.mk] at hreader ⊢
    rw [hreader]

@[simp]
theorem answers_closedBy_iff {close : Reader Unit} {value : α} :
    (closedBy reader close).Answers cursor value after ↔
      ∃ inside, reader.Answers cursor value inside ∧ close.Answers inside () after := by
  constructor
  · intro hclosed
    rcases hrun : reader.run cursor with ⟨fault | found, inside⟩
    · simp only [Answers, closedBy, ExceptT.run, ExceptT.mk] at hclosed hrun
      rw [hrun] at hclosed
      cases hclosed
    · rcases hclose : close.run inside with ⟨fault | ⟨⟩, outside⟩
      · simp only [Answers, closedBy, ExceptT.run, ExceptT.mk] at hclosed hrun hclose
        rw [hrun] at hclosed
        simp only [hclose] at hclosed
        cases hclosed
      · simp only [Answers, closedBy, ExceptT.run, ExceptT.mk] at hclosed hrun hclose
        rw [hrun] at hclosed
        simp only [hclose] at hclosed
        cases hclosed
        exact ⟨inside, hrun, hclose⟩
  · rintro ⟨inside, hvalue, hclose⟩
    simp only [Answers, closedBy, ExceptT.run, ExceptT.mk] at hvalue hclose ⊢
    rw [hvalue]
    simp only [hclose]

@[simp]
theorem answers_list_iff {value : α} :
    (list reader).Answers cursor value after ↔
      ∃ inside, reader.Answers cursor.next value inside ∧ closeList.Answers inside () after := by
  simp [list]

@[simp]
theorem answers_object_iff {value : α} :
    (object reader).Answers cursor value after ↔
      ∃ inside, reader.Answers cursor.next value inside ∧ closeObject.Answers inside () after := by
  simp [object]

@[simp]
theorem answers_deeper_iff {depth : Nat} {inner : Nat → Reader α} {value : α} :
    (deeper depth inner).Answers cursor value after ↔
      ∃ left, depth = left + 1 ∧ (inner left).Answers cursor value after := by
  cases depth <;> simp [deeper]

end Steps

/-- How a list or an object goes on at a cursor: it closes, or something follows, at first without a
comma and later behind one. What may follow begins with certain characters. -/
inductive Turn (closing : Char) (starts : Char → Prop) (cursor : Cursor) :
    Bool → Bool → Cursor → Prop where
  | closes {isFirst : Bool} (hhead : cursor.token.rest.head? = some closing) :
      Turn closing starts cursor isFirst false cursor.token
  | opens {c : Char} (hhead : cursor.token.rest.head? = some c) (hstarts : starts c) :
      Turn closing starts cursor true true cursor.token
  | comma {c : Char} (hcomma : cursor.token.rest.head? = some ',')
      (hhead : cursor.token.next.token.rest.head? = some c) (hstarts : starts c) :
      Turn closing starts cursor false true cursor.token.next.token

variable {isFirst more : Bool}

theorem Turn.exists_head {closing : Char} {starts : Char → Prop} {isFirst : Bool}
    (hturn : Turn closing starts cursor isFirst true after) :
    ∃ c, after.rest.head? = some c ∧ starts c := by
  cases hturn with
  | opens hhead hc => exact ⟨_, hhead, hc⟩
  | comma hcomma hhead hc => exact ⟨_, hhead, hc⟩

/-- An item may begin with anything but the closing bracket. -/
theorem Answers.item_turn (hnext : (nextItem isFirst).Answers cursor more after) :
    Turn ']' (· ≠ ']') cursor isFirst more after := by
  rw [nextItem, answers_bind_iff] at hnext
  obtain ⟨next, _, hpeek, hnext⟩ := hnext
  obtain ⟨rfl, hhead⟩ := answers_peekToken_iff.1 hpeek
  split at hnext
  · simp at hnext
  · obtain ⟨rfl, rfl⟩ := answers_pure_iff.1 hnext
    exact .closes hhead
  · rename_i c hopen
    cases isFirst with
    | true =>
        obtain ⟨rfl, rfl⟩ : after = cursor.token ∧ more = true := by simpa using hnext
        exact .opens hhead hopen
    | false =>
        by_cases hcomma : c = ','
        · subst hcomma
          simp only [Bool.false_eq_true, if_false, ne_eq, not_true_eq_false, answers_bind_iff,
            answers_advance_iff] at hnext
          obtain ⟨⟨⟩, _, rfl, behind, _, hpeek, hnext⟩ := hnext
          obtain ⟨rfl, hbehind⟩ := answers_peekToken_iff.1 hpeek
          split at hnext
          · simp at hnext
          · simp at hnext
          · rename_i d hitem
            obtain ⟨rfl, rfl⟩ := answers_pure_iff.1 hnext
            exact .comma hhead hbehind hitem
        · simp [hcomma] at hnext

/-- A member begins with a quote. -/
theorem Answers.member_turn (hnext : (nextMember isFirst).Answers cursor more after) :
    Turn '\x7d' (· = '"') cursor isFirst more after := by
  rw [nextMember, answers_bind_iff] at hnext
  obtain ⟨next, _, hpeek, hnext⟩ := hnext
  obtain ⟨rfl, hhead⟩ := answers_peekToken_iff.1 hpeek
  split at hnext
  · simp at hnext
  · obtain ⟨rfl, rfl⟩ := answers_pure_iff.1 hnext
    exact .closes hhead
  · rename_i c hopen
    cases isFirst with
    | true =>
        by_cases hquote : c = '"'
        · obtain ⟨rfl, rfl⟩ : after = cursor.token ∧ more = true := by
            simpa [hquote] using hnext
          exact .opens hhead hquote
        · simp [hquote] at hnext
    | false =>
        by_cases hcomma : c = ','
        · subst hcomma
          simp only [Bool.false_eq_true, if_false, ne_eq, not_true_eq_false, answers_bind_iff,
            answers_advance_iff] at hnext
          obtain ⟨⟨⟩, _, rfl, behind, _, hpeek, hnext⟩ := hnext
          obtain ⟨rfl, hbehind⟩ := answers_peekToken_iff.1 hpeek
          split at hnext
          · simp at hnext
          · obtain ⟨rfl, rfl⟩ := answers_pure_iff.1 hnext
            exact .comma hhead hbehind rfl
          · simp at hnext
          · simp at hnext
        · simp [hcomma] at hnext

theorem Answers.colon_after (hcolon : colon.Answers cursor () after) :
    after = cursor.token.next := by
  rw [colon, answers_bind_iff] at hcolon
  obtain ⟨next, _, hpeek, hcolon⟩ := hcolon
  obtain ⟨rfl, -⟩ := answers_peekToken_iff.1 hpeek
  split at hcolon
  · simp at hcolon
  · split at hcolon
    · exact answers_advance_iff.1 hcolon
    · simp at hcolon

theorem Answers.list_closed (hclose : closeList.Answers cursor () after) :
    cursor.token.rest.head? = some ']' ∧ after = cursor.token.next := by
  rw [closeList, answers_bind_iff] at hclose
  obtain ⟨next, _, hpeek, hclose⟩ := hclose
  obtain ⟨rfl, hhead⟩ := answers_peekToken_iff.1 hpeek
  split at hclose
  · simp at hclose
  · exact ⟨hhead, answers_advance_iff.1 hclose⟩
  · simp only [answers_bind_iff, answers_advance_iff] at hclose
    obtain ⟨_, _, _, behind, _, _, hclose⟩ := hclose
    split at hclose <;> simp at hclose
  · simp at hclose

theorem answers_closeList_token_iff :
    closeList.Answers cursor.token () after ↔ closeList.Answers cursor () after := by
  simp only [closeList, answers_bind_iff, answers_peekToken_iff, Cursor.token_token]

/-- At the closing bracket of a list nothing follows, whether or not an item came before. -/
theorem answers_nextItem_of_closing (hhead : cursor.token.rest.head? = some ']') :
    (nextItem isFirst).Answers cursor false cursor.token := by
  rw [nextItem, answers_bind_iff]
  exact ⟨_, _, answers_peekToken_iff.2 ⟨rfl, hhead⟩, answers_pure_iff.2 ⟨rfl, rfl⟩⟩

theorem Answers.object_closed (hclose : closeObject.Answers cursor () after) :
    cursor.token.rest.head? = some '\x7d' ∧ after = cursor.token.next := by
  rw [closeObject, answers_bind_iff] at hclose
  obtain ⟨next, _, hpeek, hclose⟩ := hclose
  obtain ⟨rfl, hhead⟩ := answers_peekToken_iff.1 hpeek
  split at hclose
  · simp at hclose
  · exact ⟨hhead, answers_advance_iff.1 hclose⟩
  · simp at hclose
  · simp at hclose

/-- The items of a list from a cursor on, and the cursor in front of its closing bracket. -/
inductive Items (item : Reader α) : Bool → Cursor → List α → Cursor → Prop where
  | done {isFirst : Bool} {cursor after : Cursor}
      (hnext : (nextItem isFirst).Answers cursor false after) : Items item isFirst cursor [] after
  | more {isFirst : Bool} {cursor start between after : Cursor} {value : α} {values : List α}
      (hnext : (nextItem isFirst).Answers cursor true start)
      (hitem : item.Answers start value between)
      (hrest : Items item false between values after) :
      Items item isFirst cursor (value :: values) after

variable {item : Reader α}

theorem answers_itemsFrom_iff {steps : Nat} {read values : List α} :
    (itemsFrom item steps read).Answers cursor values after ↔
      ∃ news, Items item read.isEmpty cursor news after ∧ news.length < steps ∧
        read.reverse ++ news = values := by
  induction steps generalizing read cursor with
  | zero => simp [itemsFrom]
  | succ steps ih =>
      rw [itemsFrom, answers_bind_iff]
      constructor
      · rintro ⟨more, start, hnext, hvalues⟩
        cases more with
        | false =>
            obtain ⟨rfl, rfl⟩ := by simpa using hvalues
            exact ⟨[], .done hnext, by simp⟩
        | true =>
            simp only [if_true, answers_bind_iff, ih] at hvalues
            obtain ⟨value, between, hitem, news, hrest, hsteps, rfl⟩ := hvalues
            exact ⟨value :: news, .more hnext hitem hrest, by simpa using hsteps, by simp⟩
      · rintro ⟨news, hitems, hsteps, rfl⟩
        cases hitems with
        | done hnext => exact ⟨false, after, hnext, by simp⟩
        | more hnext hitem hrest =>
            refine ⟨true, _, hnext, ?_⟩
            simp only [if_true, answers_bind_iff, ih]
            exact ⟨_, _, hitem, _, hrest, by simpa using hsteps, by simp⟩

/-- A list answers its items, of which there are no more than characters. -/
theorem answers_items_iff {values : List α} :
    (items item).Answers cursor values after ↔
      Items item true cursor values after ∧ values.length ≤ cursor.rest.length := by
  simp only [items, answers_bind_iff, answers_remaining_iff, answers_itemsFrom_iff]
  constructor
  · rintro ⟨steps, _, ⟨rfl, rfl⟩, news, hitems, hsteps, rfl⟩
    exact ⟨hitems, Nat.le_of_lt_succ hsteps⟩
  · rintro ⟨hitems, hsteps⟩
    exact ⟨_, _, ⟨rfl, rfl⟩, _, hitems, Nat.lt_succ_of_le hsteps, rfl⟩

/-- The members of an object from a cursor on, and the cursor in front of its closing bracket. -/
inductive Members (item : Reader α) : Bool → Cursor → List (String × α) → Cursor → Prop where
  | done {isFirst : Bool} {cursor after : Cursor}
      (hnext : (nextMember isFirst).Answers cursor false after) :
      Members item isFirst cursor [] after
  | more {isFirst : Bool} {cursor start named colons between after : Cursor} {name : String}
      {value : α} {members : List (String × α)}
      (hnext : (nextMember isFirst).Answers cursor true start)
      (hkey : key.Answers start name named)
      (hcolon : colon.Answers named () colons)
      (hvalue : item.Answers colons value between)
      (hrest : Members item false between members after) :
      Members item isFirst cursor ((name, value) :: members) after

theorem answers_membersFrom_iff {steps : Nat} {isFirst : Bool} {read entries : List (String × α)} :
    (membersFrom (fun name read => do
        colon
        return (name, ← item) :: read) steps isFirst read).Answers cursor entries after ↔
      ∃ news, Members item isFirst cursor news after ∧ news.length < steps ∧
        news.reverse ++ read = entries := by
  induction steps generalizing isFirst read cursor with
  | zero => simp [membersFrom]
  | succ steps ih =>
      rw [membersFrom, answers_bind_iff]
      constructor
      · rintro ⟨more, start, hnext, hentries⟩
        cases more with
        | false =>
            obtain ⟨rfl, rfl⟩ := by simpa using hentries
            exact ⟨[], .done hnext, by simp⟩
        | true =>
            simp only [if_true, answers_bind_iff, answers_pure_iff, ih] at hentries
            obtain ⟨name, named, hkey, _, between, ⟨⟨⟩, colons, hcolon, value, _, hvalue, rfl,
              rfl⟩, news, hrest, hsteps, rfl⟩ := hentries
            exact ⟨(name, value) :: news, .more hnext hkey hcolon hvalue hrest,
              by simpa using hsteps, by simp⟩
      · rintro ⟨news, hmembers, hsteps, rfl⟩
        cases hmembers with
        | done hnext => exact ⟨false, after, hnext, by simp⟩
        | more hnext hkey hcolon hvalue hrest =>
            refine ⟨true, _, hnext, ?_⟩
            simp only [if_true, answers_bind_iff, answers_pure_iff, ih]
            exact ⟨_, _, hkey, _, _, ⟨(), _, hcolon, _, _, hvalue, rfl, rfl⟩, _, hrest,
              by simpa using hsteps, by simp⟩

/-- An object answers its members, gathered from the last to the first. -/
theorem answers_members_iff {entries : List (String × α)} :
    (members (fun name read => do
        colon
        return (name, ← item) :: read) []).Answers cursor entries after ↔
      Members item true cursor entries.reverse after ∧ entries.length ≤ cursor.rest.length := by
  simp only [members, answers_bind_iff, answers_remaining_iff, answers_membersFrom_iff]
  constructor
  · rintro ⟨steps, _, ⟨rfl, rfl⟩, news, hmembers, hsteps, rfl⟩
    simpa using ⟨hmembers, Nat.le_of_lt_succ hsteps⟩
  · rintro ⟨hmembers, hsteps⟩
    exact ⟨_, _, ⟨rfl, rfl⟩, _, hmembers, by simpa [Nat.lt_succ_iff] using hsteps, by simp⟩

/-- What a value is read from, by the character that it begins with. -/
inductive Begins (depth : Nat) (start after : Cursor) : Char → Json → Prop where
  | null (hword : (word ['u', 'l', 'l']).Answers start.next () after) :
      Begins depth start after 'n' .null
  | true (hword : (word ['r', 'u', 'e']).Answers start.next () after) :
      Begins depth start after 't' (.bool true)
  | false (hword : (word ['a', 'l', 's', 'e']).Answers start.next () after) :
      Begins depth start after 'f' (.bool false)
  | negative {n : Number} (hnumber : (number true).Answers start.next n after) :
      Begins depth start after '-' (.number n)
  | number {c : Char} {n : Number} (hdigit : c.isDigit = true)
      (hnumber : (number false).Answers start n after) : Begins depth start after c (.number n)
  | string {s : String} (hstring : string.Answers start.next s after) :
      Begins depth start after '"' (.string s)
  | array {inner : Nat} {inside : Cursor} {values : List Json} (hdepth : depth = inner + 1)
      (hitems : Items (value inner) true start.next values inside)
      (hcount : values.length ≤ start.next.rest.length)
      (hclose : closeList.Answers inside () after) : Begins depth start after '[' (.array values)
  | object {inner : Nat} {inside : Cursor} {entries : List (String × Json)}
      (hdepth : depth = inner + 1)
      (hmembers : Members (value inner) true start.next entries inside)
      (hcount : entries.length ≤ start.next.rest.length)
      (hclose : closeObject.Answers inside () after) :
      Begins depth start after '\x7b' (.object entries)

theorem value_eq (depth : Nat) : value depth =
    valueOr (deeper depth fun inner => return .array (← list (items (value inner))))
      (deeper depth fun inner => return .object (← object (members (fun name read => do
        colon
        return (name, ← value inner) :: read) [])).reverse) := by
  cases depth <;> rfl

/-- Blanks in front of a value do not matter. -/
theorem answers_value_token_iff {depth : Nat} {json : Json} :
    (value depth).Answers cursor.token json after ↔ (value depth).Answers cursor json after := by
  rw [value_eq, valueOr, answers_bind_iff, answers_bind_iff]
  simp only [answers_peekToken_iff, Cursor.token_token]

/-- A value that is read begins with a character, and what it is is known from that. -/
theorem Answers.begins {depth : Nat} {json : Json}
    (hvalue : (value depth).Answers cursor json after) :
    ∃ c, cursor.token.rest.head? = some c ∧ Begins depth cursor.token after c json := by
  rw [value_eq, valueOr] at hvalue
  obtain ⟨next, between, hpeek, hvalue⟩ := answers_bind_iff.1 hvalue
  obtain ⟨rfl, hnext⟩ := answers_peekToken_iff.1 hpeek
  split at hvalue
  · simp at hvalue
  · obtain ⟨⟨⟨⟩, hword⟩, rfl⟩ := by simpa using hvalue
    exact ⟨_, hnext, .null hword⟩
  · obtain ⟨⟨⟨⟩, hword⟩, rfl⟩ := by simpa using hvalue
    exact ⟨_, hnext, .true hword⟩
  · obtain ⟨⟨⟨⟩, hword⟩, rfl⟩ := by simpa using hvalue
    exact ⟨_, hnext, .false hword⟩
  · obtain ⟨n, hnumber, rfl⟩ := by simpa using hvalue
    exact ⟨_, hnext, .negative hnumber⟩
  · obtain ⟨s, hstring, rfl⟩ := by simpa using hvalue
    exact ⟨_, hnext, .string hstring⟩
  · simp only [answers_deeper_iff, answers_bind_iff, answers_list_iff, answers_items_iff,
      answers_pure_iff] at hvalue
    obtain ⟨inner, hdepth, values, _, ⟨inside, ⟨hitems, hcount⟩, hclose⟩, rfl, rfl⟩ := hvalue
    exact ⟨_, hnext, .array hdepth hitems hcount hclose⟩
  · simp only [answers_deeper_iff, answers_bind_iff, answers_object_iff, answers_members_iff,
      answers_pure_iff] at hvalue
    obtain ⟨inner, hdepth, entries, _, ⟨inside, ⟨hmembers, hcount⟩, hclose⟩, rfl, rfl⟩ := hvalue
    exact ⟨_, hnext, .object hdepth hmembers (by simpa using hcount) hclose⟩
  · rename_i c _ _ _ _ _ _ _
    by_cases hdigit : c.isDigit = true
    · rw [if_pos hdigit] at hvalue
      obtain ⟨n, hnumber, rfl⟩ := by simpa using hvalue
      exact ⟨_, hnext, .number hdigit hnumber⟩
    · rw [if_neg hdigit, answers_failNext_iff] at hvalue
      exact hvalue.elim

end Reader

end StackBridge.Json
