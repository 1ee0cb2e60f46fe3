/-
Blanks between the tokens of a text. Two texts may differ in them, as long as no word and no number
is taken apart or joined to another. Whatever is read from one of them is then read from the other:
a reader goes through both side by side.
-/
import StackBridge.Proofs.DecodingRoutes

namespace StackBridge.Json

/-- Whether a character is one of a word or of a number. -/
def isWordy (c : Char) : Bool :=
  c.isAlphanum || c = '+' || c = '-' || c = '.'

/-- Whether a text begins in a word or in a number. -/
def continues (text : List Char) : Bool :=
  text.head?.any isWordy

/-- Whether two texts, both from inside of a string or both from outside on, differ in blanks
between tokens only. -/
inductive Respaced : Bool → List Char → List Char → Prop where
  | done : Respaced false [] []
  | left {c : Char} {text other : List Char} (hblank : Cursor.isSpace c = true)
      (hrest : Respaced false text other) : Respaced false (c :: text) other
  | right {c : Char} {text other : List Char} (hblank : Cursor.isSpace c = true)
      (hrest : Respaced false text other) : Respaced false text (c :: other)
  | same {c : Char} {text other : List Char} (hblank : Cursor.isSpace c = false) (hquote : c ≠ '"')
      (hword : isWordy c = true → continues text = continues other)
      (hrest : Respaced false text other) : Respaced false (c :: text) (c :: other)
  | opens {text other : List Char} (hrest : Respaced true text other) :
      Respaced false ('"' :: text) ('"' :: other)
  | closes {text other : List Char} (hrest : Respaced false text other) :
      Respaced true ('"' :: text) ('"' :: other)
  | escaped {c : Char} {text other : List Char} (hrest : Respaced true text other) :
      Respaced true ('\\' :: c :: text) ('\\' :: c :: other)
  | plain {c : Char} {text other : List Char} (hquote : c ≠ '"') (hslash : c ≠ '\\')
      (hrest : Respaced true text other) : Respaced true (c :: text) (c :: other)

namespace Cursor

theorem skipList_cons_of_pos {test : Char → Bool} {c : Char} (hc : test c = true) (place : Place)
    (rest : List Char) : skipList test place (c :: rest) = skipList test (place.after c) rest :=
  if_pos hc

theorem skipList_cons_of_neg {test : Char → Bool} {c : Char} (hc : test c = false) (place : Place)
    (rest : List Char) : skipList test place (c :: rest) = ⟨c :: rest, place⟩ :=
  if_neg (ne_true_of_eq_false hc)

end Cursor

namespace Respaced

variable {text other : List Char} {c : Char}

theorem tail (hrespaced : Respaced false (c :: text) (c :: other))
    (hblank : Cursor.isSpace c = false) (hquote : c ≠ '"') :
    Respaced false text other ∧ (isWordy c = true → continues text = continues other) := by
  cases hrespaced with
  | left hspace => simp [hblank] at hspace
  | right hspace => simp [hblank] at hspace
  | same _ _ hword hrest => exact ⟨hrest, hword⟩
  | opens => exact absurd rfl hquote

theorem behind_quote (hrespaced : Respaced false ('"' :: text) ('"' :: other)) :
    Respaced true text other := by
  cases hrespaced with
  | left hspace => simp [Cursor.isSpace] at hspace
  | right hspace => simp [Cursor.isSpace] at hspace
  | same _ hquote => exact absurd rfl hquote
  | opens hrest => exact hrest

/-- Behind their blanks both texts begin alike. -/
theorem past_blanks {inside : Bool} (hrespaced : Respaced inside text other)
    (hinside : inside = false) (place there : Place) :
    Respaced false (Cursor.skipList Cursor.isSpace place text).rest
        (Cursor.skipList Cursor.isSpace there other).rest ∧
      (Cursor.skipList Cursor.isSpace place text).rest.head? =
        (Cursor.skipList Cursor.isSpace there other).rest.head? := by
  induction hrespaced generalizing place there with
  | done => exact ⟨.done, rfl⟩
  | left hblank _ ih =>
      rw [Cursor.skipList_cons_of_pos hblank]
      exact ih rfl _ _
  | right hblank _ ih =>
      rw [Cursor.skipList_cons_of_pos hblank]
      exact ih rfl _ _
  | same hblank hquote hword hrest =>
      rw [Cursor.skipList_cons_of_neg hblank, Cursor.skipList_cons_of_neg hblank]
      exact ⟨.same hblank hquote hword hrest, rfl⟩
  | opens hrest => exact ⟨.opens hrest, rfl⟩
  | closes | escaped | plain => cases hinside

end Respaced

/-- Cursors at the same point of two texts. -/
def Spaced (cursor other : Cursor) : Prop :=
  Respaced false cursor.rest other.rest

/-- Cursors at the same point of two texts, where a word or a number goes on in both or in
neither. -/
def Level (cursor other : Cursor) : Prop :=
  Spaced cursor other ∧ continues cursor.rest = continues other.rest

theorem isSpace_of_isWordy {c : Char} (hc : isWordy c = true) : Cursor.isSpace c = false := by
  by_contra hspace
  rw [Bool.not_eq_false] at hspace
  have hcases : ((c = ' ' ∨ c = '\n') ∨ c = '\t') ∨ c = '\r' := by
    simpa [Cursor.isSpace] using hspace
  rcases hcases with ((rfl | rfl) | rfl) | rfl <;> exact absurd hc (by decide)

theorem isWordy_of_isDigit {c : Char} (hc : c.isDigit = true) : isWordy c = true := by
  simp [isWordy, Char.isAlphanum, hc]

theorem rest_eq_cons_of_head {cursor : Cursor} {c : Char} (hhead : cursor.rest.head? = some c) :
    cursor.rest = c :: cursor.next.rest := by
  obtain ⟨rest, hrest⟩ := List.head?_eq_some_iff.1 hhead
  rw [Cursor.next, hrest]

theorem Spaced.next {cursor other : Cursor} (hspaced : Spaced cursor other) {c : Char}
    (hhead : cursor.rest.head? = some c) (hother : other.rest.head? = some c)
    (hblank : Cursor.isSpace c = false) (hquote : c ≠ '"') :
    Spaced cursor.next other.next ∧ (isWordy c = true → Level cursor.next other.next) := by
  rw [Spaced, rest_eq_cons_of_head hhead, rest_eq_cons_of_head hother] at hspaced
  obtain ⟨hrest, hword⟩ := hspaced.tail hblank hquote
  exact ⟨hrest, fun hc => ⟨hrest, hword hc⟩⟩

theorem Spaced.token {cursor other : Cursor} (hspaced : Spaced cursor other) :
    Spaced cursor.token other.token ∧ cursor.token.rest.head? = other.token.rest.head? :=
  Respaced.past_blanks hspaced rfl _ _

theorem Level.of_same_head {cursor other : Cursor} (hspaced : Spaced cursor other)
    (hhead : cursor.rest.head? = other.rest.head?) : Level cursor other :=
  ⟨hspaced, by rw [continues, continues, hhead]⟩

/-- How two cursors on a level go on: inside of a word or a number, or behind it. -/
inductive Level.Onward (cursor other : Cursor) : Prop where
  | word {c : Char} (hc : isWordy c = true) (hhead : cursor.rest.head? = some c)
      (hother : other.rest.head? = some c) (hnext : Level cursor.next other.next)
  | ends (hhead : ∀ c, cursor.rest.head? = some c → isWordy c = false)
      (hother : ∀ c, other.rest.head? = some c → isWordy c = false)

theorem Level.onward {cursor other : Cursor} (hlevel : Level cursor other) :
    Level.Onward cursor other := by
  obtain ⟨hspaced, hsame⟩ := hlevel
  cases hword : continues cursor.rest with
  | false =>
      rw [hword] at hsame
      refine .ends ?_ ?_
      · intro c hc
        simpa [continues, hc] using hword
      · intro c hc
        simpa [continues, hc] using hsame.symm
  | true =>
      rw [hword] at hsame
      obtain ⟨c, hhead, hc⟩ := (Option.any_eq_true _ _).1 hword
      obtain ⟨d, hother, hd⟩ := (Option.any_eq_true _ _).1 hsame.symm
      have hrespaced := hspaced
      rw [Spaced, rest_eq_cons_of_head hhead, rest_eq_cons_of_head hother] at hrespaced
      obtain rfl : c = d := by
        cases hrespaced with
        | left hspace => simp [isSpace_of_isWordy hc] at hspace
        | right hspace => simp [isSpace_of_isWordy hd] at hspace
        | same => rfl
        | opens => rfl
      have hquote : c ≠ '"' := by
        rintro rfl
        exact absurd hc (by decide)
      exact .word hc hhead hother ((hspaced.next hhead hother (isSpace_of_isWordy hc) hquote).2 hc)

namespace Reader

variable {α β : Type} {cursor other last : Cursor}

/-- Whether a reader that answers from a cursor answers the same from another one, and how it then
leaves the two. -/
def Keeps (before after : Cursor → Cursor → Prop) (reader : Reader α) : Prop :=
  ∀ ⦃cursor other value last⦄, before cursor other → reader.Answers cursor value last →
    ∃ final, reader.Answers other value final ∧ after last final

/-- Cursors at the same point, in front of one character or both at the end. -/
def At (c : Option Char) (cursor other : Cursor) : Prop :=
  Spaced cursor other ∧ cursor.rest.head? = c ∧ other.rest.head? = c

theorem At.level {c : Option Char} (hat : At c cursor other) : Level cursor other :=
  .of_same_head hat.1 (hat.2.1.trans hat.2.2.symm)

section Steps

variable {before between after : Cursor → Cursor → Prop} {reader : Reader α}

theorem keeps_pure (value : α) : Keeps before before (pure value) := by
  intro cursor other found last hbefore hfound
  obtain ⟨rfl, rfl⟩ := answers_pure_iff.1 hfound
  exact ⟨other, answers_pure_iff.2 ⟨rfl, rfl⟩, hbefore⟩

theorem keeps_of_not_answers
    (hreader : ∀ {cursor value last}, reader.Answers cursor value last ↔ False) :
    Keeps before after reader :=
  fun _ _ _ _ _ hvalue => (hreader.1 hvalue).elim

theorem Keeps.bind (hreader : Keeps before between reader) {next : α → Reader β}
    (hnext : ∀ value, Keeps between after (next value)) : Keeps before after (reader >>= next) := by
  intro cursor other value last hbefore hvalue
  obtain ⟨found, middle, hfound, hvalue⟩ := answers_bind_iff.1 hvalue
  obtain ⟨center, hcenter, hbetween⟩ := hreader hbefore hfound
  obtain ⟨final, hfinal, hafter⟩ := hnext found hbetween hvalue
  exact ⟨final, answers_bind_iff.2 ⟨found, center, hcenter, hfinal⟩, hafter⟩

theorem keeps_bind_of_not_answers
    (hreader : ∀ {cursor value last}, reader.Answers cursor value last ↔ False)
    {next : α → Reader β} : Keeps before after (reader >>= next) := by
  intro cursor other value last _ hvalue
  obtain ⟨found, _, hfound, -⟩ := answers_bind_iff.1 hvalue
  exact (hreader.1 hfound).elim

theorem Keeps.of_before (hreader : Keeps between after reader)
    (hbefore : ∀ {cursor other}, before cursor other → between cursor other) :
    Keeps before after reader :=
  fun _ _ _ _ hcursors hvalue => hreader (hbefore hcursors) hvalue

theorem Keeps.to_after (hreader : Keeps before between reader)
    (hafter : ∀ {cursor other}, between cursor other → after cursor other) :
    Keeps before after reader := by
  intro cursor other value last hbefore hvalue
  obtain ⟨final, hfinal, hbetween⟩ := hreader hbefore hvalue
  exact ⟨final, hfinal, hafter hbetween⟩

/-- Behind a look at the next token both cursors are in front of the same character. -/
theorem keeps_peekToken {next : Option Char → Reader α} (hnext : ∀ c, Keeps (At c) after (next c)) :
    Keeps Spaced after (peekToken >>= next) := by
  intro cursor other value last hspaced hvalue
  obtain ⟨c, _, hpeek, hvalue⟩ := answers_bind_iff.1 hvalue
  obtain ⟨rfl, hhead⟩ := answers_peekToken_iff.1 hpeek
  obtain ⟨htoken, hsame⟩ := hspaced.token
  have hother : other.token.rest.head? = c := hsame ▸ hhead
  obtain ⟨final, hfinal, hafter⟩ := hnext c ⟨htoken, hhead, hother⟩ hvalue
  exact ⟨final, answers_bind_iff.2 ⟨c, _, answers_peekToken_iff.2 ⟨rfl, hother⟩, hfinal⟩, hafter⟩

theorem keeps_advance {c : Char} (hblank : Cursor.isSpace c = false) (hquote : c ≠ '"') :
    Keeps (At (some c)) Spaced advance := by
  rintro cursor other ⟨⟩ last ⟨hspaced, hhead, hother⟩ hadvance
  obtain rfl := answers_advance_iff.1 hadvance
  exact ⟨other.next, answers_advance_iff.2 rfl, (hspaced.next hhead hother hblank hquote).1⟩

/-- Inside of a word or a number no blank may follow in one text only. -/
theorem keeps_advance_word {c : Char} (hc : isWordy c = true) :
    Keeps (At (some c)) Level advance := by
  rintro cursor other ⟨⟩ last ⟨hspaced, hhead, hother⟩ hadvance
  obtain rfl := answers_advance_iff.1 hadvance
  have hquote : c ≠ '"' := by
    rintro rfl
    exact absurd hc (by decide)
  exact ⟨other.next, answers_advance_iff.2 rfl,
    (hspaced.next hhead hother (isSpace_of_isWordy hc) hquote).2 hc⟩

/-- A look ahead in a word or a number. Behind its end the two texts may go on differently, so there
the character must not matter. -/
theorem keeps_peek {next : Option Char → Reader α} (rest : Reader α)
    (hword : ∀ c, isWordy c = true → Keeps (At (some c)) after (next (some c)))
    (hends : ∀ c : Option Char, (∀ d, c = some d → isWordy d = false) → ∀ {cursor value last},
      (next c).Answers cursor value last ↔ rest.Answers cursor value last)
    (hrest : Keeps Level after rest) : Keeps Level after (peek >>= next) := by
  intro cursor other value last hlevel hvalue
  obtain ⟨c, _, hpeek, hfound⟩ := answers_bind_iff.1 hvalue
  obtain ⟨rfl, hhead⟩ := answers_peek_iff.1 hpeek
  cases hlevel.onward with
  | word hc hthis hother _ =>
      obtain rfl := hhead.symm.trans hthis
      obtain ⟨final, hfinal, hafter⟩ := hword _ hc ⟨hlevel.1, hthis, hother⟩ hfound
      exact ⟨final, answers_bind_iff.2 ⟨_, _, answers_peek_iff.2 ⟨rfl, hother⟩, hfinal⟩, hafter⟩
  | ends hthis hother =>
      obtain ⟨final, hfinal, hafter⟩ := hrest hlevel ((hends c (hhead ▸ hthis)).1 hfound)
      exact ⟨final, answers_bind_iff.2
        ⟨_, _, answers_peek_iff.2 ⟨rfl, rfl⟩, (hends _ hother).2 hfinal⟩, hafter⟩

end Steps

theorem keeps_word {letters : List Char} (hletters : letters.all isWordy = true) :
    Keeps Level Level (word letters) := by
  induction letters with
  | nil => exact keeps_pure ()
  | cons expected letters ih =>
      rw [List.all_cons, Bool.and_eq_true] at hletters
      obtain ⟨hexpected, hletters⟩ := hletters
      refine keeps_peek (failHere .endInValue) ?_ ?_ (keeps_of_not_answers answers_failHere_iff)
      · intro c hc
        dsimp only
        split
        · exact (keeps_advance_word hc).bind fun _ => ih hletters
        · exact keeps_of_not_answers answers_failNext_iff
      · intro c hends cursor value last
        cases c with
        | none => exact Iff.rfl
        | some c =>
            have hother : c ≠ expected := by
              rintro rfl
              simp [hends c rfl] at hexpected
            simp [hother]

/-- Digits that a cursor is in front of are passed one at a time. -/
theorem digits_of_head {cursor : Cursor} {c : Char} (hhead : cursor.rest.head? = some c) :
    cursor.rest.takeWhile Char.isDigit =
        (if c.isDigit then c :: cursor.next.rest.takeWhile Char.isDigit else []) ∧
      cursor.skipWhile Char.isDigit =
        if c.isDigit then cursor.next.skipWhile Char.isDigit else cursor := by
  obtain ⟨rest, place⟩ := cursor
  obtain ⟨rest, rfl⟩ := List.head?_eq_some_iff.1 hhead
  cases hc : c.isDigit <;> simp [Cursor.skipWhile, Cursor.skipList, Cursor.next, hc]

theorem no_digits {cursor : Cursor} (hhead : ∀ c, cursor.rest.head? = some c → isWordy c = false) :
    cursor.rest.takeWhile Char.isDigit = [] ∧ cursor.skipWhile Char.isDigit = cursor := by
  obtain ⟨rest, place⟩ := cursor
  cases rest with
  | nil => exact ⟨rfl, rfl⟩
  | cons c rest =>
      have hc : c.isDigit = false := by
        by_contra hdigit
        exact absurd (isWordy_of_isDigit (by simpa using hdigit)) (by simp [hhead c rfl])
      simp [Cursor.skipWhile, Cursor.skipList, hc]

/-- Digits at the same point of two texts are the same. -/
theorem digits_on_level {rest : List Char} : ∀ {cursor other : Cursor},
    cursor.rest = rest → Level cursor other →
    cursor.rest.takeWhile Char.isDigit = other.rest.takeWhile Char.isDigit ∧
      Level (cursor.skipWhile Char.isDigit) (other.skipWhile Char.isDigit) := by
  induction rest with
  | nil =>
      intro cursor other hrest hlevel
      cases hlevel.onward with
      | word _ hhead => simp [hrest] at hhead
      | ends hhead hother =>
          rw [(no_digits hhead).1, (no_digits hhead).2, (no_digits hother).1, (no_digits hother).2]
          exact ⟨rfl, hlevel⟩
  | cons c rest ih =>
      intro cursor other hrest hlevel
      cases hlevel.onward with
      | word _ hhead hother hnext =>
          have hbehind : cursor.next.rest = rest := by
            rw [Cursor.next, hrest]
          obtain ⟨hsame, hafter⟩ := ih hbehind hnext
          rw [(digits_of_head hhead).1, (digits_of_head hhead).2, (digits_of_head hother).1,
            (digits_of_head hother).2, hsame]
          refine ⟨rfl, ?_⟩
          split
          · exact hafter
          · exact hlevel
      | ends hhead hother =>
          rw [(no_digits hhead).1, (no_digits hhead).2, (no_digits hother).1, (no_digits hother).2]
          exact ⟨rfl, hlevel⟩

theorem keeps_digits : Keeps Level Level digits := by
  intro cursor other found last hlevel hdigits
  obtain ⟨rfl, rfl⟩ := answers_digits_iff.1 hdigits
  obtain ⟨hsame, hafter⟩ := digits_on_level rfl hlevel
  exact ⟨_, answers_digits_iff.2 ⟨rfl, hsame.symm⟩, hafter⟩

theorem keeps_floatOfParts {negative : Bool} {significand : Nat} {exponent : Int} :
    Keeps Level Level (floatOfParts negative significand exponent) := by
  unfold floatOfParts
  split
  · exact keeps_of_not_answers answers_failHere_iff
  · exact keeps_pure _

theorem not_isDigit_of_end {c : Option Char} (hends : ∀ d, c = some d → isWordy d = false)
    (d : Char) (hd : c = some d) : d.isDigit = false := by
  by_contra hdigit
  exact absurd (isWordy_of_isDigit (by simpa using hdigit)) (by simp [hends d hd])

theorem ne_of_end {c : Option Char} (hends : ∀ d, c = some d → isWordy d = false) {d : Char}
    (hd : isWordy d = true) : c ≠ some d := by
  intro hc
  simp [hends d hc] at hd

def exponentValue (negative : Bool) (significand : Nat) (shift : Int) (sign : Option Char) :
    Reader Float := do
  let start := (← get).place
  let found ← digits
  let (exponent, excess) := gather maxExponent 0 found
  if excess.isEmpty then
    floatOfParts negative significand
      (if sign = some '-' then shift - exponent else shift + exponent)
  else if significand ≠ 0 && sign ≠ some '-' then
    failAt .numberOutOfRange ⟨start.line, start.column + (found.length - excess.length) + 1⟩
  else return if negative then -(Float.ofNat 0) else Float.ofNat 0

def unsignedExponent (negative : Bool) (significand : Nat) (shift : Int) (sign : Option Char) :
    Reader Float := do
  match ← peek with
  | none => failHere .endInValue
  | some c => if !c.isDigit then failNext .invalidNumber
  exponentValue negative significand shift sign

theorem exponentPart_eq (negative : Bool) (significand : Nat) (shift : Int) :
    exponentPart negative significand shift = (do
      advance
      let sign ← peek
      if sign = some '+' || sign = some '-' then advance
      unsignedExponent negative significand shift sign) := rfl

theorem keeps_exponentValue {negative : Bool} {significand : Nat} {shift : Int}
    {sign : Option Char} :
    Keeps Level Level (exponentValue negative significand shift sign) := by
  intro cursor other x last hlevel hvalue
  obtain ⟨here, _, hget, hfound⟩ := answers_bind_iff.1 hvalue
  obtain ⟨rfl, rfl⟩ := answers_get_iff.1 hget
  obtain ⟨found, _, hdigits, hx⟩ := answers_bind_iff.1 hfound
  obtain ⟨center, hcenter, hbetween⟩ := keeps_digits hlevel hdigits
  have hrest : ∃ final, (if (gather maxExponent 0 found).2.isEmpty then
      floatOfParts negative significand (if sign = some '-'
        then shift - (gather maxExponent 0 found).1 else shift + (gather maxExponent 0 found).1)
    else if significand ≠ 0 && sign ≠ some '-' then
      failAt .numberOutOfRange ⟨other.place.line,
        other.place.column + (found.length - (gather maxExponent 0 found).2.length) + 1⟩
    else return if negative then -(Float.ofNat 0) else Float.ofNat 0).Answers center x final ∧
      Level last final := by
    dsimp only at hx
    split at hx
    · rename_i hempty
      rw [if_pos hempty]
      exact keeps_floatOfParts hbetween hx
    · rename_i hempty
      rw [if_neg hempty]
      split at hx
      · exact (answers_failAt_iff.1 hx).elim
      · rename_i hrange
        rw [if_neg hrange]
        exact keeps_pure _ hbetween hx
  obtain ⟨final, hfinal, hafter⟩ := hrest
  exact ⟨final, answers_bind_iff.2 ⟨other, other, answers_get_iff.2 ⟨rfl, rfl⟩,
    answers_bind_iff.2 ⟨found, center, hcenter, hfinal⟩⟩, hafter⟩

theorem keeps_unsignedExponent {negative : Bool} {significand : Nat} {shift : Int}
    {sign : Option Char} :
    Keeps Level Level (unsignedExponent negative significand shift sign) := by
  refine keeps_peek (failHere .endInValue) ?_ ?_ (keeps_of_not_answers answers_failHere_iff)
  · intro c _
    dsimp only
    split
    · exact (keeps_of_not_answers answers_failNext_iff).bind fun _ => keeps_exponentValue
    · exact keeps_exponentValue.of_before At.level
  · intro c hends cursor value last
    cases c with
    | none => simp
    | some c => simp [not_isDigit_of_end hends c rfl]

theorem keeps_exponentPart {c : Char} (hc : isWordy c = true) {negative : Bool} {significand : Nat}
    {shift : Int} : Keeps (At (some c)) Level (exponentPart negative significand shift) := by
  rw [exponentPart_eq]
  refine (keeps_advance_word hc).bind fun _ =>
    keeps_peek (unsignedExponent negative significand shift none) ?_ ?_ keeps_unsignedExponent
  · intro sign hsign
    dsimp only
    split
    · exact (keeps_advance_word hsign).bind fun _ => keeps_unsignedExponent
    · exact keeps_unsignedExponent.of_before At.level
  · intro sign hends cursor value last
    have hplus := ne_of_end hends (by decide : isWordy '+' = true)
    have hminus := ne_of_end hends (by decide : isWordy '-' = true)
    simp [hplus, hminus, unsignedExponent, exponentValue]

/-- A fraction, whose exponent may follow its digits. -/
def fractionValue (negative : Bool) (significand : Nat) (shift : Int) : Reader Float := do
  match ← peek with
  | some 'e' | some 'E' => exponentPart negative significand shift
  | _ => floatOfParts negative significand shift

theorem keeps_fractionValue {negative : Bool} {significand : Nat} {shift : Int} :
    Keeps Level Level (fractionValue negative significand shift) := by
  refine keeps_peek (floatOfParts negative significand shift) ?_ ?_ keeps_floatOfParts
  · intro c hc
    split
    · exact keeps_exponentPart hc
    · exact keeps_exponentPart hc
    · exact keeps_floatOfParts.of_before At.level
  · intro c hends cursor value last
    have hlower := ne_of_end hends (by decide : isWordy 'e' = true)
    have hupper := ne_of_end hends (by decide : isWordy 'E' = true)
    split
    · exact absurd rfl hlower
    · exact absurd rfl hupper
    · exact Iff.rfl

theorem keeps_fractionPart {c : Char} (hc : isWordy c = true) {negative : Bool} {significand : Nat}
    {shift : Int} : Keeps (At (some c)) Level (fractionPart negative significand shift) := by
  unfold fractionPart
  refine (keeps_advance_word hc).bind fun _ => keeps_digits.bind fun found => ?_
  dsimp only
  split
  · intro cursor other value last hlevel hvalue
    obtain ⟨next, _, hpeek, hfound⟩ := answers_bind_iff.1 hvalue
    split at hfound <;> simp at hfound
  · exact keeps_fractionValue

theorem keeps_afterInteger {negative : Bool} {significand dropped : Nat} :
    Keeps Level Level (afterInteger negative significand dropped) := by
  have hwhole : Keeps Level Level (if dropped = 0 then return wholeNumber negative significand
      else return .float (← floatOfParts negative significand dropped) : Reader Number) := by
    split
    · exact keeps_pure _
    · exact keeps_floatOfParts.bind fun x => keeps_pure _
  unfold afterInteger
  refine keeps_peek _ ?_ ?_ hwhole
  · intro c hc
    split
    · exact (keeps_fractionPart hc).bind fun x => keeps_pure _
    · exact (keeps_exponentPart hc).bind fun x => keeps_pure _
    · exact (keeps_exponentPart hc).bind fun x => keeps_pure _
    · exact hwhole.of_before At.level
  · intro c hends cursor value last
    have hpoint := ne_of_end hends (by decide : isWordy '.' = true)
    have hlower := ne_of_end hends (by decide : isWordy 'e' = true)
    have hupper := ne_of_end hends (by decide : isWordy 'E' = true)
    split
    · exact absurd rfl hpoint
    · exact absurd rfl hlower
    · exact absurd rfl hupper
    · exact Iff.rfl

/-- A number is read alike, blanks around it or not. -/
theorem keeps_number {negative : Bool} : Keeps Level Level (number negative) := by
  unfold number
  refine keeps_peek (failHere .endInValue) ?_ ?_ (keeps_of_not_answers answers_failHere_iff)
  · intro c hc
    split
    · contradiction
    · refine (keeps_advance_word hc).bind fun _ =>
        keeps_peek (afterInteger negative 0 0) ?_ ?_ keeps_afterInteger
      · intro d _
        dsimp only
        split
        · exact keeps_of_not_answers answers_failNext_iff
        · exact keeps_afterInteger.of_before At.level
      · intro d hends cursor value last
        cases d with
        | none => exact Iff.rfl
        | some d => simp [not_isDigit_of_end hends d rfl]
    · split
      · exact (keeps_digits.of_before At.level).bind fun found => keeps_afterInteger
      · exact keeps_of_not_answers answers_failNext_iff
  · intro c hends cursor value last
    have hzero := ne_of_end hends (by decide : isWordy '0' = true)
    dsimp only
    split
    · exact Iff.rfl
    · exact absurd rfl hzero
    · simp [not_isDigit_of_end hends _ rfl]

/-- Cursors at the same point inside of a string. -/
def Quoted (cursor other : Cursor) : Prop :=
  Respaced true cursor.rest other.rest

/-- Cursors behind the same backslash. -/
def Escaped (cursor other : Cursor) : Prop :=
  ∃ c text rest, cursor.rest = c :: text ∧ other.rest = c :: rest ∧ Respaced true text rest

theorem Quoted.next {cursor other : Cursor} (hquoted : Quoted cursor other) {c : Char}
    (hhead : cursor.rest.head? = some c) (hquote : c ≠ '"') (hslash : c ≠ '\\') :
    other.rest.head? = some c ∧ Quoted cursor.next other.next := by
  obtain ⟨text, place⟩ := cursor
  obtain ⟨rest, there⟩ := other
  cases hquoted with
  | closes => exact absurd (Option.some.inj hhead).symm hquote
  | escaped => exact absurd (Option.some.inj hhead).symm hslash
  | plain _ _ hrest => exact ⟨hhead, hrest⟩

theorem Quoted.escaped {cursor other : Cursor} (hquoted : Quoted cursor other)
    (hhead : cursor.rest.head? = some '\\') :
    other.rest.head? = some '\\' ∧ Escaped cursor.next other.next := by
  obtain ⟨text, place⟩ := cursor
  obtain ⟨rest, there⟩ := other
  cases hquoted with
  | closes => simp at hhead
  | escaped hrest => exact ⟨rfl, _, _, _, rfl, rfl, hrest⟩
  | plain _ hslash => exact absurd (Option.some.inj hhead) hslash

theorem Quoted.closed {cursor other : Cursor} (hquoted : Quoted cursor other)
    (hhead : cursor.rest.head? = some '"') :
    other.rest.head? = some '"' ∧ Spaced cursor.next other.next := by
  obtain ⟨text, place⟩ := cursor
  obtain ⟨rest, there⟩ := other
  cases hquoted with
  | closes hrest => exact ⟨rfl, hrest⟩
  | escaped => simp at hhead
  | plain hquote => exact absurd (Option.some.inj hhead) hquote

theorem Escaped.next {cursor other : Cursor} (hescaped : Escaped cursor other) :
    cursor.rest.head? = other.rest.head? ∧ Quoted cursor.next other.next := by
  obtain ⟨c, text, rest, htext, hrest, hrespaced⟩ := hescaped
  rw [Quoted, Cursor.next, Cursor.next, htext, hrest]
  exact ⟨rfl, hrespaced⟩

theorem hexDigit_plain {c : Char} {digit : Nat} (hc : hexValue? c = some digit) :
    c ≠ '"' ∧ c ≠ '\\' := by
  constructor
  · rintro rfl
    simp [hexValue?] at hc
  · rintro rfl
    simp [hexValue?] at hc

/-- The four characters of a numeric escape are digits. -/
theorem hexQuad?_cases {letters : List Char} {code : Nat} (hquad : hexQuad? letters = some code) :
    ∃ a b c d, letters = [a, b, c, d] ∧ ∀ letter ∈ [a, b, c, d], letter ≠ '"' ∧ letter ≠ '\\' := by
  unfold hexQuad? at hquad
  split at hquad
  · rename_i a b c d
    simp only [Option.bind_eq_bind, Option.bind_eq_some_iff] at hquad
    obtain ⟨_, ha, _, hb, _, hc, _, hd, -⟩ := hquad
    refine ⟨a, b, c, d, rfl, ?_⟩
    simp [hexDigit_plain ha, hexDigit_plain hb, hexDigit_plain hc, hexDigit_plain hd]
  · simp at hquad

theorem keeps_hexEscape : Keeps Quoted Quoted hexEscape := by
  intro cursor other code last hquoted hescape
  obtain rfl := hescape.hexEscape_after
  simp only [hexEscape, answers_bind_iff, answers_get_iff] at hescape
  obtain ⟨_, cursor, ⟨rfl, rfl⟩, hescape⟩ := hescape
  split at hescape
  · rename_i found hquad
    obtain rfl : found = code := by simpa using hescape
    obtain ⟨a, b, c, d, hletters, hplain⟩ := hexQuad?_cases hquad
    simp only [List.forall_mem_cons] at hplain
    obtain ⟨ha, hb, hc, hd, -⟩ := hplain
    obtain ⟨tail, hrest⟩ : ∃ tail, cursor.rest = a :: b :: c :: d :: tail := by
      refine ⟨cursor.rest.drop 4, ?_⟩
      conv_lhs => rw [← List.take_append_drop 4 cursor.rest, hletters]
      rfl
    obtain ⟨hfirst, hquoted₁⟩ := hquoted.next (by rw [hrest]; rfl) ha.1 ha.2
    obtain ⟨hsecond, hquoted₂⟩ := hquoted₁.next (by rw [Cursor.next, hrest]; rfl) hb.1 hb.2
    obtain ⟨hthird, hquoted₃⟩ := hquoted₂.next (by simp [Cursor.next, hrest]) hc.1 hc.2
    obtain ⟨hfourth, hquoted₄⟩ := hquoted₃.next (by simp [Cursor.next, hrest]) hd.1 hd.2
    have hother : other.rest.take 4 = [a, b, c, d] := by
      rw [rest_eq_cons_of_head hfirst, rest_eq_cons_of_head hsecond, rest_eq_cons_of_head hthird,
        rest_eq_cons_of_head hfourth]
      rfl
    refine ⟨other.next.next.next.next, ?_, hquoted₄⟩
    simp only [hexEscape, answers_bind_iff, answers_get_iff]
    refine ⟨_, _, ⟨rfl, rfl⟩, ?_⟩
    rw [hother, ← hletters, hquad]
    simp
  · split at hescape <;> simp at hescape

theorem keeps_pairChar_slash : Keeps Quoted Escaped (pairChar '\\') := by
  intro cursor other value last hquoted hpair
  obtain ⟨hhead, rfl⟩ := hpair.pairChar_after
  obtain ⟨hother, hescaped⟩ := hquoted.escaped hhead
  refine ⟨other.next, ?_, hescaped⟩
  rw [pairChar, answers_bind_iff]
  exact ⟨_, _, answers_peek_iff.2 ⟨rfl, hother⟩, by simp⟩

theorem keeps_pairChar_letter : Keeps Escaped Quoted (pairChar 'u') := by
  intro cursor other value last hescaped hpair
  obtain ⟨hhead, rfl⟩ := hpair.pairChar_after
  obtain ⟨hsame, hquoted⟩ := hescaped.next
  refine ⟨other.next, ?_, hquoted⟩
  rw [pairChar, answers_bind_iff]
  exact ⟨_, _, answers_peek_iff.2 ⟨rfl, hsame ▸ hhead⟩, by simp⟩

theorem keeps_unicodeEscape : Keeps Quoted Quoted unicodeEscape := by
  refine keeps_hexEscape.bind fun first => ?_
  dsimp only
  split
  · exact keeps_bind_of_not_answers answers_failHere_iff
  · split
    · exact keeps_pure _
    · refine keeps_pairChar_slash.bind fun _ => keeps_pairChar_letter.bind fun _ =>
        keeps_hexEscape.bind fun second => ?_
      split
      · exact keeps_bind_of_not_answers answers_failHere_iff
      · exact keeps_pure _

theorem keeps_advance_escaped : Keeps Escaped Quoted advance := by
  rintro cursor other ⟨⟩ last hescaped hadvance
  obtain rfl := answers_advance_iff.1 hadvance
  exact ⟨other.next, answers_advance_iff.2 rfl, hescaped.next.2⟩

/-- What an escape stands for, by the character behind its backslash. -/
def escapeFrom (next : Option Char) : Reader Char :=
  match next with
  | none => failHere .endInString
  | some 'u' => do
      advance
      unicodeEscape
  | some c =>
      match escape.simpleEscape? c with
      | some meaning => do
          advance
          return meaning
      | none => failNext .invalidEscape

theorem escape_eq : escape = peek >>= escapeFrom := rfl

theorem keeps_escapeFrom (next : Option Char) : Keeps Escaped Quoted (escapeFrom next) := by
  unfold escapeFrom
  split
  · exact keeps_of_not_answers answers_failHere_iff
  · exact keeps_advance_escaped.bind fun _ => keeps_unicodeEscape
  · split
    · exact keeps_advance_escaped.bind fun _ => keeps_pure _
    · exact keeps_of_not_answers answers_failNext_iff

theorem keeps_escape : Keeps Escaped Quoted escape := by
  rw [escape_eq]
  intro cursor other c last hescaped hvalue
  obtain ⟨next, _, hpeek, hfound⟩ := answers_bind_iff.1 hvalue
  obtain ⟨rfl, hhead⟩ := answers_peek_iff.1 hpeek
  have hother : other.rest.head? = next := hescaped.next.1 ▸ hhead
  obtain ⟨final, hfinal, hafter⟩ := keeps_escapeFrom next hescaped hfound
  exact ⟨final, answers_bind_iff.2 ⟨next, _, answers_peek_iff.2 ⟨rfl, hother⟩, hfinal⟩, hafter⟩

theorem advances_unicodeEscape : unicodeEscape.Advances := by
  intro cursor c last hescape
  rcases hescape.unicodeEscape_cases with
    ⟨code, hcode⟩ | ⟨first, second, half, hfirst, hslash, hletter, hsecond⟩
  · exact hcode.length_le_of_hexEscape
  · have hhalf := hfirst.length_le_of_hexEscape
    have hbackslash := Cursor.length_next_of_head hslash
    have hmark := Cursor.length_next_of_head hletter
    have hend := hsecond.length_le_of_hexEscape
    omega

theorem advances_escape : escape.Advances := by
  refine advances_peek.bind fun next => ?_
  split
  · exact advances_of_not_answers answers_failHere_iff
  · exact advances_advance.bind fun _ => advances_unicodeEscape
  · split
    · exact advances_advance.bind fun _ => advances_pure _
    · exact advances_of_not_answers answers_failNext_iff

/-- The body of a string is read alike with as many steps as there are characters. -/
theorem stringBody_keeps {steps : Nat} : ∀ {fuel : Nat} {read : List Char}
    {cursor other last : Cursor} {s : String}, Quoted cursor other →
      (stringBody steps read).Answers cursor s last → other.rest.length < fuel →
      ∃ final, (stringBody fuel read).Answers other s final ∧ Spaced last final := by
  induction steps with
  | zero =>
      intro fuel read cursor other last s _ hbody
      simp [stringBody] at hbody
  | succ steps ih =>
      intro fuel read cursor other last s hquoted hbody hfuel
      obtain ⟨left, rfl⟩ : ∃ left, fuel = left + 1 := ⟨fuel - 1, by omega⟩
      rw [stringBody, answers_bind_iff] at hbody
      obtain ⟨next, cursor, hpeek, hbody⟩ := hbody
      obtain ⟨rfl, hhead⟩ := answers_peek_iff.1 hpeek
      simp only [stringBody, answers_bind_iff, answers_peek_iff]
      split at hbody
      · simp at hbody
      · obtain ⟨hother, hspaced⟩ := hquoted.closed hhead
        obtain ⟨rfl, rfl⟩ := by simpa using hbody
        exact ⟨other.next, ⟨_, _, ⟨rfl, hother⟩, by simp⟩, hspaced⟩
      · obtain ⟨hother, hescaped⟩ := hquoted.escaped hhead
        simp only [answers_bind_iff, answers_advance_iff] at hbody
        obtain ⟨⟨⟩, _, rfl, c, between, hescape, hbody⟩ := hbody
        obtain ⟨center, hcenter, hbetween⟩ := keeps_escape hescaped hescape
        have hlength := Cursor.length_next_of_head hother
        obtain ⟨final, hfinal, hspaced⟩ := @ih left _ _ _ _ _ hbetween hbody
          (by have := advances_escape _ _ _ hcenter; omega)
        refine ⟨final, ⟨_, _, ⟨rfl, hother⟩, ?_⟩, hspaced⟩
        simp only [answers_bind_iff, answers_advance_iff]
        exact ⟨(), _, rfl, c, center, hcenter, hfinal⟩
      · rename_i c hquote hslash
        by_cases hcontrol : c.toNat < 0x20
        · simp [hcontrol] at hbody
        · obtain ⟨hother, hnext⟩ := hquoted.next hhead hquote hslash
          have hbody : (stringBody steps (c :: read)).Answers cursor.next s last := by
            simpa [hcontrol] using hbody
          have hlength := Cursor.length_next_of_head hother
          obtain ⟨final, hfinal, hspaced⟩ := @ih left _ _ _ _ _ hnext hbody (by omega)
          exact ⟨final, ⟨_, _, ⟨rfl, hother⟩, by simpa [hcontrol] using hfinal⟩, hspaced⟩

/-- A string is read alike, as no blank in it may change. -/
theorem keeps_string : Keeps Quoted Spaced string := by
  intro cursor other s last hquoted hstring
  rw [string, answers_bind_iff] at hstring
  obtain ⟨steps, cursor, hremaining, hbody⟩ := hstring
  obtain ⟨rfl, -⟩ := answers_remaining_iff.1 hremaining
  obtain ⟨final, hfinal, hspaced⟩ := stringBody_keeps hquoted hbody (Nat.lt_succ_self _)
  refine ⟨final, ?_, hspaced⟩
  rw [string, answers_bind_iff]
  exact ⟨_, other, answers_remaining_iff.2 ⟨rfl, rfl⟩, hfinal⟩

theorem keeps_advance_quote : Keeps (At (some '"')) Quoted advance := by
  rintro cursor other ⟨⟩ last ⟨hspaced, hhead, hother⟩ hadvance
  obtain rfl := answers_advance_iff.1 hadvance
  refine ⟨other.next, answers_advance_iff.2 rfl, ?_⟩
  rw [Spaced, rest_eq_cons_of_head hhead, rest_eq_cons_of_head hother] at hspaced
  exact hspaced.behind_quote

theorem keeps_key : Keeps (At (some '"')) Spaced key :=
  keeps_advance_quote.bind fun _ => keeps_string

theorem At.spaced {c : Option Char} (hat : At c cursor other) : Spaced cursor other :=
  hat.1

theorem keeps_nextItem (isFirst : Bool) : Keeps Spaced Spaced (nextItem isFirst) := by
  refine keeps_peekToken fun next => ?_
  split
  · exact keeps_of_not_answers answers_failNext_iff
  · exact (keeps_pure false).of_before At.spaced
  · rename_i c _
    cases isFirst with
    | true => exact (keeps_pure true).of_before At.spaced
    | false =>
        by_cases hcomma : c = ','
        · subst hcomma
          refine (keeps_advance (by decide) (by decide)).bind fun _ =>
            keeps_peekToken fun next => ?_
          split
          · exact keeps_of_not_answers answers_failNext_iff
          · exact keeps_of_not_answers answers_failNext_iff
          · exact (keeps_pure true).of_before At.spaced
        · simp only [Bool.false_eq_true, if_false, hcomma, ne_eq, not_false_eq_true, if_true]
          exact keeps_bind_of_not_answers answers_failNext_iff

theorem keeps_nextMember (isFirst : Bool) : Keeps Spaced Spaced (nextMember isFirst) := by
  refine keeps_peekToken fun next => ?_
  split
  · exact keeps_of_not_answers answers_failNext_iff
  · exact (keeps_pure false).of_before At.spaced
  · rename_i c _
    cases isFirst with
    | true =>
        by_cases hquote : c = '"'
        · simp only [if_true, hquote]
          exact (keeps_pure true).of_before At.spaced
        · simp only [if_true, hquote, if_false]
          exact keeps_of_not_answers answers_failNext_iff
    | false =>
        by_cases hcomma : c = ','
        · subst hcomma
          refine (keeps_advance (by decide) (by decide)).bind fun _ =>
            keeps_peekToken fun next => ?_
          split
          · exact keeps_of_not_answers answers_failNext_iff
          · exact (keeps_pure true).of_before At.spaced
          · exact keeps_of_not_answers answers_failNext_iff
          · exact keeps_of_not_answers answers_failNext_iff
        · simp only [Bool.false_eq_true, if_false, hcomma, ne_eq, not_false_eq_true, if_true]
          exact keeps_bind_of_not_answers answers_failNext_iff

theorem keeps_colon : Keeps Spaced Spaced colon := by
  refine keeps_peekToken fun next => ?_
  split
  · exact keeps_of_not_answers answers_failNext_iff
  · split
    · rename_i hcolon
      subst hcolon
      exact keeps_advance (by decide) (by decide)
    · exact keeps_of_not_answers answers_failNext_iff

theorem keeps_closeList : Keeps Spaced Spaced closeList := by
  refine keeps_peekToken fun next => ?_
  split
  · exact keeps_of_not_answers answers_failNext_iff
  · exact keeps_advance (by decide) (by decide)
  · refine (keeps_advance (by decide) (by decide)).bind fun _ => keeps_peekToken fun next => ?_
    split <;> exact keeps_of_not_answers answers_failNext_iff
  · exact keeps_of_not_answers answers_failNext_iff

theorem keeps_closeObject : Keeps Spaced Spaced closeObject := by
  refine keeps_peekToken fun next => ?_
  split
  · exact keeps_of_not_answers answers_failNext_iff
  · exact keeps_advance (by decide) (by decide)
  · exact keeps_of_not_answers answers_failNext_iff
  · exact keeps_of_not_answers answers_failNext_iff

variable {item : Reader α}

theorem Items.keeps (hitem : Keeps Spaced Spaced item) {isFirst : Bool} {values : List α}
    (hitems : Items item isFirst cursor values last) (hspaced : Spaced cursor other) :
    ∃ final, Items item isFirst other values final ∧ Spaced last final := by
  induction hitems generalizing other with
  | done hnext =>
      obtain ⟨final, hfinal, hlast⟩ := keeps_nextItem _ hspaced hnext
      exact ⟨final, .done hfinal, hlast⟩
  | more hnext hvalue _ ih =>
      obtain ⟨start, hstart, hspaced⟩ := keeps_nextItem _ hspaced hnext
      obtain ⟨between, hbetween, hspaced⟩ := hitem hspaced hvalue
      obtain ⟨final, hfinal, hlast⟩ := ih hspaced
      exact ⟨final, .more hstart hbetween hfinal, hlast⟩

theorem Members.keeps (hitem : Keeps Spaced Spaced item) {isFirst : Bool}
    {members : List (String × α)} (hmembers : Members item isFirst cursor members last)
    (hspaced : Spaced cursor other) :
    ∃ final, Members item isFirst other members final ∧ Spaced last final := by
  induction hmembers generalizing other with
  | done hnext =>
      obtain ⟨final, hfinal, hlast⟩ := keeps_nextMember _ hspaced hnext
      exact ⟨final, .done hfinal, hlast⟩
  | more hnext hkey hcolon hvalue _ ih =>
      obtain ⟨start, hstart, hspaced⟩ := keeps_nextMember _ hspaced hnext
      obtain ⟨_, hhead, rfl⟩ := hnext.member_turn.exists_head
      obtain ⟨_, hother, rfl⟩ := hstart.member_turn.exists_head
      obtain ⟨named, hnamed, hspaced⟩ := keeps_key ⟨hspaced, hhead, hother⟩ hkey
      obtain ⟨colons, hcolons, hspaced⟩ := keeps_colon hspaced hcolon
      obtain ⟨between, hbetween, hspaced⟩ := hitem hspaced hvalue
      obtain ⟨final, hfinal, hlast⟩ := ih hspaced
      exact ⟨final, .more hstart hnamed hcolons hbetween hfinal, hlast⟩

/-- Every item takes up some of the text. -/
theorem Items.length_le (hitem : item.Skippable) {isFirst : Bool} {values : List α}
    (hitems : Items item isFirst cursor values last) : values.length ≤ cursor.rest.length := by
  induction hitems with
  | done => exact Nat.zero_le _
  | @more _ cursor start between after value values hnext hvalue _ ih =>
      have hless := (hitem hvalue).1
      have hstart := start.length_token_le
      have hturn := hnext.item_turn.length_le
      rw [List.length_cons]
      omega

theorem Members.length_le (hitem : item.Skippable) {isFirst : Bool}
    {members : List (String × α)} (hmembers : Members item isFirst cursor members last) :
    members.length ≤ cursor.rest.length := by
  induction hmembers with
  | done => exact Nat.zero_le _
  | @more _ cursor start named colons between after name value members hnext hkey hcolon hvalue _
      ih =>
      have hless := (hitem hvalue).1
      have htoken := colons.length_token_le
      have hcolons := hcolon.length_le_of_colon
      obtain ⟨⟨⟩, _, hadvance, hstring⟩ := answers_bind_iff.1 hkey
      obtain rfl := answers_advance_iff.1 hadvance
      have hnamed := (skipString_of_string hstring).2
      have hstart := start.length_next_le
      have hturn := hnext.member_turn.length_le
      rw [List.length_cons]
      omega

theorem keeps_items (hitem : Keeps Spaced Spaced item) (hskippable : item.Skippable) :
    Keeps Spaced Spaced (items item) := by
  intro cursor other values last hspaced hvalues
  obtain ⟨hitems, -⟩ := answers_items_iff.1 hvalues
  obtain ⟨final, hfinal, hlast⟩ := hitems.keeps hitem hspaced
  exact ⟨final, answers_items_iff.2 ⟨hfinal, hfinal.length_le hskippable⟩, hlast⟩

theorem keeps_members (hitem : Keeps Spaced Spaced item) (hskippable : item.Skippable) :
    Keeps Spaced Spaced (members (fun name read => do
      colon
      return (name, ← item) :: read) []) := by
  intro cursor other entries last hspaced hentries
  obtain ⟨hmembers, -⟩ := answers_members_iff.1 hentries
  obtain ⟨final, hfinal, hlast⟩ := hmembers.keeps hitem hspaced
  exact ⟨final, answers_members_iff.2
    ⟨hfinal, by simpa using hfinal.length_le hskippable⟩, hlast⟩

theorem keeps_closedBy {reader : Reader α} {close : Reader Unit}
    (hreader : Keeps Spaced Spaced reader) (hclose : Keeps Spaced Spaced close) :
    Keeps Spaced Spaced (closedBy reader close) := by
  intro cursor other value last hspaced hvalue
  obtain ⟨inside, hinside, hlast⟩ := answers_closedBy_iff.1 hvalue
  obtain ⟨center, hcenter, hspaced⟩ := hreader hspaced hinside
  obtain ⟨final, hfinal, hspaced⟩ := hclose hspaced hlast
  exact ⟨final, answers_closedBy_iff.2 ⟨center, hcenter, hfinal⟩, hspaced⟩

/-- Values of any kind are read alike from texts that differ in blanks. By induction on the depth
that is left. -/
theorem keeps_value (depth : Nat) : Keeps Spaced Spaced (value depth) := by
  induction depth using Nat.strongRecOn with
  | ind depth ih =>
      have hdeeper : ∀ {inner : Nat → Reader Json} {c : Char},
          (∀ left < depth, Keeps (At (some c)) Spaced (inner left)) →
          Keeps (At (some c)) Spaced (deeper depth inner) := by
        intro inner c hinner
        cases depth with
        | zero => exact keeps_of_not_answers answers_failNext_iff
        | succ left => exact hinner left (Nat.lt_succ_self left)
      rw [value_eq]
      refine keeps_peekToken fun next => ?_
      split
      · exact keeps_of_not_answers answers_failNext_iff
      · exact (keeps_advance_word (by decide)).bind fun _ =>
          ((keeps_word (by decide)).bind fun _ => keeps_pure _).to_after And.left
      · exact (keeps_advance_word (by decide)).bind fun _ =>
          ((keeps_word (by decide)).bind fun _ => keeps_pure _).to_after And.left
      · exact (keeps_advance_word (by decide)).bind fun _ =>
          ((keeps_word (by decide)).bind fun _ => keeps_pure _).to_after And.left
      · exact (keeps_advance_word (by decide)).bind fun _ =>
          (keeps_number.bind fun _ => keeps_pure _).to_after And.left
      · exact keeps_advance_quote.bind fun _ => keeps_string.bind fun _ => keeps_pure _
      · refine hdeeper fun left hleft => ?_
        refine Keeps.bind ?_ fun _ => keeps_pure _
        exact (keeps_advance (by decide) (by decide)).bind fun _ =>
          keeps_closedBy (keeps_items (ih left hleft) (skippable_value left)) keeps_closeList
      · refine hdeeper fun left hleft => ?_
        refine Keeps.bind ?_ fun _ => keeps_pure _
        exact (keeps_advance (by decide) (by decide)).bind fun _ =>
          keeps_closedBy (keeps_members (ih left hleft) (skippable_value left)) keeps_closeObject
      · split
        · exact ((keeps_number.of_before At.level).bind fun _ => keeps_pure _).to_after And.left
        · exact keeps_of_not_answers answers_failNext_iff

theorem keeps_atEnd : Keeps Spaced Spaced atEnd := by
  refine keeps_peekToken fun next => ?_
  split
  · exact (keeps_pure ()).of_before At.spaced
  · exact keeps_of_not_answers answers_failNext_iff

end Reader

/-- Texts that differ only in blanks between their tokens stand for one value. -/
theorem parse_of_respaced {text other : String} {json : Json}
    (hrespaced : Respaced false text.toList other.toList) (hparse : parse text = .ok json) :
    parse other = .ok json := by
  obtain ⟨after, last, hvalue, hend⟩ := Reader.parse_eq_ok_iff.1 hparse
  have hstart : Spaced (Cursor.start text) (Cursor.start other) := hrespaced
  obtain ⟨center, hcenter, hspaced⟩ := Reader.keeps_value maxDepth hstart hvalue
  obtain ⟨final, hfinal, -⟩ := Reader.keeps_atEnd hspaced hend
  exact Reader.parse_eq_ok_iff.2 ⟨center, final, hcenter, hfinal⟩

/-- A blank may stand behind a bracket, but `1 2` is not `12`. -/
example : Respaced false ['[', ' ', '1', '2', ']'] ['[', '1', '2', ' ', ']'] :=
  .same rfl (by decide) (by decide) <| .left rfl <| .same rfl (by decide) (fun _ => rfl) <|
    .same rfl (by decide) (fun _ => rfl) <| .right rfl <| .same rfl (by decide) (by decide) .done

end StackBridge.Json
