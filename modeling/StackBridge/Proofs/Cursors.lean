/-
Lexers over texts that are known. A lexer that takes a text from the front of what is left moves the
mark over the characters of that text; the characters that are written as they are include three
that break a line.
-/
import StackBridge.Yaml.Style
import StackBridge.Yaml.Token.Scalar

namespace StackBridge.Yaml

def Mark.past (mark : Mark) (c : Char) : Mark :=
  if isBreak c then ⟨mark.index + 1, mark.line + 1, 0⟩
  else ⟨mark.index + 1, mark.line, mark.column + 1⟩

def Mark.over (mark : Mark) (cs : List Char) : Mark :=
  cs.foldl Mark.past mark

namespace Mark

variable {mark : Mark} {c : Char} {cs : List Char}

@[simp] theorem over_nil (mark : Mark) : mark.over [] = mark := rfl

@[simp] theorem over_cons (mark : Mark) (c : Char) (cs : List Char) :
    mark.over (c :: cs) = (mark.past c).over cs := rfl

theorem over_append (mark : Mark) (front back : List Char) :
    mark.over (front ++ back) = (mark.over front).over back :=
  List.foldl_append

theorem past_of_break (hc : isBreak c = true) :
    mark.past c = ⟨mark.index + 1, mark.line + 1, 0⟩ := by
  rw [past, if_pos hc]

theorem past_of_not_break (hc : isBreak c = false) :
    mark.past c = ⟨mark.index + 1, mark.line, mark.column + 1⟩ := by
  rw [past, if_neg (by simp [hc])]

/-- Within a line the column goes along with the index. -/
theorem over_line (hcs : ∀ c ∈ cs, isBreak c = false) :
    mark.over cs = ⟨mark.index + cs.length, mark.line, mark.column + cs.length⟩ := by
  induction cs generalizing mark with
  | nil => rfl
  | cons c rest ih =>
      rw [over_cons, past_of_not_break (hcs c List.mem_cons_self),
        ih fun d hd => hcs d (List.mem_cons_of_mem c hd), List.length_cons]
      simp only [mk.injEq, true_and]
      omega

theorem line_le_over (mark : Mark) (cs : List Char) : mark.line ≤ (mark.over cs).line := by
  induction cs generalizing mark with
  | nil => exact Nat.le_refl _
  | cons c rest ih =>
      refine Nat.le_trans ?_ (ih (mark.past c))
      unfold past
      split
      · exact Nat.le_succ _
      · exact Nat.le_refl _

theorem index_over (mark : Mark) (cs : List Char) :
    (mark.over cs).index = mark.index + cs.length := by
  induction cs generalizing mark with
  | nil => rfl
  | cons c rest ih =>
      have hpast : (mark.past c).index = mark.index + 1 := by
        unfold past
        split <;> rfl
      rw [over_cons, ih, hpast, List.length_cons]
      omega

end Mark

section Characters

variable {c : Char}

theorem isBlank_of_isPrintable (hc : isPrintable c = true) : isBlank c = isSpace c := by
  have htab : c ≠ '\t' := by
    rintro rfl
    exact absurd hc (by decide)
  simp [isBlank, isSpace, htab]

theorem not_isBlank_of_isBreak (hc : isBreak c = true) : isBlank c = false := by
  have hspace : c ≠ ' ' := by
    rintro rfl
    exact absurd hc (by decide)
  have htab : c ≠ '\t' := by
    rintro rfl
    exact absurd hc (by decide)
  simp [isBlank, hspace, htab]

/-- A break that is written as it is stands for itself. -/
theorem nextLine_of_isBreak (hbreak : isBreak c = true) (hprintable : isPrintable c = true)
    (rest : List Char) (mark : Mark) :
    Cursor.nextLine ⟨c :: rest, mark⟩ = ([c], ⟨rest, mark.past c⟩) := by
  have hreturn : c ≠ '\r' := by
    rintro rfl
    exact absurd hprintable (by decide)
  have hnel : c.toNat ≠ 0x85 := by
    intro hc
    simp [isPrintable, hc] at hprintable
  unfold Cursor.nextLine
  rw [Mark.past_of_break hbreak]
  split
  · rename_i hrest
    exact absurd (List.cons.inj hrest).1 hreturn
  · rename_i d others _ hrest
    obtain ⟨rfl, rfl⟩ := List.cons.inj hrest
    by_cases hfeed : c = '\n'
    · simp [hfeed]
    · simp [hreturn, hfeed, hnel, hbreak]
  · rename_i hrest
    cases hrest

end Characters

/-- Document markers stand at the start of a line only. -/
theorem atDocumentMarker_of_column {rest : List Char} {mark : Mark} (hcolumn : mark.column ≠ 0) :
    (Cursor.mk rest mark).atDocumentMarker = false := by
  simp [Cursor.atDocumentMarker, Cursor.atMarker, hcolumn]

namespace Lexer

variable {α β : Type} {lexer : Lexer α} {value : α} {before after : Cursor} {c : Char}
  {rest : List Char} {mark : Mark}

/-- Whether a lexer finds a value on its way from one place to another. -/
def Lexes (lexer : Lexer α) (before : Cursor) (value : α) (after : Cursor) : Prop :=
  lexer.run before = .ok (value, after)

theorem lexes_pure (value : α) (cursor : Cursor) :
    (pure value : Lexer α).Lexes cursor value cursor :=
  rfl

theorem Lexes.bind {next : α → Lexer β} {last : β} {final : Cursor}
    (hvalue : lexer.Lexes before value after) (hlast : (next value).Lexes after last final) :
    (lexer >>= next).Lexes before last final := by
  unfold Lexes at *
  rw [StateT.run_bind, hvalue]
  exact hlast

theorem lexes_peek (ahead : Nat) (cursor : Cursor) :
    (peek ahead).Lexes cursor (cursor.at? ahead) cursor :=
  rfl

theorem lexes_here (cursor : Cursor) : here.Lexes cursor cursor.mark cursor :=
  rfl

theorem lexes_get (cursor : Cursor) : (get : Lexer Cursor).Lexes cursor cursor cursor :=
  rfl

theorem lexes_remaining (cursor : Cursor) :
    remaining.Lexes cursor (cursor.rest.length + 1) cursor :=
  rfl

theorem lexes_advance (hc : isBreak c = false) (rest : List Char) (mark : Mark) :
    advance.Lexes ⟨c :: rest, mark⟩ () ⟨rest, mark.past c⟩ := by
  rw [Mark.past_of_not_break hc]
  rfl

theorem lexes_lineBreak (hbreak : isBreak c = true) (hprintable : isPrintable c = true)
    (rest : List Char) (mark : Mark) :
    lineBreak.Lexes ⟨c :: rest, mark⟩ [c] ⟨rest, mark.past c⟩ :=
  congrArg Except.ok (nextLine_of_isBreak hbreak hprintable rest mark)

theorem lexes_advanceBy (cs : List Char) (hcs : ∀ c ∈ cs, isBreak c = false) (rest : List Char)
    (mark : Mark) :
    (advanceBy cs.length).Lexes ⟨cs ++ rest, mark⟩ () ⟨rest, mark.over cs⟩ := by
  induction cs generalizing mark with
  | nil => exact lexes_pure () _
  | cons c others ih =>
      obtain ⟨hc, hothers⟩ := List.forall_mem_cons.1 hcs
      exact (lexes_advance hc _ _).bind (ih hothers _)

/-- A run of characters of one line that ends before the first one that fails a test. -/
theorem lexes_skipWhile {test : Char → Bool} {cs : List Char}
    (hcs : ∀ c ∈ cs, test c = true ∧ isBreak c = false) (hrest : ¬ rest.head?.any test = true)
    (mark : Mark) :
    (skipWhile test).Lexes ⟨cs ++ rest, mark⟩ () ⟨rest, mark.over cs⟩ := by
  have hstop : rest.takeWhile test = [] ∧ rest.dropWhile test = rest := by
    cases rest with
    | nil => exact ⟨rfl, rfl⟩
    | cons c others =>
        have hc : test c = false := by simpa using hrest
        simp [hc]
  have htake : (cs ++ rest).takeWhile test = cs := by
    rw [List.takeWhile_append_of_pos fun c hc => (hcs c hc).1, hstop.1, List.append_nil]
  have hdrop : (cs ++ rest).dropWhile test = rest := by
    rw [List.dropWhile_append_of_pos fun c hc => (hcs c hc).1, hstop.2]
  rw [Mark.over_line fun c hc => (hcs c hc).2]
  unfold skipWhile Cursor.skipWhile Lexes
  change Except.ok ((), Cursor.mk ((cs ++ rest).dropWhile test) _) = _
  simp only [htake, hdrop]

theorem lexes_takeWhile {test : Char → Bool} {cs : List Char}
    (hcs : ∀ c ∈ cs, test c = true ∧ isBreak c = false) (hrest : ¬ rest.head?.any test = true)
    (mark : Mark) :
    (takeWhile test).Lexes ⟨cs ++ rest, mark⟩ cs ⟨rest, mark.over cs⟩ := by
  have htake : (cs ++ rest).takeWhile test = cs := by
    rw [List.takeWhile_append_of_pos fun c hc => (hcs c hc).1]
    cases rest with
    | nil => simp
    | cons c others => simp [show test c = false by simpa using hrest]
  refine (lexes_get _).bind ((lexes_skipWhile hcs hrest mark).bind ?_)
  rw [htake]
  exact lexes_pure cs _

variable {check : Char → Lexer Unit}

/-- Whether neither a blank nor a break stands at the front. -/
def StartsWord (rest : List Char) : Prop :=
  ¬ rest.head?.any (fun c => isBlank c || isBreak c) = true

theorem gapFrom_at_word {steps : Nat} {gap : Gap} (hrest : StartsWord rest) (mark : Mark) :
    (gapFrom check steps gap).Lexes ⟨rest, mark⟩ gap ⟨rest, mark⟩ := by
  cases steps with
  | zero => exact lexes_pure gap _
  | succ steps =>
      unfold gapFrom
      refine (lexes_peek _ _).bind ?_
      cases rest with
      | nil => exact lexes_pure gap _
      | cons c others =>
          obtain ⟨hblank, hbreak⟩ : isBlank c = false ∧ isBreak c = false := by
            simpa [StartsWord] using hrest
          simp only [Cursor.at?, List.drop_zero, List.head?_cons, hblank, hbreak,
            Bool.false_eq_true, if_false]
          exact lexes_pure gap _

/-- Blanks within a line stand for themselves. -/
theorem gapFrom_blanks {count steps : Nat} (hsteps : count ≤ steps) (blanks : List Char)
    (hrest : StartsWord rest) (mark : Mark) :
    (gapFrom check steps ⟨blanks, .none, []⟩).Lexes ⟨List.replicate count ' ' ++ rest, mark⟩
      ⟨blanks ++ List.replicate count ' ', .none, []⟩
      ⟨rest, mark.over (List.replicate count ' ')⟩ := by
  induction count generalizing steps blanks mark with
  | zero => simpa using gapFrom_at_word hrest mark
  | succ count ih =>
      obtain ⟨steps, rfl⟩ : ∃ before, steps = before + 1 := ⟨steps - 1, by omega⟩
      unfold gapFrom
      refine (lexes_peek _ _).bind ?_
      refine (lexes_advance (by decide) _ _).bind ?_
      rw [List.replicate_succ, List.append_cons blanks ' ' (List.replicate count ' ')]
      exact ih (Nat.le_of_succ_le_succ hsteps) (blanks ++ [' ']) (mark.past ' ')

/-- Blanks behind a line break stand for nothing. -/
theorem gapFrom_margin (hcheck : ∀ cursor, (check ' ').Lexes cursor () cursor)
    {count steps : Nat} (hsteps : count ≤ steps) {gap : Gap} (hgap : gap.firstBreak.isSome = true)
    (hrest : StartsWord rest) (mark : Mark) :
    (gapFrom check steps gap).Lexes ⟨List.replicate count ' ' ++ rest, mark⟩ gap
      ⟨rest, mark.over (List.replicate count ' ')⟩ := by
  induction count generalizing steps mark with
  | zero => exact gapFrom_at_word hrest mark
  | succ count ih =>
      obtain ⟨steps, rfl⟩ : ∃ before, steps = before + 1 := ⟨steps - 1, by omega⟩
      unfold gapFrom
      refine (lexes_peek _ _).bind ?_
      change (if gap.firstBreak.isSome = true then _ else _ : Lexer Gap).Lexes _ _ _
      rw [if_pos hgap]
      refine (hcheck _).bind ((lexes_advance (by decide) _ _).bind ?_)
      exact ih (Nat.le_of_succ_le_succ hsteps) (mark.past ' ')

/-- Breaks behind the first one are kept. -/
theorem gapFrom_breaks (hcheck : ∀ cursor, (check ' ').Lexes cursor () cursor)
    {breaks : List Char} (hbreaks : ∀ c ∈ breaks, isBreak c = true ∧ isPrintable c = true)
    {count steps : Nat} (hsteps : breaks.length + count ≤ steps) (first later : List Char)
    (hrest : StartsWord rest) (mark : Mark) :
    (gapFrom check steps ⟨[], some first, later⟩).Lexes
      ⟨breaks ++ (List.replicate count ' ' ++ rest), mark⟩ ⟨[], some first, later ++ breaks⟩
      ⟨rest, (mark.over breaks).over (List.replicate count ' ')⟩ := by
  induction breaks generalizing steps later mark with
  | nil =>
      rw [List.append_nil]
      exact gapFrom_margin hcheck (by simpa using hsteps) rfl hrest mark
  | cons c others ih =>
      obtain ⟨steps, rfl⟩ : ∃ before, steps = before + 1 := ⟨steps - 1, by
        rw [List.length_cons] at hsteps
        omega⟩
      obtain ⟨⟨hbreak, hprintable⟩, hothers⟩ := List.forall_mem_cons.1 hbreaks
      unfold gapFrom
      refine (lexes_peek _ _).bind ?_
      simp only [Cursor.at?, List.drop_zero, List.cons_append, List.head?_cons,
        not_isBlank_of_isBreak hbreak, hbreak, Bool.false_eq_true, if_false, if_true]
      refine (lexes_lineBreak hbreak hprintable _ _).bind ?_
      have hfewer : others.length + count ≤ steps := by
        rw [List.length_cons] at hsteps
        omega
      rw [List.append_cons later c others, if_pos (by simp)]
      exact ih hothers hfewer (later ++ [c]) (mark.past c)

/-- A gap that begins with a break. -/
theorem gapFrom_of_break (hcheck : ∀ cursor, (check ' ').Lexes cursor () cursor)
    {breaks : List Char} (hbreaks : ∀ d ∈ c :: breaks, isBreak d = true ∧ isPrintable d = true)
    {count steps : Nat} (hsteps : breaks.length + count < steps) (hrest : StartsWord rest)
    (mark : Mark) :
    (gapFrom check steps Gap.none).Lexes
      ⟨c :: breaks ++ (List.replicate count ' ' ++ rest), mark⟩ ⟨[], some [c], breaks⟩
      ⟨rest, (mark.over (c :: breaks)).over (List.replicate count ' ')⟩ := by
  obtain ⟨steps, rfl⟩ : ∃ before, steps = before + 1 := ⟨steps - 1, by omega⟩
  obtain ⟨⟨hbreak, hprintable⟩, hothers⟩ := List.forall_mem_cons.1 hbreaks
  unfold gapFrom
  refine (lexes_peek _ _).bind ?_
  simp only [Cursor.at?, List.drop_zero, List.cons_append, List.head?_cons,
    not_isBlank_of_isBreak hbreak, hbreak, Bool.false_eq_true, if_false, if_true]
  refine (lexes_lineBreak hbreak hprintable _ _).bind ?_
  exact gapFrom_breaks hcheck hothers (by omega) [c] [] hrest (mark.past c)

end Lexer

end StackBridge.Yaml
