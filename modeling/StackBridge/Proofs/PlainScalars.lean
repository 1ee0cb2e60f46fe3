/-
Plain scalars as they are written. The words of a text and the spaces between them are read one
after another up to the end of the line or up to the colon behind a key, and nothing within the text
ends it before.
-/
import StackBridge.Proofs.Cursors

namespace StackBridge.Yaml

/-- A text is a word, spaces, and what follows them. -/
theorem exists_word (cs : List Char) : ∃ word count next,
    cs = word ++ (List.replicate count ' ' ++ next) ∧ (∀ c ∈ word, c ≠ ' ') ∧
      next.head? ≠ some ' ' ∧ (count = 0 → next = []) := by
  induction cs with
  | nil => exact ⟨[], 0, [], rfl, by simp, by simp, fun _ => rfl⟩
  | cons c rest ih =>
      obtain ⟨word, count, next, hrest, hword, hnext, hcount⟩ := ih
      by_cases hspace : c = ' '
      · cases word with
        | nil =>
            exact ⟨[], count + 1, next, by rw [hrest, hspace]; rfl, by simp, hnext, by simp⟩
        | cons d word =>
            refine ⟨[], 1, rest, by rw [hspace]; rfl, by simp, ?_, by simp⟩
            rw [hrest]
            simpa using hword d List.mem_cons_self
      · exact ⟨c :: word, count, next, by rw [hrest]; rfl,
          List.forall_mem_cons.2 ⟨hspace, hword⟩, hnext, hcount⟩

/-- What a text needs to be read as one plain scalar on one line. -/
structure PlainText (cs : List Char) : Prop where
  line : ∀ c ∈ cs, isBreak c = false ∧ (isBlank c = true → c = ' ')
  colon : ∀ front back, cs = front ++ ':' :: back → endsWord back.head? = false
  comment : ∀ front back, cs ≠ front ++ ' ' :: '#' :: back
  first : ∃ c rest, cs = c :: rest ∧ c ≠ ' ' ∧ c ≠ '#'
  last : cs.getLast? ≠ some ' '

namespace PlainText

variable {cs : List Char}

/-- Every further word is the first one of such a text. -/
theorem behind_spaces {word next : List Char} {count : Nat}
    (htext : PlainText (word ++ (List.replicate (count + 1) ' ' ++ next)))
    (hnext : next.head? ≠ some ' ') : PlainText next where
  line c hc := htext.line c (by simp [hc])
  colon front back hsplit :=
    htext.colon (word ++ (List.replicate (count + 1) ' ' ++ front)) back (by simp [hsplit])
  comment front back hsplit :=
    htext.comment (word ++ (List.replicate (count + 1) ' ' ++ front)) back (by simp [hsplit])
  first := by
    cases next with
    | nil =>
        refine absurd ?_ htext.last
        rw [List.append_nil, List.replicate_succ', ← List.append_assoc, List.getLast?_append]
        rfl
    | cons c others =>
        refine ⟨c, others, rfl, by simpa using hnext, ?_⟩
        rintro rfl
        refine htext.comment (word ++ List.replicate count ' ') others ?_
        rw [List.replicate_succ']
        simp
  last := by
    intro hlast
    refine htext.last ?_
    rw [List.getLast?_append, List.getLast?_append, hlast]
    rfl

/-- Such a text is a word, or a word in front of spaces and another such text. -/
theorem split (htext : PlainText cs) : ∃ word count next,
    cs = word ++ (List.replicate count ' ' ++ next) ∧ word ≠ [] ∧
      (∀ c ∈ word, isBlank c = false ∧ isBreak c = false) ∧
      (count = 0 ∧ next = [] ∨ count ≠ 0 ∧ PlainText next) := by
  obtain ⟨word, count, next, rfl, hword, hnext, hcount⟩ := exists_word cs
  refine ⟨word, count, next, rfl, ?_, ?_, ?_⟩
  · rintro rfl
    obtain ⟨c, rest, hfirst, hspace, -⟩ := htext.first
    cases count with
    | zero => simp [hcount rfl] at hfirst
    | succ count => exact hspace (List.cons.inj hfirst).1.symm
  · intro c hc
    obtain ⟨hbreak, hblank⟩ := htext.line c (List.mem_append_left _ hc)
    exact ⟨by simpa using mt hblank (hword c hc), hbreak⟩
  · cases count with
    | zero => exact Or.inl ⟨rfl, hcount rfl⟩
    | succ count => exact Or.inr ⟨Nat.succ_ne_zero count, htext.behind_spaces hnext⟩

theorem startsWord (htext : PlainText cs) (rest : List Char) :
    ∃ c others, cs ++ rest = c :: others ∧ isBlank c = false ∧ isBreak c = false := by
  obtain ⟨c, others, rfl, hspace, -⟩ := htext.first
  obtain ⟨hbreak, hblank⟩ := htext.line c List.mem_cons_self
  exact ⟨c, others ++ rest, rfl, by simpa using mt hblank hspace, hbreak⟩

end PlainText

namespace Lexer

variable {start stop : Mark} {mark : Mark} {indent : Int} {steps : Nat}

/-- Whether a plain word ends here. -/
def EndsPlainWord : List Char → Prop
  | [] => True
  | c :: rest => isBlank c = true ∨ isBreak c = true ∨ c = ':' ∧ endsWord rest.head? = true

/-- A plain word ends at once before what ends it. -/
theorem plainWord_at_end {rest : List Char} (hrest : EndsPlainWord rest) (steps : Nat)
    (read : List Char) (mark : Mark) :
    (plainWord false start steps read).Lexes ⟨rest, mark⟩ read.reverse ⟨rest, mark⟩ := by
  cases steps with
  | zero => exact lexes_pure _ _
  | succ steps =>
      unfold plainWord
      refine (lexes_peek _ _).bind ?_
      cases rest with
      | nil => exact lexes_pure _ _
      | cons c others =>
          simp only [Cursor.at?, List.drop_zero, List.head?_cons]
          by_cases hblank : (isBlank c || isBreak c) = true
          · rw [if_pos hblank]
            exact lexes_pure _ _
          · rw [if_neg hblank]
            refine (lexes_peek _ _).bind ?_
            obtain ⟨rfl, hnext⟩ : c = ':' ∧ endsWord others.head? = true := by
              rw [Bool.or_eq_true, not_or] at hblank
              exact (hrest.resolve_left hblank.1).resolve_left hblank.2
            simp only [Cursor.at?, List.drop_succ_cons, List.drop_zero, hnext, Bool.false_and,
              Bool.false_eq_true, if_false, decide_true, Bool.and_self, Bool.or_false, if_true]
            exact lexes_pure _ _

/-- A word is read up to the blank or the mark that ends it. -/
theorem lexes_plainWord {word rest : List Char}
    (hword : ∀ c ∈ word, isBlank c = false ∧ isBreak c = false)
    (hcolon : ∀ front back, word = front ++ ':' :: back → endsWord (back ++ rest).head? = false)
    (hrest : EndsPlainWord rest) {steps : Nat} (hsteps : word.length ≤ steps) (read : List Char)
    (mark : Mark) :
    (plainWord false start steps read).Lexes ⟨word ++ rest, mark⟩ (read.reverse ++ word)
      ⟨rest, mark.over word⟩ := by
  induction word generalizing steps read mark with
  | nil =>
      rw [List.append_nil]
      exact plainWord_at_end hrest steps read mark
  | cons c others ih =>
      obtain ⟨steps, rfl⟩ : ∃ before, steps = before + 1 := ⟨steps - 1, by
        rw [List.length_cons] at hsteps
        omega⟩
      obtain ⟨⟨hblank, hbreak⟩, hothers⟩ := List.forall_mem_cons.1 hword
      have hinner : (c = ':' && endsWord (others ++ rest).head?) = false := by
        by_cases hc : c = ':'
        · rw [hcolon [] others (by rw [hc]; rfl), Bool.and_false]
        · simp [hc]
      unfold plainWord
      refine (lexes_peek _ _).bind ?_
      simp only [Cursor.at?, List.drop_zero, List.cons_append, List.head?_cons, hblank, hbreak,
        Bool.or_self, Bool.false_eq_true, if_false]
      refine (lexes_peek _ _).bind ?_
      simp only [Cursor.at?, List.drop_succ_cons, List.drop_zero, Bool.false_and,
        Bool.false_eq_true, if_false, hinner, Bool.or_self]
      refine (lexes_advance hbreak _ _).bind ?_
      have hmore := ih hothers
        (fun front back hsplit => hcolon (c :: front) back (by rw [hsplit]; rfl))
        (Nat.le_of_succ_le_succ hsteps) (c :: read) (mark.past c)
      rw [List.reverse_cons, List.append_assoc] at hmore
      exact hmore

/-- What a plain scalar does behind a word. -/
def plainBehind (indent : Int) (start : Mark) (steps : Nat) (read : List Char) (stop : Mark) :
    Lexer (List Char × Mark × Bool) := do
  if !(← peek).any (fun c => isBlank c || isBreak c) then
    return (read, stop, Gap.none.firstBreak.isSome)
  let gap ← gapFrom (fun c => do
    if c = '\t' && ((← here).column : Int) < indent then
      fail .tabBreaksIndentation .scanningPlain start) (← remaining) Gap.none
  if !false && ((← here).column : Int) < indent then
    return (read, stop, gap.firstBreak.isSome)
  plainBody false indent start steps read gap stop

variable {value : List Char × Mark × Bool} {after : Cursor} {read rest : List Char}

/-- A word is put behind the gap before it. -/
theorem plainBody_of_word {word : List Char} {gap : Gap} (hempty : word ≠ [])
    (hword : ∀ c ∈ word, isBlank c = false ∧ isBreak c = false)
    (hcolon : ∀ front back, word = front ++ ':' :: back → endsWord (back ++ rest).head? = false)
    (hrest : EndsPlainWord rest)
    (hmarker : (Cursor.mk (word ++ rest) mark).atDocumentMarker = false)
    (hcomment : word.head? ≠ some '#')
    (hbehind : (plainBehind indent start steps (read ++ gap.fold ++ word) (mark.over word)).Lexes
      ⟨rest, mark.over word⟩ value after) :
    (plainBody false indent start (steps + 1) read gap stop).Lexes ⟨word ++ rest, mark⟩ value
      after := by
  have hfirst : ¬ (Cursor.mk (word ++ rest) mark).at? 0 = some '#' := by
    cases word with
    | nil => exact absurd rfl hempty
    | cons c others => exact hcomment
  have hfound : word.isEmpty = false := by simpa using hempty
  unfold plainBody
  refine (lexes_get _).bind ?_
  rw [if_neg (by simp [hmarker, hfirst])]
  refine (lexes_remaining _).bind ?_
  refine (lexes_plainWord hword hcolon hrest (by simp; omega) [] mark).bind ?_
  simp only [List.reverse_nil, List.nil_append, hfound, Bool.false_eq_true, if_false]
  exact (lexes_here _).bind hbehind

/-- Spaces between two words are kept in the gap. -/
theorem plainBehind_spaces {count : Nat} (hcount : count ≠ 0) (hrest : StartsWord rest)
    (hindent : indent ≤ (mark.over (List.replicate count ' ')).column)
    (hbody : (plainBody false indent start steps read ⟨List.replicate count ' ', .none, []⟩
      stop).Lexes ⟨rest, mark.over (List.replicate count ' ')⟩ value after) :
    (plainBehind indent start steps read stop).Lexes ⟨List.replicate count ' ' ++ rest, mark⟩ value
      after := by
  obtain ⟨more, rfl⟩ : ∃ more, count = more + 1 := ⟨count - 1, by omega⟩
  unfold plainBehind
  refine (lexes_peek _ _).bind ?_
  rw [if_neg (by simp [Cursor.at?, List.replicate_succ, isBlank])]
  refine (lexes_remaining _).bind ?_
  refine (gapFrom_blanks (by simp; omega) [] hrest mark).bind ?_
  refine (lexes_here _).bind ?_
  rw [if_neg (by simpa using hindent)]
  exact hbody

/-- The colon behind a key ends the scalar. -/
theorem plainBehind_colon :
    (plainBehind indent start steps read stop).Lexes ⟨':' :: rest, mark⟩ (read, stop, false)
      ⟨':' :: rest, mark⟩ := by
  unfold plainBehind
  refine (lexes_peek _ _).bind ?_
  rw [if_pos (by simp [Cursor.at?, isBlank, isBreak])]
  exact lexes_pure _ _

/-- Where the text is at its end nothing is added. -/
theorem plainBody_at_end {gap : Gap} (mark : Mark) :
    (plainBody false indent start steps read gap stop).Lexes ⟨[], mark⟩
      (read, stop, gap.firstBreak.isSome) ⟨[], mark⟩ := by
  cases steps with
  | zero => exact lexes_pure _ _
  | succ steps =>
      unfold plainBody
      refine (lexes_get _).bind ?_
      rw [if_neg (by simp [Cursor.atDocumentMarker, Cursor.atMarker, Cursor.at?])]
      refine (lexes_remaining _).bind ?_
      have hends : EndsPlainWord [] := trivial
      refine (plainWord_at_end hends _ [] mark).bind ?_
      exact lexes_pure _ _

/-- So does the end of the line, if the next one is not deeper than the block. -/
theorem plainBehind_line {count : Nat} (hrest : StartsWord rest)
    (hcount : rest = [] ∨ (count : Int) < indent) :
    (plainBehind indent start steps read stop).Lexes
      ⟨'\n' :: (List.replicate count ' ' ++ rest), mark⟩ (read, stop, true)
      ⟨rest, (mark.past '\n').over (List.replicate count ' ')⟩ := by
  have hcheck : ∀ cursor : Cursor, ((do
      if ' ' = '\t' && ((← here).column : Int) < indent then
        fail .tabBreaksIndentation .scanningPlain start) : Lexer Unit).Lexes cursor () cursor :=
    fun cursor => (lexes_here _).bind (lexes_pure _ _)
  have hbreaks : ∀ c ∈ ['\n'], isBreak c = true ∧ isPrintable c = true := by
    intro c hc
    obtain rfl := List.mem_singleton.1 hc
    decide
  have hcolumn : ((mark.past '\n').over (List.replicate count ' ')).column = count := by
    rw [Mark.over_line (by simp [isBreak]), Mark.past_of_break (by decide)]
    simp
  unfold plainBehind
  refine (lexes_peek _ _).bind ?_
  rw [if_neg (by simp [Cursor.at?, isBreak])]
  refine (lexes_remaining _).bind ?_
  refine (gapFrom_of_break hcheck hbreaks (by simp; omega) hrest mark).bind ?_
  refine (lexes_here _).bind ?_
  by_cases hindent : (count : Int) < indent
  · rw [if_pos (by simpa [hcolumn] using hindent)]
    exact lexes_pure _ _
  · rw [if_neg (by simpa [hcolumn] using hindent)]
    obtain rfl := hcount.resolve_right hindent
    exact plainBody_at_end _

/-- The words of a text are read with the gaps between them, as a colon within the text is followed
by what cannot end a word. What stands behind the text is left to `plainBehind`. -/
theorem lexes_plainBody (start : Mark) {broke : Bool} {text tail : List Char}
    (htext : PlainText text)
    (hmarker : (Cursor.mk (text ++ tail) mark).atDocumentMarker = false)
    (hindent : indent ≤ mark.column + 1) (hsteps : text.length ≤ steps)
    (htail : EndsPlainWord tail)
    (hend : ∀ steps read, (plainBehind indent start steps read (mark.over text)).Lexes
      ⟨tail, mark.over text⟩ (read, mark.over text, broke) after)
    (read : List Char) (gap : Gap) (stop : Mark) :
    (plainBody false indent start steps read gap stop).Lexes ⟨text ++ tail, mark⟩
      (read ++ gap.fold ++ text, mark.over text, broke) after := by
  induction hsize : text.length using Nat.strongRecOn
    generalizing text steps read gap stop mark with
  | ind size ih =>
      obtain ⟨word, count, next, rfl, hempty, hword, hmore⟩ := htext.split
      have hlength := List.length_pos_iff.2 hempty
      simp only [List.length_append, List.length_replicate] at hsteps hsize
      obtain ⟨steps, rfl⟩ : ∃ before, steps = before + 1 := ⟨steps - 1, by omega⟩
      have hcolon : ∀ front back, word = front ++ ':' :: back →
          endsWord (back ++ (List.replicate count ' ' ++ (next ++ tail))).head? = false := by
        rintro front back rfl
        have hinner := htext.colon front (back ++ (List.replicate count ' ' ++ next)) (by simp)
        rw [← List.append_assoc (List.replicate count ' '), ← List.append_assoc back]
        cases hbehind : back ++ (List.replicate count ' ' ++ next) with
        | nil =>
            rw [hbehind] at hinner
            cases hinner
        | cons c others =>
            rw [hbehind] at hinner
            exact hinner
      have hcomment : word.head? ≠ some '#' := by
        obtain ⟨c, rest, hfirst, -, hc⟩ := htext.first
        cases word with
        | nil => exact absurd rfl hempty
        | cons d others =>
            rw [(List.cons.inj hfirst).1]
            simpa using hc
      rw [List.append_assoc, List.append_assoc] at hmarker ⊢
      rcases hmore with ⟨rfl, rfl⟩ | ⟨hspaces, hnext⟩
      · simp only [List.replicate_zero, List.append_nil, List.nil_append] at *
        exact plainBody_of_word hempty hword hcolon htail hmarker hcomment (hend steps _)
      · have hcolumn : mark.column + 1 ≤
            ((mark.over word).over (List.replicate count ' ')).column := by
          rw [Mark.over_line (by simp [isBreak]), Mark.over_line fun c hc => (hword c hc).2]
          simp only
          omega
        have hbehind : ∀ steps read, (plainBehind indent start steps read
            (((mark.over word).over (List.replicate count ' ')).over next)).Lexes
              ⟨tail, ((mark.over word).over (List.replicate count ' ')).over next⟩
              (read, ((mark.over word).over (List.replicate count ' ')).over next,
                broke) after := by
          simpa only [Mark.over_append] using hend
        have hrest := ih next.length (by omega) hnext (atDocumentMarker_of_column (by omega))
          (by omega) (show next.length ≤ steps by omega) hbehind
          (read ++ gap.fold ++ word) ⟨List.replicate count ' ', .none, []⟩ (mark.over word) rfl
        have hends : EndsPlainWord (List.replicate count ' ' ++ (next ++ tail)) := by
          obtain ⟨more, rfl⟩ : ∃ more, count = more + 1 := ⟨count - 1, by omega⟩
          exact Or.inl (by decide)
        have hstarts : StartsWord (next ++ tail) := by
          obtain ⟨c, others, hfirst, hblank, hbreak⟩ := hnext.startsWord tail
          simp [StartsWord, hfirst, hblank, hbreak]
        have hbody : (plainBody false indent start (steps + 1) read gap stop).Lexes _ _ _ :=
          plainBody_of_word hempty hword hcolon hends hmarker hcomment
            (plainBehind_spaces hspaces hstarts (by omega) hrest)
        simpa only [Mark.over_append, List.append_assoc, Gap.fold] using hbody

variable {text : List Char} {tail : List Char} {parent : Int}

/-- A plain key, up to its colon. -/
theorem lexes_plain_key (htext : PlainText text) (hnext : endsWord tail.head? = true)
    (hmarker : (Cursor.mk (text ++ ':' :: tail) mark).atDocumentMarker = false)
    (hparent : parent ≤ mark.column) :
    ∃ token, token.kind = .scalar (String.ofList text) .plain ∧
      (plain false parent).Lexes ⟨text ++ ':' :: tail, mark⟩ (token, false)
        ⟨':' :: tail, mark.over text⟩ := by
  have hbody := lexes_plainBody mark htext hmarker (show parent + 1 ≤ mark.column + 1 by omega)
    (show text.length ≤ (text ++ ':' :: tail).length + 1 by simp; omega)
    (Or.inr (Or.inr ⟨rfl, hnext⟩)) (fun _ _ => plainBehind_colon) [] Gap.none mark
  exact ⟨_, rfl, (lexes_here _).bind ((lexes_remaining _).bind (hbody.bind (lexes_pure _ _)))⟩

/-- A plain scalar is read past the end of its line, up to what stands on the next one. -/
theorem lexes_plain_line (htext : PlainText text) {count : Nat}
    (hmarker : (Cursor.mk (text ++ '\n' :: (List.replicate count ' ' ++ tail))
      mark).atDocumentMarker = false)
    (hparent : parent ≤ mark.column) (htail : StartsWord tail)
    (hcount : tail = [] ∨ (count : Int) ≤ parent) :
    ∃ token, token.kind = .scalar (String.ofList text) .plain ∧
      (plain false parent).Lexes ⟨text ++ '\n' :: (List.replicate count ' ' ++ tail), mark⟩
        (token, true)
        ⟨tail, ((mark.over text).past '\n').over (List.replicate count ' ')⟩ := by
  have hdeeper : tail = [] ∨ (count : Int) < parent + 1 := hcount.imp id (by omega)
  have hbody := lexes_plainBody mark htext hmarker (show parent + 1 ≤ mark.column + 1 by omega)
    (show text.length ≤
      (text ++ '\n' :: (List.replicate count ' ' ++ tail)).length + 1 by simp; omega)
    (Or.inr (Or.inl (by decide))) (fun _ _ => plainBehind_line htail hdeeper) [] Gap.none mark
  exact ⟨_, rfl, (lexes_here _).bind ((lexes_remaining _).bind (hbody.bind (lexes_pure _ _)))⟩

end Lexer

theorem endsWord_of_endsWordAt {next : Option Char} (hnext : endsWordAt next = false) :
    endsWord next = false :=
  (Bool.or_eq_false_iff.1 hnext).1

theorem not_hasInnerMark {front back : List Char} {c d : Char}
    (hmark : hasInnerMark (front ++ c :: d :: back) = false) :
    (d = ':' → endsWordAt back.head? = false) ∧ (d = '#' → endsWordAt (some c) = false) := by
  induction front with
  | nil =>
      simp only [List.nil_append, hasInnerMark, Bool.or_eq_false_iff] at hmark
      obtain ⟨⟨hcolon, hcomment⟩, -⟩ := hmark
      exact ⟨fun hd => by simpa [hd] using hcolon, fun hd => by simpa [hd] using hcomment⟩
  | cons e rest ih =>
      refine ih ?_
      cases hrest : rest ++ c :: d :: back with
      | nil => rfl
      | cons f others =>
          rw [List.cons_append, hrest, hasInnerMark, Bool.or_eq_false_iff] at hmark
          exact hmark.2

/-- What can be written plain is read as one plain scalar. -/
theorem plainText_of_allowsPlain {cs : List Char} (hcs : cs ≠ []) (hplain : allowsPlain cs = true) :
    PlainText cs := by
  unfold allowsPlain at hplain
  simp only [Bool.and_eq_true, Bool.not_eq_true'] at hplain
  obtain ⟨⟨⟨⟨⟨hhead, hlast⟩, hescapes⟩, hbreaks⟩, hstart⟩, hinner⟩ := hplain
  have hprintable : ∀ c ∈ cs, isPrintable c = true := by
    intro c hc
    have := List.any_eq_false.1 (Bool.or_eq_false_iff.1 hescapes).1 c hc
    simpa using this
  obtain ⟨c, rest, rfl⟩ := List.exists_cons_of_ne_nil hcs
  have hspace : c ≠ ' ' := by
    rintro rfl
    exact absurd hhead (by simp [isSpace])
  constructor
  case line =>
    intro d hd
    refine ⟨by simpa using List.any_eq_false.1 hbreaks d hd, fun hblank => ?_⟩
    rw [isBlank_of_isPrintable (hprintable d hd)] at hblank
    simpa [isSpace] using hblank
  case colon =>
    intro front back hsplit
    refine endsWord_of_endsWordAt ?_
    rcases List.eq_nil_or_concat front with rfl | ⟨front, d, rfl⟩
    · obtain ⟨rfl, rfl⟩ := List.cons.inj hsplit
      simp [startsWithMark] at hstart
      exact hstart
    · rw [hsplit, List.concat_eq_append, List.append_assoc] at hinner
      exact (not_hasInnerMark hinner).1 rfl
  case comment =>
    intro front back hsplit
    rw [hsplit] at hinner
    exact absurd ((not_hasInnerMark hinner).2 rfl) (by decide)
  case first =>
    refine ⟨c, rest, rfl, hspace, ?_⟩
    rintro rfl
    simp [startsWithMark] at hstart
  case last =>
    intro hfound
    rw [hfound] at hlast
    exact absurd hlast (by simp [isSpace])

end StackBridge.Yaml
