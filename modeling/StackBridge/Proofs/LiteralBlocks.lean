/-
Literal blocks as they are written. The digit and the sign behind the bar say what the lines cannot,
so every break of the text is found again, those before the first line and those behind the last one
included.
-/
import StackBridge.Proofs.QuotedScalars

namespace StackBridge.Yaml

namespace Lexer

variable {start mark : Mark} {rest : List Char} {c : Char}

theorem takeWhile_spaces {count : Nat} (hrest : rest.head? ≠ some ' ') :
    ((List.replicate count ' ' ++ rest).takeWhile (· = ' ')).length = count := by
  rw [List.takeWhile_append_of_pos (by simp)]
  cases rest with
  | nil => simp
  | cons c others =>
      have hc : c ≠ ' ' := by simpa using hrest
      simp [hc]

/-- The indentation of a line, up to the limit. -/
theorem marginFrom_line {limit count steps : Nat} (seen : Margin) (hsteps : steps ≠ 0)
    (hcolumn : mark.column = 0) (hbreak : rest.head?.any isBreak = false)
    (hcount : count = limit ∨ count < limit ∧ StartsWord rest) :
    ∃ width, (marginFrom (some limit) start steps seen).Lexes
      ⟨List.replicate count ' ' ++ rest, mark⟩ ⟨seen.breaks, width, seen.stop⟩
      ⟨rest, mark.over (List.replicate count ' ')⟩ := by
  obtain ⟨steps, rfl⟩ := Nat.exists_eq_succ_of_ne_zero hsteps
  have hmin : min ((List.replicate count ' ' ++ rest).takeWhile (· = ' ')).length
      (limit - mark.column) = count := by
    rcases hcount with rfl | ⟨hless, hstarts⟩
    · rw [List.takeWhile_append_of_pos (by simp), List.length_append, List.length_replicate]
      omega
    · rw [takeWhile_spaces (fun hspace => by simp [StartsWord, hspace, isBlank] at hstarts)]
      omega
  have hover : (mark.over (List.replicate count ' ')).column = count := by
    rw [Mark.over_line (by simp [isBreak])]
    simp [hcolumn]
  have hspaces := lexes_advanceBy (List.replicate count ' ') (by simp [isBreak]) rest mark
  rw [List.length_replicate] at hspaces
  have htab : ¬ (decide (count < limit) && decide (rest.head? = some '\t')) = true := by
    rcases hcount with rfl | ⟨-, hstarts⟩
    · simp
    · intro hboth
      simp only [Bool.and_eq_true, decide_eq_true_eq] at hboth
      simp [StartsWord, hboth.2, isBlank] at hstarts
  refine ⟨max seen.width count, ?_⟩
  unfold marginFrom
  refine (lexes_here _).bind ((lexes_get _).bind ?_)
  simp only [hmin]
  refine hspaces.bind ((lexes_here _).bind ?_)
  simp only [hover]
  refine (lexes_peek _ _).bind ?_
  rw [if_neg (by simpa [Cursor.at?] using htab)]
  refine (lexes_peek _ _).bind ?_
  rw [if_neg (by simp [Cursor.at?, hbreak])]
  exact lexes_pure _ _

/-- Empty lines, and the indentation of the line behind them. -/
theorem marginFrom_breaks (start : Mark) {limit count steps : Nat} {breaks : List Char}
    (hbreaks : ∀ c ∈ breaks, isBreak c = true ∧ isPrintable c = true)
    (hsteps : breaks.length < steps) (seen : Margin) (hcolumn : mark.column = 0)
    (hbreak : rest.head?.any isBreak = false)
    (hcount : count = limit ∨ count < limit ∧ StartsWord rest) :
    ∃ width stop, (marginFrom (some limit) start steps seen).Lexes
      ⟨breaks ++ (List.replicate count ' ' ++ rest), mark⟩ ⟨seen.breaks ++ breaks, width, stop⟩
      ⟨rest, (mark.over breaks).over (List.replicate count ' ')⟩ := by
  induction breaks generalizing steps seen mark with
  | nil =>
      obtain ⟨width, hline⟩ :=
        marginFrom_line seen (show steps ≠ 0 by omega) hcolumn hbreak hcount
      rw [List.append_nil]
      exact ⟨width, seen.stop, hline⟩
  | cons c others ih =>
      obtain ⟨steps, rfl⟩ : ∃ before, steps = before + 1 := ⟨steps - 1, by omega⟩
      obtain ⟨⟨hc, hprintable⟩, hothers⟩ := List.forall_mem_cons.1 hbreaks
      have hpast : (mark.past c).column = 0 := by rw [Mark.past_of_break hc]
      obtain ⟨width, stop, hmore⟩ := ih hothers (Nat.lt_of_succ_lt_succ hsteps)
        ⟨seen.breaks ++ [c], max seen.width mark.column, mark.past c⟩ hpast
      refine ⟨width, stop, ?_⟩
      have hspace : c ≠ ' ' := by
        rintro rfl
        exact absurd hc (by decide)
      have htab : c ≠ '\t' := by
        rintro rfl
        exact absurd hc (by decide)
      unfold marginFrom
      refine (lexes_here _).bind ((lexes_get _).bind ?_)
      simp only [List.cons_append, List.takeWhile_cons, hspace, decide_false, Bool.false_eq_true,
        if_false, List.length_nil, Nat.zero_min]
      refine (lexes_pure () _).bind ((lexes_here _).bind ((lexes_peek _ _).bind ?_))
      rw [if_neg (by simp [Cursor.at?, htab])]
      refine (lexes_peek _ _).bind ?_
      rw [if_pos (by simp [Cursor.at?, hc])]
      refine (lexes_lineBreak hc hprintable _ _).bind ((lexes_here _).bind ?_)
      rw [List.append_assoc] at hmore
      exact hmore

theorem blockLines_end {indent : Nat} (hcolumn : mark.column ≠ indent) (steps : Nat) (stop : Mark) :
    (blockLines indent start steps stop).Lexes ⟨rest, mark⟩ ([], stop) ⟨rest, mark⟩ := by
  cases steps with
  | zero => exact lexes_pure _ _
  | succ steps =>
      unfold blockLines
      refine (lexes_here _).bind ((lexes_peek _ _).bind ?_)
      rw [if_pos (by simp [hcolumn])]
      exact lexes_pure _ _

/-- A line with its break, the empty lines behind it, and the indentation of what follows. -/
theorem blockLines_cons {indent count steps : Nat} {text breaks : List Char} (stop : Mark)
    {lines : List BlockLine} {after : Cursor} (hempty : text ≠ [])
    (htext : ∀ d ∈ text, isBreak d = false)
    (hbreaks : ∀ d ∈ c :: breaks, isBreak d = true ∧ isPrintable d = true)
    (hcolumn : mark.column = indent) (hbreak : rest.head?.any isBreak = false)
    (hcount : count = indent ∨ count < indent ∧ StartsWord rest)
    (hmore : ∀ stop, ∃ last, (blockLines indent start steps stop).Lexes
      ⟨rest, ((mark.over text).over (c :: breaks)).over (List.replicate count ' ')⟩ (lines, last)
      after) :
    ∃ last, (blockLines indent start (steps + 1) stop).Lexes
      ⟨text ++ (c :: breaks ++ (List.replicate count ' ' ++ rest)), mark⟩
      (⟨text, [c], breaks⟩ :: lines, last) after := by
  obtain ⟨⟨hc, hprintable⟩, hothers⟩ := List.forall_mem_cons.1 hbreaks
  have hpast : ((mark.over text).past c).column = 0 := by rw [Mark.past_of_break hc]
  have hlength : breaks.length <
      (breaks ++ (List.replicate count ' ' ++ rest)).length + 1 := by
    rw [List.length_append]
    omega
  obtain ⟨width, stop, hmargin⟩ := marginFrom_breaks start hothers hlength
    ⟨[], 0, (mark.over text).past c⟩ hpast hbreak hcount
  obtain ⟨last, hmore⟩ := hmore stop
  refine ⟨last, ?_⟩
  have hfirst : ¬ (!decide (mark.column = indent) ||
      ((Cursor.mk (text ++ (c :: breaks ++ (List.replicate count ' ' ++ rest))) mark).at? 0).isNone)
        = true := by
    obtain ⟨d, others, rfl⟩ := List.exists_cons_of_ne_nil hempty
    simp [hcolumn, Cursor.at?]
  unfold blockLines
  refine (lexes_here _).bind ((lexes_peek _ _).bind ?_)
  rw [if_neg (by simpa using hfirst)]
  refine (lexes_takeWhile (fun d hd => ⟨by simp [htext d hd], htext d hd⟩)
    (by simp [hc]) mark).bind ?_
  refine (lexes_lineBreak hc hprintable _ _).bind ?_
  refine Lexes.bind ((lexes_remaining _).bind ((lexes_here _).bind hmargin)) ?_
  rw [List.nil_append]
  exact hmore.bind (lexes_pure _ _)

end Lexer

open Lexer (BlockLine Chomping joinLines)

/-- The breaks at the end of a text that its literal block has to keep. -/
def keptBreaks (cs : List Char) : Chomping :=
  match cs.reverse with
  | last :: before =>
      if !isBreak last then .strip else if endOr isBreak before.head? then .keep else .clip
  | [] => .strip

/-- The break that ends a block whose text has none at its end. -/
def lineEnd (cs : List Char) : List Char :=
  if cs.getLast?.any isBreak then [] else ['\n']

/-- A text that does not begin with a break is a line, breaks, and another such text. -/
theorem exists_line {cs : List Char} (hcs : cs ≠ []) (hfirst : cs.head?.any isBreak = false) :
    ∃ text gap next, cs = text ++ (gap ++ next) ∧ text ≠ [] ∧ (∀ c ∈ text, isBreak c = false) ∧
      (∀ c ∈ gap, isBreak c = true) ∧ next.head?.any isBreak = false ∧ (gap = [] → next = []) := by
  obtain ⟨text, tail, rfl, htext, htail⟩ := Lexer.exists_span (fun c => !isBreak c) cs
  obtain ⟨gap, next, rfl, hgap, hnext⟩ := Lexer.exists_span isBreak tail
  refine ⟨text, gap, next, rfl, ?_, fun c hc => by simpa using htext c hc, hgap, hnext, ?_⟩
  · rintro rfl
    cases htail' : gap ++ next with
    | nil => exact hcs htail'
    | cons c rest =>
        rw [htail'] at htail
        rw [List.nil_append, htail'] at hfirst
        simp only [List.head?_cons, Option.any_some] at htail hfirst
        rw [hfirst] at htail
        cases htail
  · rintro rfl
    cases next with
    | nil => rfl
    | cons c rest =>
        simp only [List.nil_append, List.head?_cons, Option.any_some] at htail hnext
        rw [hnext] at htail
        cases htail

/-- How many breaks are kept is decided behind the last character that is none. -/
theorem keptBreaks_behind {front next : List Char} (hnext : next ≠ [])
    (hfirst : next.head?.any isBreak = false) : keptBreaks (front ++ next) = keptBreaks next := by
  unfold keptBreaks
  rw [List.reverse_append]
  cases hreverse : next.reverse with
  | nil => exact absurd (List.reverse_eq_nil_iff.1 hreverse) hnext
  | cons last before =>
      cases before with
      | nil =>
          rw [List.reverse_eq_cons_iff] at hreverse
          have hlast : isBreak last = false := by simpa [hreverse] using hfirst
          simp [hlast]
      | cons d others => rfl

theorem lineEnd_behind {front next : List Char} (hnext : next ≠ []) :
    lineEnd (front ++ next) = lineEnd next := by
  obtain ⟨before, last, rfl⟩ := (List.eq_nil_or_concat next).resolve_left hnext
  rw [lineEnd, lineEnd, List.concat_eq_append, ← List.append_assoc, List.getLast?_concat,
    List.getLast?_concat]

/-- What is kept of the last line. -/
theorem chomp_last {text gap : List Char} (hempty : text ≠ [])
    (htext : ∀ c ∈ text, isBreak c = false) (hgap : ∀ c ∈ gap, isBreak c = true) :
    ∃ c breaks, c :: breaks = gap ++ lineEnd (text ++ gap) ∧
      joinLines false (keptBreaks (text ++ gap)) [⟨text, [c], breaks⟩] = text ++ gap := by
  obtain ⟨before, last, rfl⟩ := (List.eq_nil_or_concat text).resolve_left hempty
  have hlast : isBreak last = false := htext last (by simp)
  rcases gap with _ | ⟨c, breaks⟩
  · refine ⟨'\n', [], ?_, ?_⟩
    · simp [lineEnd, hlast]
    · simp [joinLines, Lexer.chomp, keptBreaks, hlast]
  · have hend : lineEnd (before.concat last ++ c :: breaks) = [] := by
      obtain ⟨others, d, hsplit⟩ := (List.eq_nil_or_concat (c :: breaks)).resolve_left (by simp)
      rw [hsplit] at hgap ⊢
      simp only [List.concat_eq_append, ← List.append_assoc]
      rw [lineEnd, List.getLast?_concat, Option.any_some, if_pos (hgap d (by simp))]
    refine ⟨c, breaks, by rw [hend, List.append_nil], ?_⟩
    rcases List.eq_nil_or_concat breaks with rfl | ⟨others, d, rfl⟩
    · have hc : isBreak c = true := hgap c (by simp)
      simp [joinLines, Lexer.chomp, keptBreaks, hc, endOr, hlast]
    · have hd : isBreak d = true := hgap d (by simp)
      have hkept : keptBreaks (before.concat last ++ c :: others.concat d) = .keep := by
        rcases List.eq_nil_or_concat others with rfl | ⟨front, e, rfl⟩
        · simp [keptBreaks, hd, endOr, hgap c (by simp)]
        · simp [keptBreaks, hd, endOr, hgap e (by simp)]
      rw [hkept]
      rfl

namespace Lexer

variable {start mark : Mark} {rest : List Char}

theorem indentedLines_text {indent : Nat} {text : List Char} (htext : ∀ c ∈ text, isBreak c = false)
    (rest : List Char) : indentedLines indent (fun c => [c]) false (text ++ rest) =
      text ++ indentedLines indent (fun c => [c]) false rest := by
  rw [indentedLines_word htext]
  simp

theorem indentedLines_only_breaks {indent : Nat} {charText : Char → List Char} {lineStart : Bool}
    {gap : List Char} (hgap : ∀ c ∈ gap, isBreak c = true) :
    indentedLines indent charText lineStart gap = gap := by
  cases gap with
  | nil => rfl
  | cons c breaks => simpa [indentedLines] using indentedLines_of_break hgap []

theorem column_over_margin {breaks : List Char} {c : Char}
    (hbreaks : ∀ d ∈ c :: breaks, isBreak d = true)
    (mark : Mark) (count : Nat) :
    ((mark.over (c :: breaks)).over (List.replicate count ' ')).column = count := by
  have hcolumn : ∀ mark : Mark, mark.column = 0 → (mark.over breaks).column = 0 := by
    have hothers := (List.forall_mem_cons.1 hbreaks).2
    clear hbreaks
    induction breaks with
    | nil => exact fun _ hmark => hmark
    | cons d others ih =>
        intro mark _
        obtain ⟨hd, hothers⟩ := List.forall_mem_cons.1 hothers
        exact ih hothers _ (by rw [Mark.past_of_break hd])
  rw [Mark.over_line (by simp [isBreak]), Mark.over_cons,
    hcolumn _ (by rw [Mark.past_of_break (hbreaks c List.mem_cons_self)])]
  simp

/-- The lines of a block from behind the indentation of the first one on. -/
theorem lexes_blockLines (start : Mark) {indent count : Nat} (steps : Nat) {cs tail : List Char}
    (hcs : cs ≠ [])
    (hfirst : cs.head?.any isBreak = false) (hprintable : ∀ c ∈ cs, isPrintable c = true)
    (hcount : count < indent) (htail : StartsWord tail) (hsteps : cs.length < steps)
    (hcolumn : mark.column = indent) :
    ∃ lines, (∀ stop, ∃ last, (blockLines indent start steps stop).Lexes
        ⟨indentedLines indent (fun c => [c]) false cs ++
          (lineEnd cs ++ (List.replicate count ' ' ++ tail)), mark⟩ (lines, last)
        ⟨tail, ((mark.over (indentedLines indent (fun c => [c]) false cs)).over (lineEnd cs)).over
          (List.replicate count ' ')⟩) ∧
      lines ≠ [] ∧ joinLines false (keptBreaks cs) lines = cs := by
  induction hsize : cs.length using Nat.strongRecOn generalizing cs steps mark with
  | ind size ih =>
      obtain ⟨text, gap, next, rfl, hempty, htext, hgap, hnext, hlast⟩ := exists_line hcs hfirst
      obtain ⟨steps, rfl⟩ : ∃ before, steps = before + 1 := ⟨steps - 1, by omega⟩
      have hlength := List.length_pos_iff.2 hempty
      simp only [List.length_append] at hsteps hsize
      rw [indentedLines_text htext]
      by_cases hmore : next = []
      · -- the last line: it ends with its own breaks, or with the one that ends the block
        subst hmore
        rw [List.append_nil] at *
        obtain ⟨c, breaks, hbreaks, hjoin⟩ := chomp_last hempty htext hgap
        have hall : ∀ d ∈ c :: breaks, isBreak d = true ∧ isPrintable d = true := by
          rw [hbreaks]
          intro d hd
          rcases List.mem_append.1 hd with hgapped | hended
          · exact ⟨hgap d hgapped, hprintable d (List.mem_append_right text hgapped)⟩
          · unfold lineEnd at hended
            split at hended
            · cases hended
            · rw [List.mem_singleton.1 hended]
              decide
        refine ⟨[⟨text, [c], breaks⟩], fun stop => ?_, by simp, hjoin⟩
        have hend : ∀ stop, ∃ last, (blockLines indent start steps stop).Lexes
            ⟨tail, ((mark.over text).over (c :: breaks)).over (List.replicate count ' ')⟩ ([], last)
            ⟨tail, ((mark.over text).over (c :: breaks)).over (List.replicate count ' ')⟩ := by
          refine fun stop => ⟨stop, blockLines_end ?_ steps stop⟩
          rw [column_over_margin fun d hd => (hall d hd).1]
          omega
        obtain ⟨last, hline⟩ := blockLines_cons stop hempty htext hall hcolumn
          (any_isBreak_of_startsWord htail) (Or.inr ⟨hcount, htail⟩) hend
        refine ⟨last, ?_⟩
        rw [indentedLines_only_breaks hgap, Mark.over_append]
        rw [hbreaks, Mark.over_append, List.append_assoc] at hline
        rw [List.append_assoc]
        exact hline
      · obtain ⟨c, breaks, rfl⟩ := List.exists_cons_of_ne_nil (mt hlast hmore)
        have hall : ∀ d ∈ c :: breaks, isBreak d = true ∧ isPrintable d = true := fun d hd =>
          ⟨hgap d hd, hprintable d (List.mem_append_right text (List.mem_append_left next hd))⟩
        obtain ⟨lines, hlines, hsome, hjoin⟩ := ih next.length (by omega) steps hmore hnext
          (fun d hd => hprintable d (List.mem_append_right text (List.mem_append_right _ hd)))
          (by omega)
          (column_over_margin hgap (mark.over text) indent) rfl
        have hstart : (indentedLines indent (fun c => [c]) false next ++
            (lineEnd next ++ (List.replicate count ' ' ++ tail))).head?.any isBreak = false := by
          obtain ⟨d, others, rfl⟩ := List.exists_cons_of_ne_nil hmore
          have hd : isBreak d = false := by simpa using hnext
          simp [indentedLines, hd]
        refine ⟨⟨text, [c], breaks⟩ :: lines, fun stop => ?_, by simp, ?_⟩
        · obtain ⟨last, hline⟩ := blockLines_cons stop hempty htext hall hcolumn hstart
            (Or.inl rfl) hlines
          refine ⟨last, ?_⟩
          have hinner : indentedLines indent (fun c => [c]) false (c :: breaks ++ next) =
              c :: breaks ++ (List.replicate indent ' ' ++
                indentedLines indent (fun c => [c]) false next) := by
            rw [indentedLines_of_break hgap, indentedLines_start hmore hnext, spaces]
          rw [hinner, ← List.append_assoc text (c :: breaks) next, lineEnd_behind hmore]
          simp only [Mark.over_append, List.append_assoc] at hline ⊢
          exact hline
        · obtain ⟨line, others, rfl⟩ := List.exists_cons_of_ne_nil hsome
          rw [← List.append_assoc, keptBreaks_behind hmore hnext]
          rw [joinLines, hjoin]
          simp [joint]

/-- The digit in front of the sign of a literal block. -/
def literalDigit (cs : List Char) : Option Nat :=
  if cs.head?.any (fun c => isSpace c || isBreak c) then some indentWidth else none

/-- The header of a literal block says how its breaks are kept and how deep it is. -/
theorem lexes_blockHeader {cs : List Char} (hcs : cs ≠ []) (rest : List Char) :
    (blockHeader start).Lexes ⟨literalHints cs ++ '\n' :: rest, mark⟩
      (keptBreaks cs, literalDigit cs)
      ⟨'\n' :: rest, mark.over (literalHints cs)⟩ := by
  obtain ⟨before, last, hreverse⟩ : ∃ before last, cs.reverse = last :: before := by
    cases hreverse : cs.reverse with
    | nil => exact absurd (List.reverse_eq_nil_iff.1 hreverse) hcs
    | cons last before => exact ⟨before, last, rfl⟩
  have hdigit : Nat.toDigits 10 indentWidth = ['2'] := by decide
  unfold literalHints literalDigit keptBreaks
  simp only [hreverse, hdigit]
  by_cases hfirst : cs.head?.any (fun c => isSpace c || isBreak c) = true
  · by_cases hlast : isBreak last = true
    · by_cases hmore : endOr isBreak before.head? = true
      · simp only [hfirst, hlast, hmore, Bool.not_true, Bool.false_eq_true, if_true, if_false]
        rfl
      · simp only [hfirst, hlast, hmore, Bool.not_true, Bool.false_eq_true, if_true, if_false]
        rfl
    · simp only [hfirst, hlast, Bool.not_false, if_true]
      rfl
  · by_cases hlast : isBreak last = true
    · by_cases hmore : endOr isBreak before.head? = true
      · simp only [hfirst, hlast, hmore, Bool.not_true, Bool.false_eq_true, if_true, if_false]
        rfl
      · simp only [hfirst, hlast, hmore, Bool.not_true, Bool.false_eq_true, if_false]
        rfl
    · simp only [hfirst, hlast, Bool.not_false, Bool.false_eq_true, if_true, if_false]
      rfl

/-- The indentation before a text that begins with neither a space nor a break. -/
theorem lexes_margin_free {count : Nat} (hrest : StartsWord rest) (hcolumn : mark.column = 0) :
    (margin none start).Lexes ⟨List.replicate count ' ' ++ rest, mark⟩ ⟨[], count, mark⟩
      ⟨rest, mark.over (List.replicate count ' ')⟩ := by
  have hover : (mark.over (List.replicate count ' ')).column = count := by
    rw [Mark.over_line (by simp [isBreak])]
    simp [hcolumn]
  have hspace : ¬ rest.head?.any (· = ' ') = true := by
    cases rest with
    | nil => simp
    | cons c others =>
        rintro hc
        simp only [List.head?_cons, Option.any_some, decide_eq_true_eq] at hc
        simp [StartsWord, hc, isBlank] at hrest
  have htab : (Cursor.mk rest (mark.over (List.replicate count ' '))).at? 0 ≠ some '\t' := by
    intro hc
    cases rest with
    | nil => cases hc
    | cons c others =>
        obtain rfl : c = '\t' := Option.some.inj hc
        simp [StartsWord, isBlank] at hrest
  refine (lexes_remaining _).bind ((lexes_here _).bind ?_)
  unfold marginFrom
  refine (lexes_here _).bind ?_
  refine (lexes_skipWhile (by simp [isBreak]) hspace mark).bind ?_
  refine (lexes_here _).bind ((lexes_peek _ _).bind ?_)
  rw [if_neg (by simp [htab])]
  refine (lexes_peek _ _).bind ?_
  rw [if_neg (by simp [Cursor.at?, any_isBreak_of_startsWord hrest]), hover, Nat.zero_max]
  exact lexes_pure _ _

/-- Empty lines at the start of a block, and the indentation behind them. -/
theorem lexes_first_margin (start : Mark) {parent count : Nat} {breaks body : List Char}
    (hbreaks : ∀ c ∈ breaks, isBreak c = true ∧ isPrintable c = true)
    (hcount : count = parent + indentWidth ∨ count < parent + indentWidth ∧ StartsWord rest)
    (hbreak : rest.head?.any isBreak = false)
    (hwide : literalDigit (breaks ++ body) = none → breaks = [] ∧ StartsWord rest ∧
      count = parent + indentWidth)
    (hcolumn : mark.column = 0) :
    let limit := (literalDigit (breaks ++ body)).map fun digit => digit + parent
    ∃ first, (margin limit start).Lexes ⟨breaks ++ (List.replicate count ' ' ++ rest), mark⟩ first
        ⟨rest, (mark.over breaks).over (List.replicate count ' ')⟩ ∧
      first.breaks = breaks ∧
      limit.getD (max first.width (max ((parent : Int) + 1) 1).toNat) = parent + indentWidth := by
  intro limit
  cases hdigit : literalDigit (breaks ++ body) with
  | none =>
      obtain ⟨rfl, hstarts, rfl⟩ := hwide hdigit
      have hlimit : limit = none := by
        simp only [limit, hdigit, Option.map_none]
      rw [hlimit]
      refine ⟨_, lexes_margin_free hstarts hcolumn, rfl, ?_⟩
      simp only [Option.getD_none, indentWidth]
      omega
  | some digit =>
      have hlimit : limit = some (parent + indentWidth) := by
        unfold literalDigit at hdigit
        split at hdigit
        · cases hdigit
          simp only [limit, literalDigit]
          rw [if_pos (by assumption), Option.map_some, Nat.add_comm]
        · cases hdigit
      rw [hlimit]
      have hlength : breaks.length <
          (breaks ++ (List.replicate count ' ' ++ rest)).length + 1 := by
        rw [List.length_append]
        omega
      obtain ⟨width, stop, hmargin⟩ := marginFrom_breaks start hbreaks hlength
        ⟨[], 0, mark⟩ hcolumn hbreak hcount
      exact ⟨_, (lexes_remaining _).bind ((lexes_here _).bind hmargin), by simp, rfl⟩

theorem lexes_skipComment (hrest : rest.head? ≠ some '#') (mark : Mark) :
    skipComment.Lexes ⟨rest, mark⟩ () ⟨rest, mark⟩ := by
  unfold skipComment
  refine (lexes_peek _ _).bind ?_
  rw [if_neg (by simpa [Cursor.at?] using hrest)]
  exact lexes_pure _ _

/-- A block from its bar on, once its lines are read. -/
theorem blockScalar_of_lines {parent : Nat} {cs body : List Char} {first : Margin} {behind : Cursor}
    {lines : List BlockLine} {last : Mark} {after : Cursor} (hcs : cs ≠ [])
    (hfirst : (margin ((literalDigit cs).map fun digit => digit + parent) mark).Lexes
      ⟨body, (mark.over ('|' :: literalHints cs)).past '\n'⟩ first behind)
    (hindent : ((literalDigit cs).map fun digit => digit + parent).getD
      (max first.width (max ((parent : Int) + 1) 1).toNat) = parent + indentWidth)
    (hlines : (blockLines (parent + indentWidth) mark (behind.rest.length + 1) first.stop).Lexes
      behind (lines, last) after)
    (hnone : lines = [] → keptBreaks cs = .keep ∧ first.breaks = cs)
    (hsome : lines ≠ [] → first.breaks ++ joinLines false (keptBreaks cs) lines = cs) :
    ∃ token, token.kind = .scalar (String.ofList cs) .literal ∧
      (blockScalar false parent).Lexes
        ⟨'|' :: literalHints cs ++ '\n' :: body, mark⟩ token after := by
  refine ⟨⟨.scalar (String.ofList cs) .literal, mark, last⟩, rfl, ?_⟩
  have hfeed : isBreak '\n' = true ∧ isPrintable '\n' = true := by decide
  have hparent : ((parent : Int)).toNat = parent := Int.toNat_natCast parent
  unfold blockScalar
  refine (lexes_here _).bind ((lexes_advance (by decide) _ _).bind ?_)
  refine (lexes_blockHeader hcs body).bind ?_
  refine (lexes_skipWhile (List.forall_mem_nil _) (by simp [isBlank]) _).bind ?_
  refine (lexes_skipComment (by simp) _).bind ((lexes_peek _ _).bind ?_)
  rw [if_neg (by simp [Cursor.at?, endsLine, endOr, isBreak])]
  refine (lexes_lineBreak hfeed.1 hfeed.2 _ _).bind ?_
  simp only [hparent]
  refine hfirst.bind ?_
  simp only [hindent]
  refine (lexes_remaining _).bind (hlines.bind ?_)
  cases lines with
  | nil =>
      obtain ⟨hkept, hbreaks⟩ := hnone rfl
      simp only [hkept, hbreaks, if_true]
      exact lexes_pure _ _
  | cons line others =>
      simp only [hsome (by simp)]
      exact lexes_pure _ _

/-- A literal block, with the break that ends it and the indentation of the next line. -/
theorem lexes_literal {parent count : Nat} {cs tail : List Char} (hallows : allowsLiteral cs = true)
    (hcount : count ≤ parent) (htail : StartsWord tail) (mark : Mark) :
    ∃ token, token.kind = .scalar (String.ofList cs) .literal ∧
      (blockScalar false parent).Lexes
        ⟨styledChars (parent + indentWidth) cs .literal ++
          (lineEnd cs ++ (List.replicate count ' ' ++ tail)), mark⟩ token
        ⟨tail, ((mark.over (styledChars (parent + indentWidth) cs .literal)).over (lineEnd cs)).over
          (List.replicate count ' ')⟩ := by
  unfold allowsLiteral at hallows
  simp only [Bool.and_eq_true, Bool.not_eq_true', List.isEmpty_eq_false_iff] at hallows
  obtain ⟨⟨hcs, hescapes⟩, -⟩ := hallows
  have hprintable : ∀ c ∈ cs, isPrintable c = true := by
    intro c hc
    have := List.any_eq_false.1 (Bool.or_eq_false_iff.1 hescapes).1 c hc
    simpa using this
  have hless : count < parent + indentWidth := by
    simp only [indentWidth]
    omega
  obtain ⟨breaks, body, rfl, hbreaks, hbody⟩ := exists_span isBreak cs
  have hall : ∀ c ∈ breaks, isBreak c = true ∧ isPrintable c = true :=
    fun c hc => ⟨hbreaks c hc, hprintable c (List.mem_append_left body hc)⟩
  have hpast : ((mark.over ('|' :: literalHints (breaks ++ body))).past '\n').column = 0 := by
    rw [Mark.past_of_break (by decide)]
  have hcolumn : ∀ count, ((((mark.over ('|' :: literalHints (breaks ++ body))).past '\n').over
      breaks).over (List.replicate count ' ')).column = count :=
    column_over_margin (List.forall_mem_cons.2 ⟨by decide, hbreaks⟩) _
  unfold styledChars
  by_cases hempty : body = []
  · -- nothing but breaks, all of which stand before the first line
    subst hempty
    rw [List.append_nil] at *
    obtain ⟨front, c, hsplit⟩ := (List.eq_nil_or_concat breaks).resolve_left hcs
    have hc : isBreak c = true := hbreaks c (by simp [hsplit])
    have hend : lineEnd breaks = [] := by
      rw [hsplit, lineEnd, List.concat_eq_append, List.getLast?_concat, Option.any_some, if_pos hc]
    have hkept : keptBreaks breaks = .keep := by
      rcases List.eq_nil_or_concat front with rfl | ⟨others, d, rfl⟩
      · simp [hsplit, keptBreaks, hc, endOr]
      · simp [hsplit, keptBreaks, hc, endOr, hbreaks d (by simp [hsplit])]
    have hwide : literalDigit (breaks ++ []) = none → breaks = [] ∧ StartsWord tail ∧
        count = parent + indentWidth := by
      intro hdigit
      obtain ⟨d, others, rfl⟩ := List.exists_cons_of_ne_nil hcs
      simp [literalDigit, hbreaks d List.mem_cons_self] at hdigit
    obtain ⟨first, hfirst, hfound, hindent⟩ := lexes_first_margin mark hall
      (Or.inr ⟨hless, htail⟩) (any_isBreak_of_startsWord htail) hwide hpast
    rw [List.append_nil] at hfirst hindent
    have htoken := blockScalar_of_lines hcs hfirst hindent
      (blockLines_end (by rw [hcolumn]; omega) _ _) (fun _ => ⟨hkept, hfound⟩)
      (fun hlines => absurd rfl hlines)
    rw [hend, indentedLines_only_breaks hbreaks]
    simpa only [Mark.over_append, Mark.over_cons, List.append_assoc, List.cons_append,
      Mark.over_nil, List.nil_append] using htoken
  · have hinner : indentedLines (parent + indentWidth) (fun c => [c]) true (breaks ++ body) =
        breaks ++ (List.replicate (parent + indentWidth) ' ' ++
          indentedLines (parent + indentWidth) (fun c => [c]) false body) := by
      rw [indentedLines_breaks hbreaks, indentedLines_start hempty hbody, spaces]
    have hlength := length_le_indentedLines (parent + indentWidth)
      (show ∀ c : Char, [c] ≠ [] by simp) false body
    have hstart : (indentedLines (parent + indentWidth) (fun c => [c]) false body ++
        (lineEnd body ++ (List.replicate count ' ' ++ tail))).head? = body.head? := by
      obtain ⟨d, others, rfl⟩ := List.exists_cons_of_ne_nil hempty
      have hd : isBreak d = false := by simpa using hbody
      simp [indentedLines, hd]
    have hwide : literalDigit (breaks ++ body) = none → breaks = [] ∧
        StartsWord (indentedLines (parent + indentWidth) (fun c => [c]) false body ++
          (lineEnd body ++ (List.replicate count ' ' ++ tail))) ∧
        parent + indentWidth = parent + indentWidth := by
      intro hdigit
      have hfirst : (breaks ++ body).head?.any (fun c => isSpace c || isBreak c) = false := by
        unfold literalDigit at hdigit
        split at hdigit
        · cases hdigit
        · rename_i hother
          exact Bool.eq_false_iff.2 hother
      cases breaks with
      | cons d others =>
          simp [hbreaks d List.mem_cons_self] at hfirst
      | nil =>
          refine ⟨rfl, ?_, rfl⟩
          unfold StartsWord
          rw [hstart]
          obtain ⟨d, others, rfl⟩ := List.exists_cons_of_ne_nil hempty
          simpa [isBlank_of_isPrintable (hprintable d (by simp))] using hfirst
    obtain ⟨first, hfirst, hfound, hindent⟩ := lexes_first_margin mark hall
      (Or.inl rfl) (by rw [hstart]; exact hbody) hwide hpast
    obtain ⟨lines, hlines, hsome, hjoin⟩ := lexes_blockLines mark
        ((indentedLines (parent + indentWidth) (fun c => [c]) false body ++
          (lineEnd body ++ (List.replicate count ' ' ++ tail))).length + 1) hempty hbody
      (fun c hc => hprintable c (List.mem_append_right breaks hc)) hless htail
      (by rw [List.length_append]; omega) (hcolumn (parent + indentWidth))
    obtain ⟨last, hlines⟩ := hlines first.stop
    have htoken := blockScalar_of_lines hcs hfirst hindent hlines
      (fun hnone => absurd hnone hsome)
      (fun _ => by rw [hfound, keptBreaks_behind hempty hbody, hjoin])
    rw [hinner, lineEnd_behind hempty]
    simpa only [Mark.over_append, Mark.over_cons, List.append_assoc, List.cons_append] using htoken

end Lexer

theorem getLast?_indentedLines (indent : Nat) (lineStart : Bool) (cs : List Char) :
    (indentedLines indent (fun c => [c]) lineStart cs).getLast? = cs.getLast? := by
  induction cs generalizing lineStart with
  | nil => rfl
  | cons c rest ih =>
      unfold indentedLines
      split
      · rw [List.getLast?_cons, List.getLast?_cons, ih]
      · rw [List.append_assoc, List.singleton_append, List.getLast?_append, List.getLast?_cons, ih,
          List.getLast?_cons, Option.some_or]

theorem getLast?_literal {indent : Nat} {cs : List Char} (hcs : cs ≠ []) :
    (styledChars indent cs .literal).getLast? = cs.getLast? := by
  have hlast : cs.getLast? ≠ none := by simpa using hcs
  rw [styledChars, List.cons_append, List.getLast?_cons, List.getLast?_append, List.getLast?_cons,
    getLast?_indentedLines]
  cases hfound : cs.getLast? with
  | none => exact absurd hfound hlast
  | some c => rfl

/-- The line behind a literal block is ended by `lineEnd`, which is empty if the text has a break at
its end. -/
theorem closeLine_literal {indent : Nat} {cs : List Char} (hcs : cs ≠ []) (front : List Char) :
    closeLine (front ++ styledChars indent cs .literal) =
      front ++ styledChars indent cs .literal ++ lineEnd cs := by
  have hlast : (front ++ styledChars indent cs .literal).getLast? = cs.getLast? := by
    rw [List.getLast?_append, getLast?_literal hcs]
    obtain ⟨c, hc⟩ := Option.ne_none_iff_exists'.1 (mt List.getLast?_eq_none_iff.1 hcs)
    rw [hc, Option.some_or]
  unfold closeLine lineEnd
  rw [hlast]
  split
  · rw [List.append_nil]
  · rfl

/-- Behind a break stands the first column. -/
theorem Mark.over_column_of_break {cs : List Char} (hlast : cs.getLast?.any isBreak = true)
    (mark : Mark) : (mark.over cs).column = 0 := by
  rcases List.eq_nil_or_concat cs with rfl | ⟨front, c, rfl⟩
  · cases hlast
  · rw [List.concat_eq_append, List.getLast?_concat, Option.any_some] at hlast
    rw [List.concat_eq_append, Mark.over_append, Mark.over_cons, Mark.past_of_break hlast,
      Mark.over_nil]

theorem getLast?_literal_lineEnd (indent : Nat) {cs : List Char} (hcs : cs ≠ []) :
    (styledChars indent cs .literal ++ lineEnd cs).getLast?.any isBreak = true := by
  have hlast : (styledChars indent cs .literal).getLast? = cs.getLast? := getLast?_literal hcs
  unfold lineEnd
  split
  · rename_i hbreak
    rw [List.append_nil, hlast, hbreak]
  · rw [List.getLast?_concat]
    rfl

end StackBridge.Yaml
