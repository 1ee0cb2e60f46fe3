/-
The scan of a text between two tokens. A stage is what decides on the tokens that follow, with no
more of the places within the text than the column; a scan that arrives at one stage is led on to
the next by the text that stands there.
-/
import StackBridge.Proofs.TagNames
import StackBridge.Yaml.Token.Scan

namespace StackBridge.Yaml

/-- A key candidate, with the distance that the scan has gone from it on its line. -/
structure Pending where
  required : Bool
  position : Nat
  column : Nat
  age : Nat

/-- What is left of a candidate further on the line. -/
def Pending.after (distance : Nat) (pending : Option Pending) : Option Pending :=
  pending.bind fun pending =>
    if pending.age + distance ≤ Scan.maxKeyLength then
      some { pending with age := pending.age + distance }
    else none

/-- Whether a candidate can be given up after a distance. -/
def Pending.Lasts (distance : Nat) (pending : Option Pending) : Prop :=
  ∀ found ∈ pending, found.required = true → found.age + distance ≤ Scan.maxKeyLength

/-- Whether a candidate is one that is pending at a place. -/
def Pending.Matches (here : Mark) (candidate : Option KeyCandidate) : Option Pending → Prop
  | none => candidate = none
  | some pending => ∃ mark : Mark, candidate = some ⟨pending.required, pending.position, mark⟩ ∧
      mark.line = here.line ∧ mark.column = pending.column ∧ here.index = mark.index + pending.age

/-- The state of a scan as far as it decides on what follows. -/
structure Stage where
  rest : List Char
  column : Nat
  kinds : List TokenKind
  keyAllowed : Bool
  pending : Option Pending
  /-- The columns of the open blocks from the innermost one on. -/
  blocks : List Int

/-- The ends of the blocks that are deeper than a column. -/
def closings (column : Int) : List Int → List TokenKind
  | [] => []
  | block :: outer => if block ≤ column then [] else .blockEnd :: closings column outer

/-- The blocks that are not deeper than a column. -/
def openAt (column : Int) : List Int → List Int
  | [] => [-1]
  | block :: outer => if block ≤ column then block :: outer else openAt column outer

namespace Scan

variable {scan next : Scan} {stage : Stage}

def kinds (scan : Scan) : List TokenKind :=
  scan.tokens.toList.map (·.kind)

/-- Whether a scan is in a state, outside of brackets. -/
structure At (scan : Scan) (stage : Stage) : Prop where
  rest : scan.cursor.rest = stage.rest
  column : scan.mark.column = stage.column
  kinds : scan.kinds = stage.kinds
  keyAllowed : scan.keyAllowed = stage.keyAllowed
  pending : Pending.Matches scan.mark scan.candidate stage.pending
  blocks : scan.indent :: scan.indents = stage.blocks
  outer : scan.outer = []
  going : scan.finished = false
  noMark : scan.mark.index = 0 → stage.rest.head? ≠ some '\ufeff'

theorem At.cursor_eq (hat : scan.At stage) : scan.cursor = ⟨stage.rest, scan.mark⟩ := by
  rw [← hat.rest]
  rfl

theorem dropStale_of_refresh {kept : Option KeyCandidate} (houter : scan.outer = [])
    (hkept : scan.refresh scan.candidate = .ok kept) :
    scan.dropStale = .ok { scan with candidate := kept } := by
  unfold dropStale
  rw [houter, hkept]
  simp only [List.reverse_nil, List.mapM_nil, bind, Except.bind, pure, Except.pure]

/-- On the line of its candidate a scan keeps it up to the greatest length of a key. -/
theorem refresh_of_matches {candidate : Option KeyCandidate} {pending : Option Pending}
    (hmatches : Pending.Matches scan.mark candidate pending) (hlasts : Pending.Lasts 0 pending) :
    ∃ kept, scan.refresh candidate = .ok kept ∧
      Pending.Matches scan.mark kept (Pending.after 0 pending) := by
  cases pending with
  | none =>
      rw [show candidate = none from hmatches]
      exact ⟨none, rfl, rfl⟩
  | some pending =>
      obtain ⟨mark, rfl, hline, hcolumn, hindex⟩ := hmatches
      by_cases hyoung : pending.age ≤ maxKeyLength
      · have hfresh : scan.isStale ⟨pending.required, pending.position, mark⟩ = false := by
          simp only [isStale, hline, hindex, Nat.lt_irrefl, decide_false, Bool.false_or,
            decide_eq_false_iff_not]
          omega
        refine ⟨some ⟨pending.required, pending.position, mark⟩, ?_, ?_⟩
        · rw [refresh, if_neg (by simp [hfresh])]
          rfl
        · simp only [Pending.after, Option.bind_some, Nat.add_zero, hyoung, if_true]
          exact ⟨mark, rfl, hline, hcolumn, hindex⟩
      · have hstale : scan.isStale ⟨pending.required, pending.position, mark⟩ = true := by
          simp only [isStale, hline, hindex, Nat.lt_irrefl, decide_false, Bool.false_or,
            decide_eq_true_eq]
          omega
        have hother : ¬ pending.required = true :=
          fun hrequired => hyoung (hlasts pending rfl hrequired)
        refine ⟨none, ?_, ?_⟩
        · rw [refresh, if_pos hstale, if_neg hother]
          rfl
        · simp only [Pending.after, Option.bind_some, Nat.add_zero, hyoung, if_false]
          rfl

/-- Whether a candidate can be given up at any place. -/
def Droppable (pending : Option Pending) : Prop :=
  ∀ found ∈ pending, found.required = false

theorem stale_of_matches {here : Mark} {candidate : Option KeyCandidate} {pending : Option Pending}
    (hmatches : Pending.Matches here candidate pending) (hdroppable : Droppable pending)
    {line : Nat}
    (hline : here.line < line) :
    ∀ found ∈ candidate, found.required = false ∧ found.mark.line < line := by
  intro found hfound
  cases pending with
  | none =>
      rw [show candidate = none from hmatches] at hfound
      cases hfound
  | some held =>
      obtain ⟨mark, rfl, hsame, -⟩ := hmatches
      cases hfound
      exact ⟨hdroppable held rfl, by rw [← hsame] at hline; exact hline⟩

/-- On a later line a candidate is given up. -/
theorem dropStale_of_later (houter : scan.outer = [])
    (hlater : ∀ candidate ∈ scan.candidate, candidate.required = false ∧
      candidate.mark.line < scan.mark.line) :
    scan.dropStale = .ok { scan with candidate := none } := by
  refine dropStale_of_refresh houter ?_
  cases hcandidate : scan.candidate with
  | none => rfl
  | some candidate =>
      obtain ⟨hother, hline⟩ := hlater candidate hcandidate
      have hstale : scan.isStale candidate = true := by simp [isStale, hline]
      rw [refresh, if_pos hstale, if_neg (by simp [hother])]
      rfl

/-- Whether a text begins with a token, or is at its end. -/
structure StartsToken (rest : List Char) : Prop where
  word : Lexer.StartsWord rest
  comment : rest.head? ≠ some '#'

theorem skipWhile_spaces {test : Char → Bool} {rest : List Char} (count : Nat)
    (htest : test ' ' = true) (hrest : rest.head?.any test = false) (mark : Mark) :
    (Cursor.mk (List.replicate count ' ' ++ rest) mark).skipWhile test =
      ⟨rest, mark.over (List.replicate count ' ')⟩ := by
  have hspaces : ∀ c ∈ List.replicate count ' ', test c = true ∧ isBreak c = false := by
    simp [htest, isBreak]
  have hfound := Lexer.lexes_skipWhile hspaces (Bool.eq_false_iff.1 hrest) mark
  exact congrArg Prod.snd (Except.ok.inj hfound)

theorem not_blank_of_startsToken {rest : List Char} (hstarts : StartsToken rest) (tabs : Bool) :
    rest.head?.any (fun c => c = ' ' || (tabs && c = '\t')) = false := by
  cases rest with
  | nil => rfl
  | cons c others =>
      have hc : isBlank c = false ∧ isBreak c = false := by
        simpa [Lexer.StartsWord] using hstarts.word
      have hblank : c ≠ ' ' ∧ c ≠ '\t' := by simpa [isBlank] using hc.1
      simp [hblank]

/-- Before a token a scan only skips spaces. -/
theorem skipToToken_spaces (steps count : Nat) {rest : List Char} {mark : Mark}
    (hcursor : scan.cursor = ⟨List.replicate count ' ' ++ rest, mark⟩)
    (hstarts : StartsToken rest)
    (hmark : mark.index = 0 → (List.replicate count ' ' ++ rest).head? ≠ some '\ufeff') :
    skipToToken (steps + 1) scan =
      { scan with cursor := ⟨rest, mark.over (List.replicate count ' ')⟩ } := by
  have hfirst : ¬ (decide (mark.index = 0) &&
      decide ((Cursor.mk (List.replicate count ' ' ++ rest) mark).at? 0 = some '\ufeff')) =
        true := by
    simp only [Bool.and_eq_true, decide_eq_true_eq, not_and]
    exact hmark
  have hcomment : ¬ (Cursor.mk rest (mark.over (List.replicate count ' '))).at? 0 = some '#' := by
    simpa [Cursor.at?] using hstarts.comment
  have hbreak : ¬ ((Cursor.mk rest (mark.over (List.replicate count ' '))).at? 0).any isBreak =
      true := by
    simp [Cursor.at?, Lexer.any_isBreak_of_startsWord hstarts.word]
  unfold skipToToken
  simp only [hcursor]
  rw [if_neg hfirst, skipWhile_spaces count (by simp) (not_blank_of_startsToken hstarts _),
    if_neg hcomment, if_neg hbreak]

/-- At the end of a line a scan goes on to the next one. -/
theorem skipToToken_line {steps count : Nat} {rest : List Char} {mark : Mark}
    (hcursor : scan.cursor = ⟨'\n' :: (List.replicate count ' ' ++ rest), mark⟩)
    (houter : scan.outer = []) (hstarts : StartsToken rest) :
    skipToToken (steps + 2) scan = { scan with
      cursor := ⟨rest, (mark.past '\n').over (List.replicate count ' ')⟩, keyAllowed := true } := by
  have hflow : scan.inFlow = false := by simp [inFlow, houter]
  have hskip : ∀ tabs : Bool,
    (Cursor.mk ('\n' :: (List.replicate count ' ' ++ rest)) mark).skipWhile
      (fun c => c = ' ' || (tabs && c = '\t')) =
        ⟨'\n' :: (List.replicate count ' ' ++ rest), mark⟩ := by
    intro tabs
    have hfeed : ('\n' :: (List.replicate count ' ' ++ rest)).head?.any
        (fun c => c = ' ' || (tabs && c = '\t')) = false := by
      simp
    exact skipWhile_spaces 0 (by simp) hfeed mark
  have hnext : (Cursor.mk ('\n' :: (List.replicate count ' ' ++ rest)) mark).nextLine.2 =
      ⟨List.replicate count ' ' ++ rest, mark.past '\n'⟩ := by
    rw [nextLine_of_isBreak (by decide) (by decide)]
  have hfirst : ¬ (decide (mark.index = 0) && decide
      ((Cursor.mk ('\n' :: (List.replicate count ' ' ++ rest)) mark).at? 0 = some '\ufeff')) =
        true := by
    simp [Cursor.at?]
  have hcomment : ¬ (Cursor.mk ('\n' :: (List.replicate count ' ' ++ rest)) mark).at? 0 =
      some '#' := by
    simp [Cursor.at?]
  have hbreak : ((Cursor.mk ('\n' :: (List.replicate count ' ' ++ rest)) mark).at? 0).any isBreak =
      true := by
    simp [Cursor.at?, isBreak]
  have hindex : (mark.past '\n').index = 0 →
      (List.replicate count ' ' ++ rest).head? ≠ some '\ufeff' := by
    rw [Mark.past_of_break (by decide)]
    intro hzero
    cases hzero
  rw [skipToToken]
  simp only [hcursor]
  rw [if_neg hfirst, hskip, if_neg hcomment, if_pos hbreak, hnext, hflow,
    skipToToken_spaces _ count rfl hstarts hindex]
  simp

/-- The blocks that are deeper than the column are closed, each with its token. -/
theorem closeBlocksFrom_eq (column : Int) (levels : List Int) (scan : Scan) :
    ∃ indent indents tokens, closeBlocksFrom column levels scan =
        { scan with indent, indents, tokens } ∧
      indent :: indents = openAt column (scan.indent :: levels) ∧
      tokens.toList.map (·.kind) = scan.kinds ++ closings column (scan.indent :: levels) := by
  induction levels generalizing scan with
  | nil =>
      unfold closeBlocksFrom
      split
      · rename_i hshallow
        exact ⟨scan.indent, [], scan.tokens, rfl, by simp [openAt, hshallow], by
          simp [closings, hshallow, kinds]⟩
      · rename_i hdeep
        refine ⟨-1, [], _, rfl, by simp [openAt, hdeep], ?_⟩
        simp [closings, hdeep, kinds, pushHere, push]
  | cons level outer ih =>
      unfold closeBlocksFrom
      split
      · rename_i hshallow
        exact ⟨scan.indent, level :: outer, scan.tokens, rfl, by simp [openAt, hshallow], by
          simp [closings, hshallow, kinds]⟩
      · rename_i hdeep
        obtain ⟨indent, indents, tokens, hclosed, hblocks, hkinds⟩ :=
          ih { scan.pushHere .blockEnd with indent := level }
        have hopen : openAt column (scan.indent :: level :: outer) =
            openAt column (level :: outer) :=
          if_neg hdeep
        have hends : closings column (scan.indent :: level :: outer) =
            .blockEnd :: closings column (level :: outer) :=
          if_neg hdeep
        refine ⟨indent, indents, tokens, hclosed, hblocks.trans hopen.symm, ?_⟩
        rw [hkinds, hends]
        simp [kinds, pushHere, push]

/-- Whether a scan is about to take the token of a stage. -/
structure Arrives (scan : Scan) (stage : Stage) : Prop where
  going : scan.finished = false
  step : ∃ landed : Scan, landed.At stage ∧ scan.step = landed.takeToken >>= dropStale

/-- A scan that has moved past the blanks is about to take the token there. -/
theorem arrives_of_landed (stage : Stage) {landed : Scan} (hat : landed.At stage)
    (hgoing : scan.finished = false)
    (hlanded : (skipToToken (scan.cursor.rest.length + 1) scan).dropStale = .ok landed) :
    scan.Arrives { stage with
      kinds := stage.kinds ++ closings stage.column stage.blocks
      blocks := openAt stage.column stage.blocks } := by
  obtain ⟨indent, indents, tokens, hclosed, hblocks, hkinds⟩ :=
    closeBlocksFrom_eq landed.mark.column landed.indents landed
  have hflow : landed.inFlow = false := by simp [inFlow, hat.outer]
  have hclose : landed.closeBlocks landed.mark.column =
    { landed with indent, indents, tokens } := by
    rw [closeBlocks, if_neg (by simp [hflow]), hclosed]
  rw [hat.blocks, hat.column] at hblocks hkinds
  refine ⟨hgoing, landed.closeBlocks landed.mark.column, ?_, ?_⟩
  · rw [hclose]
    constructor
    case rest => exact hat.rest
    case column => exact hat.column
    case kinds => exact hkinds.trans (by rw [hat.kinds])
    case keyAllowed => exact hat.keyAllowed
    case pending => exact hat.pending
    case blocks => exact hblocks
    case outer => exact hat.outer
    case going => exact hat.going
    case noMark => exact hat.noMark
  · unfold step
    simp only [hlanded, bind, Except.bind]

/-- Further on the line of a candidate it is still pending. -/
theorem matches_past {here : Mark} {candidate : Option KeyCandidate} {pending : Option Pending}
    (hmatches : Pending.Matches here candidate pending) {cs : List Char}
    (hcs : ∀ c ∈ cs, isBreak c = false) : Pending.Matches (here.over cs) candidate
      (pending.map fun found => { found with age := found.age + cs.length }) := by
  cases pending with
  | none => exact hmatches
  | some found =>
      obtain ⟨mark, hcandidate, hline, hcolumn, hindex⟩ := hmatches
      rw [Mark.over_line hcs]
      refine ⟨mark, hcandidate, hline, hcolumn, ?_⟩
      simp only [hindex]
      omega

theorem after_map {distance : Nat} {pending : Option Pending} :
    Pending.after 0 (pending.map fun found => { found with age := found.age + distance }) =
      Pending.after distance pending := by
  cases pending <;> rfl

theorem lasts_map {distance : Nat} {pending : Option Pending}
    (hlasts : Pending.Lasts distance pending) :
    Pending.Lasts 0 (pending.map fun found => { found with age := found.age + distance }) := by
  intro found hfound hrequired
  obtain ⟨before, hbefore, rfl⟩ := Option.map_eq_some_iff.1 hfound
  exact hlasts before hbefore hrequired

/-- Behind spaces stands the next token. -/
theorem At.arrives_of_spaces (count : Nat) {column : Nat} {rest : List Char} {ks : List TokenKind}
    {allowed : Bool} {pending : Option Pending} {blocks : List Int}
    (hat : scan.At ⟨List.replicate count ' ' ++ rest, column, ks, allowed, pending, blocks⟩)
    (hstarts : StartsToken rest) (hlasts : Pending.Lasts count pending) :
    scan.Arrives ⟨rest, column + count, ks ++ closings (column + count : Nat) blocks, allowed,
      Pending.after count pending, openAt (column + count : Nat) blocks⟩ := by
  have hcursor := hat.cursor_eq
  have hspaces : ∀ c ∈ List.replicate count ' ', isBreak c = false := by simp [isBreak]
  have hmatches := matches_past hat.pending hspaces
  rw [List.length_replicate] at hmatches
  let landed : Scan := { scan with cursor := ⟨rest, scan.mark.over (List.replicate count ' ')⟩ }
  obtain ⟨kept, hkept, hpending⟩ := @refresh_of_matches landed _ _ hmatches (lasts_map hlasts)
  replace hkept := @dropStale_of_refresh landed _ hat.outer hkept
  rw [after_map] at hpending
  have hmark : ∀ kept, (({ scan with
      cursor := ⟨rest, scan.mark.over (List.replicate count ' ')⟩
      candidate := kept } : Scan)).mark =
        ⟨scan.mark.index + count, scan.mark.line, column + count⟩ := by
    intro kept
    change scan.mark.over (List.replicate count ' ') = _
    rw [Mark.over_line (by simp [isBreak]), hat.column]
    simp
  refine arrives_of_landed
    ⟨rest, column + count, ks, allowed, Pending.after count pending, blocks⟩ ?_
    hat.going ((congrArg dropStale
      (skipToToken_spaces _ count hcursor hstarts hat.noMark)).trans hkept)
  constructor
  case rest => rfl
  case column => rw [hmark]
  case kinds => exact hat.kinds
  case keyAllowed => exact hat.keyAllowed
  case pending => exact hpending
  case blocks => exact hat.blocks
  case outer => exact hat.outer
  case going => exact hat.going
  case noMark =>
    rw [hmark]
    intro hzero
    obtain ⟨hindex, rfl⟩ := Nat.add_eq_zero_iff.1 hzero
    simpa using hat.noMark hindex

/-- Behind the end of a line stands the next token, and a candidate is given up. -/
theorem At.arrives_of_line {count column : Nat} {rest : List Char} {ks : List TokenKind}
    {allowed : Bool} {pending : Option Pending} {blocks : List Int}
    (hat : scan.At ⟨'\n' :: (List.replicate count ' ' ++ rest), column, ks, allowed, pending,
        blocks⟩)
    (hstarts : StartsToken rest) (hdroppable : Droppable pending) :
    scan.Arrives ⟨rest, count, ks ++ closings count blocks, true, none, openAt count blocks⟩ := by
  have hcursor := hat.cursor_eq
  obtain ⟨steps, hsteps⟩ : ∃ steps, scan.cursor.rest.length + 1 = steps + 2 :=
    ⟨(List.replicate count ' ' ++ rest).length, by rw [hcursor]; rfl⟩
  have hmark : ∀ allowed candidate, (({ scan with
      cursor := ⟨rest, (scan.mark.past '\n').over (List.replicate count ' ')⟩
      keyAllowed := allowed, candidate } : Scan)).mark =
        ⟨scan.mark.index + 1 + count, scan.mark.line + 1, count⟩ := by
    intro allowed candidate
    change (scan.mark.past '\n').over (List.replicate count ' ') = _
    rw [Mark.over_line (by simp [isBreak]), Mark.past_of_break (by decide)]
    simp
  have hlater := stale_of_matches hat.pending hdroppable (Nat.lt_succ_self scan.mark.line)
  refine arrives_of_landed ⟨rest, count, ks, true, none, blocks⟩ ?_ hat.going
    ((congrArg dropStale ((congrArg (skipToToken · scan) hsteps).trans
      (skipToToken_line hcursor hat.outer hstarts))).trans (dropStale_of_later hat.outer ?_))
  · constructor
    case rest => rfl
    case column => rw [hmark]
    case kinds => exact hat.kinds
    case keyAllowed => rfl
    case pending => rfl
    case blocks => exact hat.blocks
    case outer => exact hat.outer
    case going => exact hat.going
    case noMark =>
      rw [hmark]
      intro hzero
      simp only at hzero
      omega
  · rw [hmark]
    exact hlater

end Scan

end StackBridge.Yaml
