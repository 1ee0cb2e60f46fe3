/-
What each token does to the stage of a scan: the indicators of block collections, the tokens of
scalars, tags and empty brackets, and the colon that makes a key of what was kept as a candidate.
-/
import StackBridge.Proofs.ScanStages

namespace StackBridge.Yaml

/-- The start of a block that opens at a column, if that is deeper than the block around it. -/
def openings (kind : TokenKind) (column : Nat) : List Int → List TokenKind
  | [] => []
  | block :: _ => if (column : Int) ≤ block then [] else [kind]

/-- The open blocks once one has opened at a column. -/
def opened (column : Nat) : List Int → List Int
  | [] => []
  | block :: outer => if (column : Int) ≤ block then block :: outer else column :: block :: outer

/-- The candidate at a token that may begin a key. -/
def Stage.noted (stage : Stage) : Option Pending :=
  if stage.keyAllowed then
    some ⟨stage.blocks.head? = some (stage.column : Int), stage.kinds.length, stage.column, 0⟩
  else stage.pending

namespace Scan

variable {scan : Scan} {stage : Stage} {rest : List Char} {column : Nat} {ks : List TokenKind}
  {allowed : Bool} {pending : Option Pending} {blocks : List Int} {mark : Mark}

theorem At.inFlow (hat : scan.At stage) : scan.inFlow = false := by
  simp [Scan.inFlow, hat.outer]

/-- What the end of a step leaves of a stage. -/
theorem At.drops (hat : scan.At stage) (hlasts : Pending.Lasts 0 stage.pending) :
    ∃ next, scan.dropStale = .ok next ∧
      next.At { stage with pending := Pending.after 0 stage.pending } := by
  obtain ⟨kept, hkept, hpending⟩ := refresh_of_matches hat.pending hlasts
  exact ⟨_, dropStale_of_refresh hat.outer hkept, { hat with pending := hpending }⟩

theorem next_cons {c : Char} (hc : isBreak c = false) (rest : List Char) (mark : Mark) :
    (Cursor.mk (c :: rest) mark).next = ⟨rest, mark.past c⟩ := by
  rw [Mark.past_of_not_break hc]
  rfl

/-- A block opens if the column is deeper than those that are open. -/
theorem openBlock_eq (hflow : scan.inFlow = false) (kind : TokenKind) (mark : Mark) :
    ∃ indent indents tokens, scan.openBlock kind mark none = { scan with indent, indents, tokens } ∧
      indent :: indents = opened mark.column (scan.indent :: scan.indents) ∧
      tokens.toList.map (·.kind) =
        scan.kinds ++ openings kind mark.column (scan.indent :: scan.indents) := by
  unfold openBlock
  rw [hflow]
  by_cases hshallow : (mark.column : Int) ≤ scan.indent
  · exact ⟨scan.indent, scan.indents, scan.tokens, by simp [hshallow], by simp [opened, hshallow],
      by simp [openings, hshallow, kinds]⟩
  · refine ⟨mark.column, scan.indent :: scan.indents, scan.tokens.push
      ⟨kind, mark, mark⟩, ?_, ?_, ?_⟩
    · simp [hshallow, push]
    · simp [opened, hshallow]
    · simp [openings, hshallow, kinds]

/-- The indicator of a block collection opens the block, if there is none at its column. -/
theorem At.indicates {c : Char} (hc : isBreak c = false)
    (hat : scan.At ⟨c :: rest, column, ks, allowed, none, blocks⟩) (start kind : TokenKind)
    {next : Scan → Bool} (hnext : ∀ scan : Scan, scan.outer = [] → next scan = true) :
    ∃ taken, (do
        let scan ← (scan.openBlock start scan.mark none).dropCandidate
        return { scan with keyAllowed := next scan }.pushIndicator kind 1) = .ok taken ∧
      taken.At ⟨rest, column + 1, ks ++ openings start column blocks ++ [kind], true, none,
        opened column blocks⟩ := by
  obtain ⟨indent, indents, tokens, hopen, hblocks, hkinds⟩ :=
    openBlock_eq hat.inFlow start scan.mark
  have hnone : scan.candidate = none := hat.pending
  have hcursor := hat.cursor_eq
  rw [hat.blocks, hat.column] at hblocks hkinds
  rw [hat.kinds] at hkinds
  have hdrop : (scan.openBlock start scan.mark none).dropCandidate =
      .ok { scan with indent, indents, tokens } := by
    rw [hopen, dropCandidate]
    simp only [hnone]
    rfl
  have hpassed : scan.cursor.next = ⟨rest, scan.mark.past c⟩ := by
    rw [hcursor]
    exact next_cons hc rest scan.mark
  have hpast : scan.mark.past c = ⟨scan.mark.index + 1, scan.mark.line, column + 1⟩ := by
    rw [Mark.past_of_not_break hc, hat.column]
  rw [hdrop]
  have hmark : scan.cursor.next.mark = ⟨scan.mark.index + 1, scan.mark.line, column + 1⟩ := by
    rw [hpassed]
    exact hpast
  refine ⟨_, rfl, ?_⟩
  constructor
  case rest => exact congrArg Cursor.rest hpassed
  case column => exact congrArg Mark.column hmark
  case kinds =>
    change (tokens.push _).toList.map (·.kind) = _
    rw [Array.toList_push, List.map_append, hkinds]
    rfl
  case keyAllowed => exact hnext _ hat.outer
  case pending => exact hnone
  case blocks => exact hblocks
  case outer => exact hat.outer
  case going => exact hat.going
  case noMark =>
    intro hzero
    rw [show Scan.mark _ = scan.cursor.next.mark from rfl, hmark] at hzero
    exact absurd hzero (Nat.succ_ne_zero _)

/-- Whether a scan takes the token of a stage and is in another one behind it. -/
def Leaves (scan : Scan) (stage : Stage) : Prop :=
  ∃ next, (scan.takeToken >>= dropStale) = .ok next ∧ next.At stage

theorem leaves_of_taken (stage : Stage) {taken : Scan} (htaken : scan.takeToken = .ok taken)
    (hat : taken.At stage)
    (hlasts : Pending.Lasts 0 stage.pending) :
    scan.Leaves { stage with pending := Pending.after 0 stage.pending } := by
  obtain ⟨next, hdrop, hnext⟩ := hat.drops hlasts
  exact ⟨next, by rw [htaken]; exact hdrop, hnext⟩

theorem At.leaves_dash
    (hat : scan.At ⟨'-' :: ' ' :: rest, column, ks, true, none, blocks⟩) :
    scan.Leaves ⟨' ' :: rest, column + 1,
      ks ++ openings .blockSequenceStart column blocks ++ [.blockEntry], true, none,
      opened column blocks⟩ := by
  obtain ⟨taken, htaken, htakenAt⟩ :=
    hat.indicates (by decide) .blockSequenceStart .blockEntry fun _ _ => rfl
  refine leaves_of_taken _ ?_ htakenAt (by rintro found ⟨⟩)
  have htake : scan.takeToken = scan.takeDash := by
    unfold takeToken
    simp [hat.cursor_eq, Cursor.at?, Cursor.atMarker, endsWord, endOr, isBlank]
  rw [htake, ← htaken]
  unfold takeDash
  rw [if_neg (by simp [hat.keyAllowed])]

theorem At.leaves_question
    (hat : scan.At ⟨'?' :: ' ' :: rest, column, ks, true, none, blocks⟩) :
    scan.Leaves ⟨' ' :: rest, column + 1,
      ks ++ openings .blockMappingStart column blocks ++ [.key], true, none,
      opened column blocks⟩ := by
  have hflow : ∀ scan : Scan, scan.outer = [] → (!scan.inFlow) = true := by
    intro scan houter
    simp [Scan.inFlow, houter]
  obtain ⟨taken, htaken, htakenAt⟩ := hat.indicates (by decide) .blockMappingStart .key hflow
  refine leaves_of_taken _ ?_ htakenAt (by rintro found ⟨⟩)
  have htake : scan.takeToken = scan.takeQuestion := by
    unfold takeToken
    simp [hat.cursor_eq, Cursor.at?, Cursor.atMarker, endsWord, endOr, isBlank]
  rw [htake, ← htaken]
  unfold takeQuestion
  rw [if_neg (by simp [hat.keyAllowed])]

/-- The colon of a value that has its own line. -/
theorem At.leaves_colon
    (hat : scan.At ⟨':' :: ' ' :: rest, column, ks, true, none, blocks⟩) :
    scan.Leaves ⟨' ' :: rest, column + 1,
      ks ++ openings .blockMappingStart column blocks ++ [.value], true, none,
      opened column blocks⟩ := by
  have hflow : ∀ scan : Scan, scan.outer = [] → (!scan.inFlow) = true := by
    intro scan houter
    simp [Scan.inFlow, houter]
  obtain ⟨taken, htaken, htakenAt⟩ := hat.indicates (by decide) .blockMappingStart .value hflow
  refine leaves_of_taken _ ?_ htakenAt (by rintro found ⟨⟩)
  have hnone : scan.candidate = none := hat.pending
  have htake : scan.takeToken = scan.takeColon := by
    unfold takeToken
    simp [hat.cursor_eq, Cursor.at?, Cursor.atMarker, endsWord, endOr, isBlank]
  obtain ⟨indent, indents, tokens, hopen, -, -⟩ :=
    openBlock_eq hat.inFlow .blockMappingStart scan.mark
  have hdrop : (scan.openBlock .blockMappingStart scan.mark none).dropCandidate =
      .ok (scan.openBlock .blockMappingStart scan.mark none) := by
    rw [hopen, dropCandidate]
    simp only [hnone]
    rfl
  rw [htake, ← htaken, hdrop]
  unfold takeColon
  simp only [hnone]
  rw [if_neg (by simp [hat.keyAllowed])]
  rfl

theorem kinds_insertAt {before behind : List TokenKind} (hkinds : scan.kinds = before ++ behind)
    (kind : TokenKind) (mark : Mark) :
    (scan.insertAt before.length kind mark).kinds = before ++ kind :: behind := by
  have htake : ∀ tokens : Array Token, tokens.toList.map (·.kind) = before ++ behind →
      (tokens.extract 0 before.length).toList.map (·.kind) = before ∧
        (tokens.extract before.length tokens.size).toList.map (·.kind) = behind := by
    intro tokens htokens
    have hsize : tokens.size = before.length + behind.length := by
      simpa using congrArg List.length htokens
    simp [Array.toList_extract, List.extract_eq_take_drop, List.map_take, List.map_drop, htokens,
      hsize]
  obtain ⟨hbefore, hbehind⟩ := htake scan.tokens hkinds
  unfold insertAt Scan.kinds
  simp only [Array.toList_append, Array.toList_push, List.map_append, hbefore, hbehind]
  simp

/-- The colon behind a candidate makes a key of it. -/
theorem At.leaves_key {found : Pending} {before behind : List TokenKind}
    (hat : scan.At ⟨':' :: rest, column, before ++ behind, allowed, some found, blocks⟩)
    (hword : endsWord rest.head? = true) (hposition : found.position = before.length) :
    scan.Leaves ⟨rest, column + 1,
      before ++ openings .blockMappingStart found.column blocks ++ .key :: behind ++
        [.value], false,
      none, opened found.column blocks⟩ := by
  obtain ⟨mark, hcandidate, hline, hcolumn, hindex⟩ := hat.pending
  have hcursor := hat.cursor_eq
  have htake : scan.takeToken = scan.takeColon := by
    unfold takeToken
    simp [hcursor, Cursor.at?, Cursor.atMarker, hword]
  have hkey := kinds_insertAt hat.kinds .key mark
  have hnext : scan.cursor.next = ⟨rest, scan.mark.past ':'⟩ := by
    rw [hcursor]
    exact next_cons (by decide) rest scan.mark
  have hmark : scan.cursor.next.mark = ⟨scan.mark.index + 1, scan.mark.line, column + 1⟩ := by
    rw [hnext]
    change scan.mark.past ':' = _
    rw [Mark.past_of_not_break (by decide), hat.column]
  have hopen : ∃ indent indents tokens,
      (scan.insertAt found.position .key mark).openBlock .blockMappingStart mark
          (some found.position) = { scan with indent, indents, tokens } ∧
        indent :: indents = opened found.column blocks ∧
        tokens.toList.map (·.kind) =
          before ++ openings .blockMappingStart found.column blocks ++ .key :: behind := by
    have hflow : (scan.insertAt found.position .key mark).inFlow = false := hat.inFlow
    obtain rfl : scan.indent :: scan.indents = blocks := hat.blocks
    unfold openBlock
    rw [hflow, hcolumn, hposition, Bool.false_or,
      show (scan.insertAt before.length .key mark).indent = scan.indent from rfl]
    by_cases hshallow : (found.column : Int) ≤ scan.indent
    · refine ⟨scan.indent, scan.indents, (scan.insertAt before.length .key mark).tokens, ?_, ?_, ?_⟩
      · rw [if_pos (decide_eq_true hshallow)]
        rfl
      · rw [opened, if_pos hshallow]
      · rw [openings, if_pos hshallow, List.append_nil]
        exact hkey
    · have hopened := @kinds_insertAt { scan.insertAt before.length .key mark with
          indents := scan.indent :: scan.indents
          indent := found.column } before (.key :: behind) hkey
        .blockMappingStart mark
      refine ⟨found.column, scan.indent :: scan.indents, _, ?_, ?_, hopened.trans ?_⟩
      · rw [if_neg (by simpa using hshallow)]
        rfl
      · rw [opened, if_neg hshallow]
      · rw [openings, if_neg hshallow]
        simp
  obtain ⟨indent, indents, tokens, hopen, hblocks, hkinds⟩ := hopen
  have htaken : scan.takeToken = .ok { scan with
      cursor := scan.cursor.next, keyAllowed := false, candidate := none, indent, indents
      tokens := tokens.push ⟨.value, scan.mark, scan.cursor.next.mark⟩ } := by
    rw [htake]
    unfold takeColon
    simp only [hcandidate, hopen]
    rfl
  refine leaves_of_taken ⟨rest, column + 1, before ++
    openings .blockMappingStart found.column blocks ++ .key :: behind ++ [.value], false, none,
    opened found.column blocks⟩ htaken ?_ (by rintro other ⟨⟩)
  constructor
  case rest => exact congrArg Cursor.rest hnext
  case column => exact congrArg Mark.column hmark
  case kinds =>
    change (tokens.push _).toList.map (·.kind) = _
    rw [Array.toList_push, List.map_append, hkinds]
    rfl
  case keyAllowed => rfl
  case pending => rfl
  case blocks => exact hblocks
  case outer => exact hat.outer
  case going => exact hat.going
  case noMark =>
    intro hzero
    rw [show Scan.mark _ = scan.cursor.next.mark from rfl, hmark] at hzero
    exact absurd hzero (Nat.succ_ne_zero _)

theorem At.dropsCandidate (hat : scan.At stage) (hdroppable : Droppable stage.pending) :
    scan.dropCandidate = .ok { scan with candidate := none } := by
  unfold dropCandidate
  cases hpending : stage.pending with
  | none =>
      have hnone : scan.candidate = none := by
        have hmatches := hat.pending
        rwa [hpending] at hmatches
      simp only [hnone]
      rw [← hnone]
      rfl
  | some found =>
      have hmatches := hat.pending
      rw [hpending] at hmatches
      obtain ⟨mark, hcandidate, -⟩ := hmatches
      simp only [hcandidate, hdroppable found hpending, Bool.false_eq_true, if_false]
      rfl

/-- Where a key may begin the next token becomes the candidate. -/
theorem At.notes (hat : scan.At stage)
    (hdroppable : stage.keyAllowed = true → Droppable stage.pending) :
    ∃ candidate, scan.noteCandidate = .ok { scan with candidate } ∧
      ({ scan with candidate } : Scan).At { stage with pending := stage.noted } := by
  unfold noteCandidate Stage.noted
  have hkey := hat.keyAllowed
  by_cases hallowed : stage.keyAllowed = true
  · have hdrop := hat.dropsCandidate (hdroppable hallowed)
    have hrequired : (!scan.inFlow && decide (scan.indent = (scan.mark.column : Int))) =
        decide (stage.blocks.head? = some (stage.column : Int)) := by
      rw [hat.inFlow, hat.column, ← hat.blocks]
      simp
    have hsize : scan.tokens.size = stage.kinds.length := by
      rw [← hat.kinds]
      simp [Scan.kinds]
    refine ⟨some ⟨!scan.inFlow && decide (scan.indent = (scan.mark.column : Int)), scan.tokens.size,
      scan.mark⟩, ?_, ?_⟩
    · rw [if_pos (hkey.trans hallowed), hdrop]
      rfl
    · refine { hat with pending := ?_ }
      rw [if_pos hallowed]
      exact ⟨scan.mark, by rw [← hrequired, ← hsize], rfl, hat.column, rfl⟩
  · rw [if_neg (by rw [hkey]; exact hallowed), if_neg hallowed]
    exact ⟨scan.candidate, rfl, hat⟩

/-- Deeper than its block a token that becomes the candidate can be given up. -/
theorem droppable_noted (hdroppable : Droppable stage.pending)
    (hdeeper : stage.blocks.head? ≠ some (stage.column : Int)) : Droppable stage.noted := by
  unfold Stage.noted
  split
  · intro found hfound
    obtain rfl := Option.some.inj hfound
    exact decide_eq_false hdeeper
  · exact hdroppable

/-- A token on one line keeps the candidate. -/
theorem At.takesKeyable {lexer : Lexer Token} {text : List Char} {kind : TokenKind}
    (hat : scan.At ⟨text ++ rest, column, ks, allowed, pending, blocks⟩)
    (hdroppable : allowed = true → Droppable pending) (htext : ∀ c ∈ text, isBreak c = false)
    (hempty : text ≠ [])
    (hlexes : ∀ mark, ∃ token, token.kind = kind ∧
      lexer.Lexes ⟨text ++ rest, mark⟩ token ⟨rest, mark.over text⟩) :
    ∃ taken, scan.takeKeyable lexer = .ok taken ∧
      taken.At ⟨rest, column + text.length, ks ++ [kind], false,
        (Stage.noted ⟨text ++ rest, column, ks, allowed, pending, blocks⟩).map fun found =>
          { found with age := found.age + text.length }, blocks⟩ := by
  obtain ⟨candidate, hnote, hnoted⟩ := hat.notes hdroppable
  obtain ⟨token, hkind, hlex⟩ := hlexes scan.mark
  have hrun : lexer.run scan.cursor = .ok (token, ⟨rest, scan.mark.over text⟩) := by
    rw [hat.cursor_eq]
    exact hlex
  have hmark : scan.mark.over text =
      ⟨scan.mark.index + text.length, scan.mark.line, column + text.length⟩ := by
    rw [Mark.over_line htext, hat.column]
  refine ⟨{ scan with
    cursor := ⟨rest, scan.mark.over text⟩, tokens := scan.tokens.push token, keyAllowed := false
    candidate }, ?_, ?_⟩
  · unfold takeKeyable
    rw [hnote]
    simp only [bind, Except.bind, lex, hrun]
    rfl
  · constructor
    case rest => rfl
    case column => exact congrArg Mark.column hmark
    case kinds =>
      change (scan.tokens.push token).toList.map (·.kind) = _
      rw [Array.toList_push, List.map_append, List.map_singleton, hkind]
      exact congrArg (· ++ [kind]) hat.kinds
    case keyAllowed => rfl
    case pending => exact matches_past hnoted.pending htext
    case blocks => exact hat.blocks
    case outer => exact hat.outer
    case going => exact hat.going
    case noMark =>
      intro hzero
      rw [show Scan.mark _ = scan.mark.over text from rfl, hmark] at hzero
      exact absurd (List.length_eq_zero_iff.1 (Nat.add_eq_zero_iff.1 hzero).2) hempty

/-- Behind a token of several lines the candidate is given up. -/
theorem At.leavesLines {lexer : Lexer Token} {text : List Char} {kind : TokenKind}
    (hat : scan.At ⟨text ++ rest, column, ks, allowed, pending, blocks⟩)
    (hdroppable : Droppable pending) (hdeeper : blocks.head? ≠ some (column : Int))
    (htext : ∃ c ∈ text, isBreak c = true)
    (htake : scan.takeToken = scan.takeKeyable lexer)
    (hlexes : ∀ mark, ∃ token, token.kind = kind ∧
      lexer.Lexes ⟨text ++ rest, mark⟩ token ⟨rest, mark.over text⟩) :
    ∃ column, scan.Leaves ⟨rest, column, ks ++ [kind], false, none, blocks⟩ := by
  obtain ⟨candidate, hnote, hnoted⟩ := hat.notes fun _ => hdroppable
  obtain ⟨token, hkind, hlex⟩ := hlexes scan.mark
  have hrun : lexer.run scan.cursor = .ok (token, ⟨rest, scan.mark.over text⟩) := by
    rw [hat.cursor_eq]
    exact hlex
  obtain ⟨c, hc, hbreak⟩ := htext
  have hline : scan.mark.line < (scan.mark.over text).line ∧ (scan.mark.over text).index ≠ 0 := by
    obtain ⟨front, back, rfl⟩ := List.append_of_mem hc
    rw [Mark.over_append, Mark.over_cons, Mark.past_of_break hbreak]
    have hfront := Mark.line_le_over scan.mark front
    have hback := Mark.line_le_over
      ⟨(scan.mark.over front).index + 1, (scan.mark.over front).line + 1, 0⟩ back
    constructor
    · simp only at hback
      omega
    · rw [Mark.index_over]
      simp only
      omega
  let taken : Scan := { scan with
    cursor := ⟨rest, scan.mark.over text⟩, tokens := scan.tokens.push token, keyAllowed := false
    candidate }
  have htaken : scan.takeToken = .ok taken := by
    rw [htake]
    unfold takeKeyable
    rw [hnote]
    simp only [bind, Except.bind, lex, hrun]
    rfl
  have hstale : ∀ found ∈ taken.candidate,
      found.required = false ∧ found.mark.line < taken.mark.line :=
    stale_of_matches hnoted.pending (droppable_noted hdroppable hdeeper) hline.1
  refine ⟨(scan.mark.over text).column, { taken with candidate := none }, ?_, ?_⟩
  · rw [htaken]
    exact dropStale_of_later hat.outer hstale
  · constructor
    case rest => rfl
    case column => rfl
    case kinds =>
      change (scan.tokens.push token).toList.map (·.kind) = _
      rw [Array.toList_push, List.map_append, List.map_singleton, hkind]
      exact congrArg (· ++ [kind]) hat.kinds
    case keyAllowed => rfl
    case pending => rfl
    case blocks => exact hat.blocks
    case outer => exact hat.outer
    case going => exact hat.going
    case noMark => exact fun hzero => absurd hzero hline.2

/-- What follows a plain scalar: the colon of a key, or the end of the line. -/
def EndsPlain (rest : List Char) : Prop :=
  (∃ tail, rest = ':' :: tail ∧ endsWord tail.head? = true) ∨ ∃ tail, rest = '\n' :: tail

/-- A plain scalar never looks like a marker between documents. -/
theorem third_of_endsPlain {c : Char} (hc : c = '-' ∨ c = '.') {text : List Char}
    (hplain : startsWithMark text = false) (hrest : EndsPlain rest) :
    (text ++ rest).take 3 ≠ [c, c, c] := by
  have hother : ∀ d, rest.head? = some d → d ≠ c := by
    rintro d hd rfl
    rcases hrest with ⟨tail, rfl, -⟩ | ⟨tail, rfl⟩ <;> cases hd <;> simp at hc
  intro htake
  match text, hplain, htake with
  | [], _, htake =>
      cases rest with
      | nil => cases htake
      | cons d others => exact hother d rfl (by simpa using (List.cons.inj htake).1)
  | [e], _, htake =>
      cases rest with
      | nil => cases htake
      | cons d others =>
          refine hother d rfl ?_
          simp only [List.cons_append, List.nil_append, List.take_succ_cons,
            List.cons.injEq] at htake
          exact htake.2.1
  | [e, f], _, htake =>
      cases rest with
      | nil => cases htake
      | cons d others =>
          refine hother d rfl ?_
          simp only [List.cons_append, List.nil_append, List.take_succ_cons,
            List.cons.injEq] at htake
          exact htake.2.2.1
  | d :: e :: f :: others, hplain, htake =>
      simp only [List.cons_append, List.take_succ_cons, List.take_zero, List.cons.injEq,
        and_true] at htake
      obtain ⟨rfl, rfl, rfl⟩ := htake
      rcases hc with rfl | rfl <;> simp [startsWithMark] at hplain

theorem not_atMarker {text : List Char} (hplain : startsWithMark text = false)
    (hrest : EndsPlain rest) (mark : Mark) :
    (Cursor.mk (text ++ rest) mark).atMarker '-' = false ∧
      (Cursor.mk (text ++ rest) mark).atMarker '.' = false := by
  have hdash := third_of_endsPlain (Or.inl rfl) hplain hrest
  have hdot := third_of_endsPlain (Or.inr rfl) hplain hrest
  constructor
  · simp only [Cursor.atMarker, Bool.and_eq_false_iff, beq_eq_false_iff_ne]
    exact Or.inl (Or.inr hdash)
  · simp only [Cursor.atMarker, Bool.and_eq_false_iff, beq_eq_false_iff_ne]
    exact Or.inl (Or.inr hdot)

/-- A plain text begins with no mark that something else begins with. -/
theorem At.takeToken_plain {text : List Char} (hempty : text ≠ [])
    (hplain : allowsPlain text = true)
    (hrest : EndsPlain rest)
    (hat : scan.At ⟨text ++ rest, column, ks, allowed, pending, blocks⟩) :
    scan.takeToken = scan.takePlain := by
  have hflow := hat.inFlow
  have htext := plainText_of_allowsPlain hempty hplain
  have hstart : startsWithMark text = false := by
    unfold allowsPlain at hplain
    simp only [Bool.and_eq_true, Bool.not_eq_true'] at hplain
    exact hplain.1.2
  obtain ⟨hdash, hdot⟩ := not_atMarker hstart hrest scan.mark
  obtain ⟨c, others, rfl⟩ := List.exists_cons_of_ne_nil hempty
  obtain ⟨d, more, hfirst, hspace, hcomment⟩ := htext.first
  obtain ⟨rfl, rfl⟩ := List.cons.inj hfirst
  obtain ⟨hbreak, hblank⟩ := htext.line c List.mem_cons_self
  have hblank : isBlank c = false := by simpa using mt hblank hspace
  have hmarks : "#,[]\x7b\x7d&*!|>'\"%@\x60".toList.contains c = false ∧
      ((c = '?' ∨ c = ':' ∨ c = '-') → endsWordAt others.head? = false) := by
    unfold startsWithMark at hstart
    split at hstart
    · contradiction
    · cases hstart
    · cases hstart
    · rename_i d more _ _ hsplit
      obtain ⟨rfl, rfl⟩ := List.cons.inj hsplit
      obtain ⟨hlist, hword⟩ := Bool.or_eq_false_iff.1 hstart
      refine ⟨hlist, fun hc => ?_⟩
      have hthis : (decide (c = '?') || decide (c = ':') || decide (c = '-')) = true := by
        rcases hc with rfl | rfl | rfl <;> decide
      rw [hthis, Bool.true_and] at hword
      exact hword
  have hnext : (c = '?' ∨ c = ':' ∨ c = '-') → endsWord ((others ++ rest).head?) = false := by
    intro hc
    have hword := hmarks.2 hc
    cases others with
    | nil => cases hword
    | cons e more => exact endsWord_of_endsWordAt hword
  have hother : ∀ d ∈ "#,[]\x7b\x7d&*!|>'\"%@\x60".toList, c ≠ d := by
    rintro d hd rfl
    rw [List.contains_iff_mem.2 hd] at hmarks
    cases hmarks.1
  have hindicator : isIndicator c = true → c = '-' ∨ c = '?' ∨ c = ':' := by
    intro hc
    have hall : ("-?:,[]\x7b\x7d#&*!|>'\"%@\x60".toList.all fun d =>
        decide (d ∈ "#,[]\x7b\x7d&*!|>'\"%@\x60".toList ∨ d = '-' ∨ d = '?' ∨ d = ':')) = true := by
      decide
    exact (of_decide_eq_true (List.all_eq_true.1 hall c (List.contains_iff_mem.1 hc))).resolve_left
      fun hd => hother c hd rfl
  have hbegins : beginsPlain false c ((others ++ rest).head?) = true := by
    unfold beginsPlain
    by_cases hc : isIndicator c = true
    · have hword := hnext (by tauto)
      have hnoBlank : ((others ++ rest).head?).any isBlank = false := by
        cases hhead : (others ++ rest).head? with
        | none => rfl
        | some d =>
            rw [hhead] at hword
            exact (Bool.or_eq_false_iff.1 hword).1
      rcases hindicator hc with rfl | rfl | rfl
      · rw [hnoBlank]
        simp
      · rw [hword]
        simp
      · rw [hword]
        simp
    · simp [hc, hblank, hbreak]
  have hword : ∀ d, (d = '?' ∨ d = ':' ∨ d = '-') →
      (decide (c = d) && endsWord ((others ++ rest).head?)) = false := by
    intro d hd
    by_cases hc : c = d
    · subst hc
      rw [hnext hd, Bool.and_false]
    · simp [hc]
  unfold takeToken
  rw [hat.cursor_eq]
  simp only [Cursor.at?, List.cons_append, List.drop_zero, List.head?_cons, List.drop_succ_cons,
    hflow, Bool.false_or, Bool.not_false, Bool.and_true]
  simp only [hother '%' (by decide), hother '[' (by decide), hother ']' (by decide),
    hother '\x7b' (by decide), hother '\x7d' (by decide), hother ',' (by decide),
    hother '*' (by decide), hother '&' (by decide), hother '!' (by decide),
    hother '|' (by decide), hother '>' (by decide), hother '\'' (by decide),
    hother '"' (by decide), hword '-' (by simp), hword '?' (by simp), hword ':' (by simp),
    hbegins, decide_false, Bool.false_and, Bool.false_eq_true, if_false, if_true]
  rw [List.cons_append] at hdash hdot
  simp only [hdash, hdot, Bool.false_eq_true, if_false]

theorem startsWithMark_of_allowsPlain {text : List Char} (hplain : allowsPlain text = true) :
    startsWithMark text = false := by
  unfold allowsPlain at hplain
  simp only [Bool.and_eq_true, Bool.not_eq_true'] at hplain
  exact hplain.1.2

theorem not_atDocumentMarker {text : List Char} (hplain : allowsPlain text = true)
    (hrest : EndsPlain rest) (mark : Mark) :
    (Cursor.mk (text ++ rest) mark).atDocumentMarker = false := by
  obtain ⟨hdash, hdot⟩ := not_atMarker (startsWithMark_of_allowsPlain hplain) hrest mark
  rw [Cursor.atDocumentMarker, hdash, hdot]
  rfl

variable {text : List Char} {block : Int} {outer : List Int}

/-- A plain scalar up to the colon behind it. -/
theorem At.takesPlainKey (hempty : text ≠ []) (hplain : allowsPlain text = true)
    (hword : endsWord rest.head? = true)
    (hat : scan.At ⟨text ++ ':' :: rest, column, ks, allowed, pending, block :: outer⟩)
    (hcolumn : block ≤ column) (hdroppable : allowed = true → Droppable pending) :
    ∃ taken, scan.takeToken = .ok taken ∧
      taken.At ⟨':' :: rest, column + text.length, ks ++
        [.scalar (String.ofList text) .plain], false,
        (Stage.noted ⟨text ++ ':' :: rest, column, ks, allowed, pending, block :: outer⟩).map
          fun found => { found with age := found.age + text.length }, block :: outer⟩ := by
  have htext := plainText_of_allowsPlain hempty hplain
  have hends : EndsPlain (':' :: rest) := Or.inl ⟨rest, rfl, hword⟩
  obtain ⟨candidate, hnote, hnoted⟩ := hat.notes hdroppable
  obtain rfl : scan.indent = block := (List.cons.inj hat.blocks).1
  have hparent : scan.indent ≤ scan.mark.column := by
    rw [hat.column]
    exact hcolumn
  obtain ⟨token, hkind, hlex⟩ := Lexer.lexes_plain_key htext hword
    (not_atDocumentMarker hplain hends scan.mark) hparent
  have hline : ∀ c ∈ text, isBreak c = false := fun c hc => (htext.line c hc).1
  have hmark : scan.mark.over text =
      ⟨scan.mark.index + text.length, scan.mark.line, column + text.length⟩ := by
    rw [Mark.over_line hline, hat.column]
  have hrun : (Lexer.plain false scan.indent).run scan.cursor =
      .ok ((token, false), ⟨':' :: rest, scan.mark.over text⟩) := by
    rw [hat.cursor_eq]
    exact hlex
  refine ⟨{ scan with
    cursor := ⟨':' :: rest, scan.mark.over text⟩, tokens := scan.tokens.push token
    keyAllowed := false, candidate }, ?_, ?_⟩
  · have hflow : ({ scan with candidate } : Scan).inFlow = false := hat.inFlow
    rw [hat.takeToken_plain hempty hplain hends]
    unfold takePlain
    rw [hnote]
    simp only [bind, Except.bind, lex, hflow, hrun]
    rfl
  · constructor
    case rest => rfl
    case column => exact congrArg Mark.column hmark
    case kinds =>
      change (scan.tokens.push token).toList.map (·.kind) = _
      rw [Array.toList_push, List.map_append, List.map_singleton, hkind]
      exact congrArg (· ++ [_]) hat.kinds
    case keyAllowed => rfl
    case pending => exact matches_past hnoted.pending hline
    case blocks => exact hat.blocks
    case outer => exact hat.outer
    case going => exact hat.going
    case noMark => simp

/-- A plain scalar with the end of its line and the indentation of the next one. -/
theorem At.leavesPlainLine {count : Nat} (hempty : text ≠ []) (hplain : allowsPlain text = true)
    (hat : scan.At ⟨text ++
        '\n' :: (List.replicate count ' ' ++ rest), column, ks, allowed, pending,
      block :: outer⟩)
    (hcolumn : block < column) (hcount : (count : Int) ≤ block) (hrest : Lexer.StartsWord rest)
    (hdroppable : Droppable pending) :
    scan.Leaves ⟨rest, count, ks ++ [.scalar (String.ofList text) .plain], true, none,
      block :: outer⟩ := by
  have htext := plainText_of_allowsPlain hempty hplain
  have hends : EndsPlain ('\n' :: (List.replicate count ' ' ++ rest)) := Or.inr ⟨_, rfl⟩
  obtain ⟨candidate, hnote, hnoted⟩ := hat.notes fun _ => hdroppable
  have hdeeper : (block :: outer).head? ≠ some (column : Int) := by
    simp only [List.head?_cons, ne_eq, Option.some.injEq]
    omega
  have hstale := stale_of_matches hnoted.pending (droppable_noted hdroppable hdeeper)
    (Nat.lt_succ_self scan.mark.line)
  obtain rfl : scan.indent = block := (List.cons.inj hat.blocks).1
  have hparent : scan.indent ≤ scan.mark.column := by
    rw [hat.column]
    exact Int.le_of_lt hcolumn
  obtain ⟨token, hkind, hlex⟩ := Lexer.lexes_plain_line htext
    (not_atDocumentMarker hplain hends scan.mark) hparent hrest (Or.inr hcount)
  have hline : ∀ c ∈ text, isBreak c = false := fun c hc => (htext.line c hc).1
  let mark := ((scan.mark.over text).past '\n').over (List.replicate count ' ')
  have hmark : mark = ⟨scan.mark.index + text.length + 1 + count, scan.mark.line + 1, count⟩ := by
    simp only [mark]
    rw [Mark.over_line (by simp [isBreak]), Mark.past_of_break (by decide), Mark.over_line hline]
    simp
  have hrun : (Lexer.plain false scan.indent).run scan.cursor =
      .ok ((token, true), ⟨rest, mark⟩) := by
    rw [hat.cursor_eq]
    exact hlex
  let taken : Scan := { scan with
    cursor := ⟨rest, mark⟩, tokens := scan.tokens.push token, keyAllowed := true, candidate }
  have htaken : scan.takeToken = .ok taken := by
    have hflow : ({ scan with candidate } : Scan).inFlow = false := hat.inFlow
    rw [hat.takeToken_plain hempty hplain hends]
    unfold takePlain
    rw [hnote]
    simp only [bind, Except.bind, lex, hflow, hrun]
    rfl
  refine ⟨{ taken with candidate := none }, ?_, ?_⟩
  · rw [htaken]
    refine dropStale_of_later hat.outer fun found hfound => ?_
    rw [show taken.mark = mark from rfl, hmark]
    exact hstale found hfound
  · constructor
    case rest => rfl
    case column => exact congrArg Mark.column hmark
    case kinds =>
      change (scan.tokens.push token).toList.map (·.kind) = _
      rw [Array.toList_push, List.map_append, List.map_singleton, hkind]
      exact congrArg (· ++ [_]) hat.kinds
    case keyAllowed => rfl
    case pending => rfl
    case blocks => exact hat.blocks
    case outer => exact hat.outer
    case going => exact hat.going
    case noMark =>
      intro hzero
      rw [show Scan.mark _ = mark from rfl, hmark] at hzero
      simp only at hzero
      omega

/-- A literal block with the break that ends it and the indentation of the next line. -/
theorem At.leavesLiteral {parent count : Nat} (hallows : allowsLiteral text = true)
    (hat : scan.At ⟨styledChars (parent + indentWidth) text .literal ++
      (lineEnd text ++ (List.replicate count ' ' ++ rest)), column, ks, allowed, pending,
      (parent : Int) :: outer⟩)
    (hcount : count ≤ parent) (hrest : Lexer.StartsWord rest) (hdroppable : Droppable pending) :
    scan.Leaves ⟨rest, count, ks ++ [.scalar (String.ofList text) .literal], true, none,
      (parent : Int) :: outer⟩ := by
  have hindent : scan.indent = parent := (List.cons.inj hat.blocks).1
  have hempty : text ≠ [] := by
    rintro rfl
    cases hallows
  have hdrop := hat.dropsCandidate hdroppable
  obtain ⟨token, hkind, hlex⟩ := Lexer.lexes_literal hallows hcount hrest scan.mark
  let mark := ((scan.mark.over (styledChars (parent + indentWidth) text .literal)).over
    (lineEnd text)).over (List.replicate count ' ')
  have hcolumn : mark.column = count ∧ mark.index ≠ 0 := by
    have hlast := Mark.over_column_of_break
      (getLast?_literal_lineEnd (parent + indentWidth) hempty) scan.mark
    simp only [mark]
    rw [← Mark.over_append _ _ (lineEnd text), Mark.over_line (by simp [isBreak]), hlast,
      Mark.index_over]
    simp [styledChars]
  have hrun : (Lexer.blockScalar false scan.indent).run scan.cursor =
      .ok (token, ⟨rest, mark⟩) := by
    rw [hat.cursor_eq, hindent]
    exact hlex
  have htake : scan.takeToken = scan.takeBlockScalar false := by
    unfold takeToken
    simp [hat.cursor_eq, Cursor.at?, Cursor.atMarker, styledChars, hat.inFlow]
  have htaken : scan.takeToken = .ok { scan with
      cursor := ⟨rest, mark⟩, tokens := scan.tokens.push token, keyAllowed := true
      candidate := none } := by
    rw [htake]
    unfold takeBlockScalar
    rw [hdrop]
    simp only [bind, Except.bind, lex, hrun]
    rfl
  refine leaves_of_taken ⟨rest, count, ks ++ [.scalar (String.ofList text) .literal], true, none,
    (parent : Int) :: outer⟩ htaken ?_ (by rintro found ⟨⟩)
  constructor
  case rest => rfl
  case column => exact hcolumn.1
  case kinds =>
    change (scan.tokens.push token).toList.map (·.kind) = _
    rw [Array.toList_push, List.map_append, List.map_singleton, hkind]
    exact congrArg (· ++ [_]) hat.kinds
  case keyAllowed => rfl
  case pending => rfl
  case blocks => exact hat.blocks
  case outer => exact hat.outer
  case going => exact hat.going
  case noMark => exact fun hzero => absurd hzero hcolumn.2

end Scan

end StackBridge.Yaml
