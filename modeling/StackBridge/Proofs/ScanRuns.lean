/-
Runs of a scan from stage to stage. A run makes no more steps than it leaves characters behind; it
is put together from the tokens, of which an empty pair of brackets has two.
-/
import StackBridge.Proofs.ScanTokens
import StackBridge.Proofs.WrittenScalars

namespace StackBridge.Yaml

namespace Pending

variable {pending : Option Pending}

theorem after_after (first more : Nat) (pending : Option Pending) :
    Pending.after more (Pending.after first pending) = Pending.after (first + more) pending := by
  cases pending with
  | none => rfl
  | some found =>
      by_cases hfirst : found.age + first ≤ Scan.maxKeyLength
      · simp only [Pending.after, Option.bind_some, hfirst, if_true, Nat.add_assoc]
      · have hboth : ¬ found.age + (first + more) ≤ Scan.maxKeyLength := by omega
        simp only [Pending.after, Option.bind_some, hfirst, hboth, if_false, Option.bind_none]

theorem Lasts.after (first more : Nat) (hlasts : Pending.Lasts (first + more) pending) :
    Pending.Lasts more (Pending.after first pending) := by
  intro found hfound hrequired
  obtain ⟨before, hbefore, hkept⟩ := Option.bind_eq_some_iff.1 hfound
  split at hkept
  · obtain rfl := Option.some.inj hkept
    have := hlasts before hbefore hrequired
    simp only
    omega
  · cases hkept

theorem Lasts.less (first more : Nat) (hlasts : Pending.Lasts (first + more) pending) :
    Pending.Lasts first pending :=
  fun found hfound hrequired => by
    have := hlasts found hfound hrequired
    omega

end Pending

namespace Scan

variable {pending : Option Pending}

theorem Droppable.lasts (hdroppable : Droppable pending) (distance : Nat) :
    Pending.Lasts distance pending := by
  intro found hfound hrequired
  rw [hdroppable found hfound] at hrequired
  cases hrequired

theorem Droppable.after (hdroppable : Droppable pending) (distance : Nat) :
    Droppable (Pending.after distance pending) := by
  intro found hfound
  obtain ⟨before, hbefore, hkept⟩ := Option.bind_eq_some_iff.1 hfound
  split at hkept
  · obtain rfl := Option.some.inj hkept
    exact hdroppable before hbefore
  · cases hkept

theorem droppable_none : Droppable none := by
  rintro found ⟨⟩

/-- Whether a scan gets to the token of a stage, in no more steps than it leaves characters behind.
-/
def Reaches (scan : Scan) (length : Nat) (stage : Stage) : Prop :=
  ∃ steps next, next.Arrives stage ∧ steps + stage.rest.length ≤ length ∧
    ∀ more, run (steps + more) scan = run more next

/-- Whether a scan that stands at a token takes it, or the two of an empty pair of brackets, and is
at a stage then. -/
def Passes (landed : Scan) (length : Nat) (stage : Stage) : Prop :=
  ∃ first steps next, (landed.takeToken >>= dropStale) = .ok first ∧ next.At stage ∧
    steps + stage.rest.length < length ∧ ∀ more, run (steps + more) first = run more next

end Scan

namespace Stage

/-- Whether a scan that is about to take the token of one stage gets to the token of another. -/
def Leads (here there : Stage) : Prop :=
  ∀ scan : Scan, scan.Arrives here → scan.Reaches here.rest.length there

/-- Whether a scan that is at one stage gets to the token of another. -/
def Goes (here there : Stage) : Prop :=
  ∀ scan : Scan, scan.At here → scan.Reaches here.rest.length there

end Stage

namespace Scan

variable {scan next : Scan} {here mid there stage : Stage} {rest : List Char} {column : Nat}
  {ks : List TokenKind} {allowed : Bool} {pending : Option Pending} {block : Int} {outer : List Int}

theorem run_of_step (hgoing : scan.finished = false) (hstep : scan.step = .ok next) (more : Nat) :
    run (1 + more) scan = run more next := by
  rw [Nat.add_comm, run, hgoing, hstep]
  rfl

theorem Reaches.trans {length : Nat} (hreaches : scan.Reaches length mid)
    (hleads : mid.Leads there) :
    scan.Reaches length there := by
  obtain ⟨steps, next, hnext, hlength, hrun⟩ := hreaches
  obtain ⟨further, last, hlast, hless, hmore⟩ := hleads next hnext
  refine ⟨steps + further, last, hlast, by omega, fun more => ?_⟩
  rw [Nat.add_assoc, hrun, hmore]

theorem leads_trans (hfirst : here.Leads mid) (hmore : mid.Leads there) : here.Leads there :=
  fun scan harrives => (hfirst scan harrives).trans hmore

theorem goes_trans (hfirst : here.Goes mid) (hmore : mid.Leads there) : here.Goes there :=
  fun scan hat => (hfirst scan hat).trans hmore

theorem goes_of_arrives (harrives : ∀ scan : Scan, scan.At here → scan.Arrives there)
    (hlength : there.rest.length ≤ here.rest.length) : here.Goes there :=
  fun scan hat => ⟨0, scan, harrives scan hat, by omega, fun more => by rw [Nat.zero_add]⟩

/-- A scan that passes through a state leads where the state goes. -/
theorem leads_of_passes (hpasses : ∀ landed : Scan, landed.At here →
    ∃ mid, landed.Passes here.rest.length mid ∧ mid.Goes there) : here.Leads there := by
  intro scan harrives
  obtain ⟨landed, hlanded, hstep⟩ := harrives.step
  obtain ⟨mid, ⟨first, steps, next, hfirst, hnext, hlength, hrun⟩, hgoes⟩ := hpasses landed hlanded
  obtain ⟨further, last, hlast, hless, hmore⟩ := hgoes next hnext
  refine ⟨1 + (steps + further), last, hlast, by omega, fun more => ?_⟩
  rw [Nat.add_assoc, run_of_step harrives.going (hstep.trans hfirst), Nat.add_assoc, hrun, hmore]

theorem Leaves.passes {length : Nat} (hleaves : scan.Leaves stage)
    (hlength : stage.rest.length < length) :
    scan.Passes length stage := by
  obtain ⟨next, hstep, hnext⟩ := hleaves
  exact ⟨next, 0, next, hstep, hnext, by omega, fun more => by rw [Nat.zero_add]⟩

theorem leads_of_leaves (hleaves : ∀ landed : Scan, landed.At here → landed.Leaves mid)
    (hlength : mid.rest.length < here.rest.length) (hgoes : mid.Goes there) : here.Leads there :=
  leads_of_passes fun landed hlanded => ⟨mid, (hleaves landed hlanded).passes hlength, hgoes⟩

theorem closings_of_le {column : Int} (hcolumn : block ≤ column) (outer : List Int) :
    closings column (block :: outer) = [] ∧ openAt column (block :: outer) = block :: outer :=
  ⟨if_pos hcolumn, if_pos hcolumn⟩

/-- Spaces within a block lead to the word behind them. -/
theorem goes_of_spaces (count : Nat) (hstarts : StartsToken rest)
    (hlasts : Pending.Lasts count pending)
    (hcolumn : block ≤ (column + count : Nat)) :
    Stage.Goes ⟨List.replicate count ' ' ++ rest, column, ks, allowed, pending, block :: outer⟩
      ⟨rest, column + count, ks, allowed, Pending.after count pending, block :: outer⟩ := by
  obtain ⟨hclosings, hopen⟩ := closings_of_le hcolumn outer
  refine goes_of_arrives (fun scan hat => ?_) (by simp)
  have harrives := hat.arrives_of_spaces count hstarts hlasts
  rwa [hclosings, hopen, List.append_nil] at harrives

theorem goes_of_word (hstarts : StartsToken rest) (hlasts : Pending.Lasts 0 pending)
    (hcolumn : block ≤ column) :
    Stage.Goes ⟨rest, column, ks, allowed, pending, block :: outer⟩
      ⟨rest, column, ks, allowed, Pending.after 0 pending, block :: outer⟩ :=
  goes_of_spaces 0 hstarts hlasts (by simpa using hcolumn)

/-- The end of a line leads to the word on the next one. -/
theorem goes_of_line {count : Nat} {blocks : List Int} (hstarts : StartsToken rest)
    (hdroppable : Droppable pending) :
    Stage.Goes ⟨'\n' :: (List.replicate count ' ' ++ rest), column, ks, allowed, pending, blocks⟩
      ⟨rest, count, ks ++ closings count blocks, true, none, openAt count blocks⟩ :=
  goes_of_arrives (fun _ hat => hat.arrives_of_line hstarts hdroppable) (by simp; omega)

inductive Brackets : Char → Char → TokenKind → TokenKind → Prop
  | sequence : Brackets '[' ']' .flowSequenceStart .flowSequenceEnd
  | mapping : Brackets '\x7b' '\x7d' .flowMappingStart .flowMappingEnd

variable {opening closing : Char} {start stop : TokenKind} {blocks : List Int}

theorem Brackets.line (hbrackets : Brackets opening closing start stop) :
    isBreak opening = false ∧ isBreak closing = false := by
  cases hbrackets <;> decide

/-- Between brackets the candidate of the level around them is kept like any other one. -/
theorem dropStale_within {candidate kept : Option KeyCandidate} (houter : scan.outer = [candidate])
    (hnone : scan.candidate = none) (hkept : scan.refresh candidate = .ok kept) :
    scan.dropStale = .ok { scan with outer := [kept] } := by
  have hinner : scan.refresh none = .ok none := rfl
  unfold dropStale
  rw [houter, hnone, hinner]
  simp only [List.reverse_singleton, List.mapM_cons, List.mapM_nil, hkept, bind, Except.bind, pure,
    Except.pure]

/-- Within brackets a bracket directly behind the cursor is taken as it stands. -/
theorem step_closing {candidate kept : Option KeyCandidate} {mark : Mark}
    (hbrackets : Brackets opening closing start stop)
    (hcursor : scan.cursor = ⟨closing :: rest, mark⟩)
    (houter : scan.outer = [candidate]) (hnone : scan.candidate = none)
    (hkept : scan.refresh candidate = .ok kept) :
    scan.step = (Except.ok { scan with
      cursor := ⟨rest, mark.past closing⟩
      tokens := scan.tokens.push ⟨stop, mark, mark.past closing⟩
      candidate := kept, outer := [], keyAllowed := false } >>= dropStale) := by
  have hflow : scan.inFlow = true := by simp [Scan.inFlow, houter]
  have hstarts : StartsToken (closing :: rest) := by
    constructor <;> cases hbrackets <;> simp [Lexer.StartsWord, isBlank, isBreak]
  have hskip : skipToToken (scan.cursor.rest.length + 1) scan = scan := by
    have hskipped := skipToToken_spaces scan.cursor.rest.length 0 hcursor hstarts
      (by cases hbrackets <;> simp)
    rw [hskipped]
    exact congrArg (fun cursor => { scan with cursor }) hcursor.symm
  have hclose : ∀ outer, ({ scan with outer := [outer] } : Scan).closeBlocks
      ({ scan with outer := [outer] } : Scan).mark.column = { scan with outer := [outer] } :=
    fun _ => rfl
  have htake : ({ scan with outer := [kept] } : Scan).takeToken =
      ({ scan with outer := [kept] } : Scan).takeClosing stop := by
    unfold takeToken
    cases hbrackets <;> simp [hcursor, Cursor.at?, Cursor.atMarker]
  have hpast : (Cursor.mk (closing :: rest) mark).next = ⟨rest, mark.past closing⟩ :=
    next_cons hbrackets.line.2 rest mark
  unfold step
  rw [hskip, dropStale_within houter hnone hkept]
  simp only [bind, Except.bind, hclose, htake]
  unfold takeClosing dropCandidate
  simp only [hnone, bind, Except.bind, pure, Except.pure, pushIndicator, push, hcursor, Scan.mark,
    List.range_one, List.foldl_cons, List.foldl_nil, hpast]

theorem At.takesOpening (hbrackets : Brackets opening closing start stop)
    (hat : scan.At ⟨opening :: rest, column, ks, allowed, pending, blocks⟩)
    {candidate : Option KeyCandidate} (hnote : scan.noteCandidate = .ok { scan with candidate }) :
    scan.takeToken = .ok { scan with
      cursor := ⟨rest, scan.mark.past opening⟩
      tokens := scan.tokens.push ⟨start, scan.mark, scan.mark.past opening⟩
      keyAllowed := true, candidate := none, outer := [candidate] } := by
  have htake : scan.takeToken = scan.takeOpening start := by
    unfold takeToken
    cases hbrackets <;> simp [hat.cursor_eq, Cursor.at?, Cursor.atMarker]
  have hpast : scan.cursor.next = ⟨rest, scan.mark.past opening⟩ := by
    rw [hat.cursor_eq]
    exact next_cons hbrackets.line.1 rest scan.mark
  rw [htake]
  unfold takeOpening
  rw [hnote]
  simp only [bind, Except.bind, pure, Except.pure, pushIndicator, push, List.range_one,
    List.foldl_cons, List.foldl_nil, hpast, hat.outer]
  rfl

/-- An empty pair of brackets keeps the candidate. It is looked at before either bracket. -/
theorem At.passesBrackets (hbrackets : Brackets opening closing start stop)
    (hat : scan.At ⟨opening :: closing :: rest, column, ks, allowed, pending, blocks⟩)
    (hdroppable : allowed = true → Droppable pending)
    (hlasts : Pending.Lasts 2
      (Stage.noted ⟨opening :: closing :: rest, column, ks, allowed, pending, blocks⟩)) :
    scan.Passes (opening :: closing :: rest).length ⟨rest, column + 2, ks ++ [start, stop], false,
      Pending.after 2 (Stage.noted
        ⟨opening :: closing :: rest, column, ks, allowed, pending, blocks⟩),
      blocks⟩ := by
  obtain ⟨candidate, hnote, hnoted⟩ := hat.notes hdroppable
  have htake := hat.takesOpening hbrackets hnote
  obtain ⟨hopening, hclosing⟩ := hbrackets.line
  generalize Stage.noted ⟨opening :: closing :: rest, column, ks, allowed, pending, blocks⟩ = noted
    at hnoted hlasts ⊢
  let opened : Scan := { scan with
    cursor := ⟨closing :: rest, scan.mark.past opening⟩
    tokens := scan.tokens.push ⟨start, scan.mark, scan.mark.past opening⟩
    keyAllowed := true, candidate := none, outer := [candidate] }
  have hopened := matches_past hnoted.pending
    (show ∀ c ∈ [opening], isBreak c = false by simpa using hopening)
  obtain ⟨first, hfirst, hpending⟩ := @refresh_of_matches opened _ _ hopened
    (lasts_map (Pending.Lasts.less 1 1 hlasts))
  rw [after_map] at hpending
  let within : Scan := { opened with outer := [first] }
  have hdrop : opened.dropStale = .ok within := dropStale_within rfl rfl hfirst
  have hbefore : Pending.Lasts 1 (Pending.after 1 noted) :=
    Pending.Lasts.after 1 1 hlasts
  obtain ⟨second, hsecond, hpending⟩ := @refresh_of_matches within _ _ hpending
    (Pending.Lasts.less 0 1 hbefore)
  rw [Pending.after_after] at hpending
  have hstep : within.step = _ := step_closing hbrackets rfl rfl rfl hsecond
  have hclosed := matches_past hpending
    (show ∀ c ∈ [closing], isBreak c = false by simpa using hclosing)
  let closed : Scan := { within with
    cursor := ⟨rest, (scan.mark.past opening).past closing⟩
    tokens := within.tokens.push
      ⟨stop, scan.mark.past opening, (scan.mark.past opening).past closing⟩
    candidate := second, outer := [], keyAllowed := false }
  have hmark : closed.mark = ⟨scan.mark.index + 2, scan.mark.line, column + 2⟩ := by
    change (scan.mark.past opening).past closing = _
    rw [Mark.past_of_not_break hopening, Mark.past_of_not_break hclosing, hat.column]
  have hclosedAt : closed.At ⟨rest, column + 2, ks ++ [start, stop], false,
      (Pending.after 1 noted).map fun found => { found with age := found.age + 1 }, blocks⟩ := by
    constructor
    case rest => rfl
    case column => rw [hmark]
    case kinds =>
      change ((scan.tokens.push _).push _).toList.map (·.kind) = _
      rw [Array.toList_push, Array.toList_push, List.map_append, List.map_append, List.append_assoc]
      exact congrArg (· ++ [start, stop]) hat.kinds
    case keyAllowed => rfl
    case pending => exact hclosed
    case blocks => exact hat.blocks
    case outer => rfl
    case going => exact hat.going
    case noMark =>
      rw [hmark]
      rintro ⟨⟩
  obtain ⟨next, hnext, hnextAt⟩ := hclosedAt.drops (lasts_map hbefore)
  refine ⟨within, 1, next, ?_, ?_, ?_, fun more => ?_⟩
  · rw [htake]
    exact hdrop
  · rw [after_map, Pending.after_after] at hnextAt
    exact hnextAt
  · simp only [List.length_cons]
    omega
  · exact run_of_step (show within.finished = false from hat.going) (hstep.trans hnext) more

variable {text : List Char} {style : ScalarStyle} {indent : Nat}

theorem leaves_of_keyable {taken : Scan} {distance : Nat} (htaken : scan.takeToken = .ok taken)
    (hat : taken.At ⟨rest, column, ks, allowed,
      pending.map fun found => { found with age := found.age + distance }, blocks⟩)
    (hlasts : Pending.Lasts distance pending) :
    scan.Leaves ⟨rest, column, ks, allowed, Pending.after distance pending, blocks⟩ := by
  have hleaves := leaves_of_taken _ htaken hat (lasts_map hlasts)
  rwa [after_map] at hleaves

/-- A tag keeps the candidate. -/
theorem At.leavesTag {name : String} (hname : LegibleTag name) (hrest : Lexer.EndsWordHere rest)
    (hat : scan.At ⟨tagChars name ++ rest, column, ks, allowed, pending, blocks⟩)
    (hdroppable : allowed = true → Droppable pending)
    (hlasts : Pending.Lasts (tagChars name).length
      (Stage.noted ⟨tagChars name ++ rest, column, ks, allowed, pending, blocks⟩)) :
    scan.Leaves ⟨rest, column + (tagChars name).length, ks ++ [Lexer.tagKind name], false,
      Pending.after (tagChars name).length
        (Stage.noted ⟨tagChars name ++ rest, column, ks, allowed, pending, blocks⟩), blocks⟩ := by
  obtain ⟨body, hchars, -, hline⟩ := tagChars_line name
  have htake : scan.takeToken = scan.takeKeyable (Lexer.tag false) := by
    unfold takeToken
    simp [hat.cursor_eq, hchars, Cursor.at?, Cursor.atMarker, hat.inFlow]
  obtain ⟨taken, htaken, htakenAt⟩ := hat.takesKeyable hdroppable (fun c hc => (hline c hc).1)
    (by rw [hchars]; exact List.cons_ne_nil _ _) (Lexer.lexes_tag hname.chars hrest)
  exact leaves_of_keyable (htake.trans htaken) htakenAt hlasts

/-- What takes a quoted scalar. -/
theorem At.takesQuoted (hwritten : Written text style)
    (hstyle : style = .singleQuoted ∨ style = .doubleQuoted)
    (hindent : indent ≠ 0 ∨ ∀ c ∈ text, isBreak c = false) (hrest : rest.head? ≠ some '\'')
    (hat : scan.At ⟨styledChars indent text style ++ rest, column, ks, allowed, pending, blocks⟩) :
    ∃ lexer, scan.takeToken = scan.takeKeyable lexer ∧ ∀ mark, ∃ token,
      token.kind = .scalar (String.ofList text) style ∧
        lexer.Lexes ⟨styledChars indent text style ++ rest, mark⟩ token
          ⟨rest, mark.over (styledChars indent text style)⟩ := by
  cases hwritten with
  | plain => rcases hstyle with hstyle | hstyle <;> cases hstyle
  | literal => rcases hstyle with hstyle | hstyle <;> cases hstyle
  | singleQuoted hallows hfeed =>
      refine ⟨Lexer.quoted true, ?_, Lexer.lexes_single
        (Written.singleText hallows hfeed hindent) hrest⟩
      unfold takeToken
      simp [hat.cursor_eq, styledChars, Cursor.at?, Cursor.atMarker]
  | doubleQuoted =>
      refine ⟨Lexer.quoted false, ?_, Lexer.lexes_double indent text rest⟩
      unfold takeToken
      simp [hat.cursor_eq, styledChars, Cursor.at?, Cursor.atMarker]

theorem quoted_ne_nil (indent : Nat) (text : List Char)
    (hstyle : style = .singleQuoted ∨ style = .doubleQuoted) :
    styledChars indent text style ≠ [] := by
  rcases hstyle with rfl | rfl <;> exact List.cons_ne_nil _ _

/-- A scalar on one line, up to the colon behind it. -/
theorem At.leavesKeyScalar (hwritten : Written text style) (hline : ∀ c ∈ text, isBreak c = false)
    (hword : endsWord rest.head? = true)
    (hat : scan.At ⟨styledChars indent text style ++ ':' :: rest, column, ks, allowed, pending,
      block :: outer⟩)
    (hcolumn : block ≤ column) (hdroppable : allowed = true → Droppable pending)
    (hlasts : Pending.Lasts (styledChars indent text style).length
      (Stage.noted ⟨styledChars indent text style ++ ':' :: rest, column, ks, allowed, pending,
        block :: outer⟩)) :
    scan.Leaves ⟨':' :: rest, column + (styledChars indent text style).length,
      ks ++ [.scalar (String.ofList text) style], false,
      Pending.after (styledChars indent text style).length
        (Stage.noted ⟨styledChars indent text style ++ ':' :: rest, column, ks, allowed, pending,
          block :: outer⟩), block :: outer⟩ := by
  have hquoted : style = .singleQuoted ∨ style = .doubleQuoted →
    ∃ taken, scan.takeToken = .ok taken ∧
      taken.At ⟨':' :: rest, column + (styledChars indent text style).length,
        ks ++ [.scalar (String.ofList text) style], false,
        (Stage.noted ⟨styledChars indent text style ++ ':' :: rest, column, ks, allowed, pending,
          block :: outer⟩).map fun found =>
            { found with age := found.age + (styledChars indent text style).length },
        block :: outer⟩ := by
    intro hstyle
    obtain ⟨lexer, htake, hlexes⟩ := hat.takesQuoted hwritten hstyle (Or.inr hline) (by simp)
    rw [htake]
    exact hat.takesKeyable hdroppable (hwritten.line hline indent).2
      (quoted_ne_nil indent text hstyle)
      hlexes
  cases hwritten with
  | plain hempty hallows =>
      obtain ⟨taken, htaken, htakenAt⟩ := hat.takesPlainKey hempty hallows hword hcolumn hdroppable
      exact leaves_of_keyable htaken htakenAt hlasts
  | singleQuoted =>
      obtain ⟨taken, htaken, htakenAt⟩ := hquoted (Or.inl rfl)
      exact leaves_of_keyable htaken htakenAt hlasts
  | doubleQuoted =>
      obtain ⟨taken, htaken, htakenAt⟩ := hquoted (Or.inr rfl)
      exact leaves_of_keyable htaken htakenAt hlasts
  | literal hallows hfeed => exact absurd (hline '\n' hfeed) (by decide)

variable {count : Nat}

/-- A quoted scalar with the end of its line. -/
theorem leads_of_quoted {parent : Nat} (hwritten : Written text style)
    (hstyle : style = .singleQuoted ∨ style = .doubleQuoted) (hindent : indent ≠ 0)
    (hcolumn : parent < column) (hstarts : StartsToken rest) (hdroppable : Droppable pending) :
    Stage.Leads ⟨styledChars indent text style ++
      '\n' :: (List.replicate count ' ' ++ rest), column,
      ks, allowed, pending, (parent : Int) :: outer⟩ ⟨rest, count,
      ks ++ [.scalar (String.ofList text) style] ++ closings count ((parent : Int) :: outer), true,
      none, openAt count ((parent : Int) :: outer)⟩ := by
  have hdeeper : ((parent : Int) :: outer).head? ≠ some (column : Int) := by
    simp only [List.head?_cons, ne_eq, Option.some.injEq]
    omega
  have hempty := List.length_pos_iff.2 (quoted_ne_nil indent text hstyle)
  refine leads_of_passes fun landed hlanded => ?_
  obtain ⟨lexer, htake, hlexes⟩ := hlanded.takesQuoted hwritten hstyle (Or.inl hindent) (by simp)
  have hgoes : ∀ {mid column}, Droppable mid → Stage.Goes
      ⟨'\n' :: (List.replicate count ' ' ++ rest), column,
        ks ++ [.scalar (String.ofList text) style], false, mid, (parent : Int) :: outer⟩ _ :=
    fun hmid => goes_of_line hstarts hmid
  have hlength : ('\n' :: (List.replicate count ' ' ++ rest)).length <
      (styledChars indent text style ++ '\n' :: (List.replicate count ' ' ++ rest)).length := by
    simp only [List.length_append, List.length_cons]
    omega
  by_cases hline : ∀ c ∈ styledChars indent text style, isBreak c = false
  · obtain ⟨taken, htaken, htakenAt⟩ := hlanded.takesKeyable (fun _ => hdroppable) hline
      (quoted_ne_nil indent text hstyle) hlexes
    have hnoted : Droppable (Stage.noted ⟨styledChars indent text style ++
        '\n' :: (List.replicate count ' ' ++ rest), column, ks, allowed, pending,
          parent :: outer⟩) :=
      droppable_noted hdroppable hdeeper
    exact ⟨_, (leaves_of_keyable (htake.trans htaken) htakenAt (hnoted.lasts _)).passes hlength,
      hgoes (hnoted.after _)⟩
  · simp only [not_forall, Bool.not_eq_false, exists_prop] at hline
    obtain ⟨behind, hleaves⟩ := hlanded.leavesLines hdroppable hdeeper hline htake hlexes
    exact ⟨_, hleaves.passes hlength, hgoes droppable_none⟩

/-- A scalar that is a value, with the end of its line. -/
theorem leads_of_scalar (ks : List TokenKind) (allowed : Bool) (outer : List Int) {parent : Nat}
    (hwritten : Written text style) (hcolumn : parent < column) (hcount : count ≤ parent)
    (hstarts : StartsToken rest) (hdroppable : Droppable pending) :
    Stage.Leads ⟨styledChars (parent + indentWidth) text style ++
        (scalarEnd text style ++ (List.replicate count ' ' ++ rest)), column,
      ks, allowed, pending, (parent : Int) :: outer⟩ ⟨rest, count,
      ks ++ [.scalar (String.ofList text) style] ++ closings count ((parent : Int) :: outer), true,
      none, openAt count ((parent : Int) :: outer)⟩ := by
  have hgoes : Stage.Goes ⟨rest, count, ks ++ [.scalar (String.ofList text) style], true, none,
      (parent : Int) :: outer⟩ ⟨rest, count,
      ks ++ [.scalar (String.ofList text) style] ++ closings count ((parent : Int) :: outer), true,
      none, openAt count ((parent : Int) :: outer)⟩ := by
    refine goes_of_arrives (fun scan hat => ?_) (Nat.le_refl _)
    exact hat.arrives_of_spaces 0 hstarts (droppable_none.lasts 0)
  have hindent : parent + indentWidth ≠ 0 := Nat.succ_ne_zero _
  cases hwritten with
  | plain hempty hallows =>
      refine leads_of_leaves (fun landed hlanded => hlanded.leavesPlainLine hempty hallows ?_ ?_
        hstarts.word hdroppable) ?_ hgoes
      · exact Int.ofNat_lt.2 hcolumn
      · exact Int.ofNat_le.2 hcount
      · simp [styledChars, scalarEnd]
        omega
  | singleQuoted hallows hfeed =>
      exact leads_of_quoted (.singleQuoted hallows hfeed)
        (Or.inl rfl) hindent hcolumn hstarts hdroppable
  | doubleQuoted =>
      exact leads_of_quoted .doubleQuoted (Or.inr rfl) hindent hcolumn hstarts hdroppable
  | literal hallows hfeed =>
      refine leads_of_leaves (fun landed hlanded => hlanded.leavesLiteral hallows hcount
        hstarts.word hdroppable) ?_ hgoes
      simp [styledChars, scalarEnd]
      omega

/-- An empty collection that is a value, with the end of its line. -/
theorem leads_of_brackets (ks : List TokenKind) (allowed : Bool) (outer : List Int) (count : Nat)
    {parent : Nat} (hbrackets : Brackets opening closing start stop)
    (hcolumn : parent < column) (hstarts : StartsToken rest) (hdroppable : Droppable pending) :
    Stage.Leads ⟨opening :: closing :: '\n' :: (List.replicate count ' ' ++ rest), column,
      ks, allowed, pending, (parent : Int) :: outer⟩ ⟨rest, count,
      ks ++ [start, stop] ++ closings count ((parent : Int) :: outer), true, none,
      openAt count ((parent : Int) :: outer)⟩ := by
  have hdeeper : ((parent : Int) :: outer).head? ≠ some (column : Int) := by
    simp only [List.head?_cons, ne_eq, Option.some.injEq]
    omega
  refine leads_of_passes fun landed hlanded => ?_
  have hnoted : Droppable (Stage.noted ⟨opening :: closing :: '\n' ::
      (List.replicate count ' ' ++ rest), column, ks, allowed, pending, parent :: outer⟩) :=
    droppable_noted hdroppable hdeeper
  exact ⟨_, hlanded.passesBrackets hbrackets (fun _ => hdroppable) (hnoted.lasts 2),
    goes_of_line hstarts (hnoted.after 2)⟩

end Scan

end StackBridge.Yaml
