/-
What waits in a stream. A pull is made of rounds, in each of which the stream either hands something
out or asks its source for an item. Between any two rounds the queue of what waits is short and in
order, what is handed out and what waits is all that was ever queued, and the queue of a stream that
has finished stays empty.
-/
import Mathlib.Logic.Function.Iterate
import StackBridge.Proofs.Degradation

namespace StackBridge.Conversion

open Chat (EventChunk)

/-- What a stream does in one round of a pull. -/
inductive Deed where
  /-- It hands out what waits first. -/
  | handsOut (item : StreamItem)
  /-- It asks its source and takes an item, which queues so much. -/
  | takes (item : SourceItem) (queued : List StreamItem)
  /-- It asks its source, which is at its end, and hands out the closing event. -/
  | closes (event : EventChunk)
  /-- It has nothing to hand out any more. -/
  | rests
deriving Repr

namespace Deed

/-- Whether the source is asked for an item. -/
def asks : Deed → Bool
  | .takes _ _ | .closes _ => true
  | .handsOut _ | .rests => false

def queued : Deed → List StreamItem
  | .takes _ queued => queued
  | .handsOut _ | .closes _ | .rests => []

/-- What is handed out of the queue. The closing event never waits. -/
def handed : Deed → List StreamItem
  | .handsOut item => [item]
  | .takes _ _ | .closes _ | .rests => []

end Deed

/-- One round of a pull. Nothing waits before an item is taken, so all that waits behind it is
queued by it. -/
def EventStream.round (stream : EventStream) : Deed × EventStream :=
  let state := stream.state
  match state.pending with
  | .ok event :: rest =>
      (.handsOut (.ok event),
        ⟨{ state with pending := rest, emitted := state.emitted + 1 }, stream.source⟩)
  | .error failure :: _ =>
      (.handsOut (.error failure), ⟨{ state with pending := [], finished := true }, stream.source⟩)
  | [] =>
      if state.finished then (.rests, stream)
      else
        match stream.source with
        | [] => (.closes state.completion, ⟨{ state with finished := true }, []⟩)
        | item :: rest => (.takes item (state.takeItem item).pending, ⟨state.takeItem item, rest⟩)

/-- A stream between two rounds, and what has gone through its queue by then. -/
structure Moment where
  stream : EventStream
  /-- All that was ever let wait. -/
  queued : List StreamItem := []
  /-- What of that was handed out. -/
  handed : List StreamItem := []
deriving Repr

def Moment.next (moment : Moment) : Moment where
  stream := moment.stream.round.2
  queued := moment.queued ++ moment.stream.round.1.queued
  handed := moment.handed ++ moment.stream.round.1.handed

/-- The moment behind so many rounds of a stream that starts at a source. -/
def Moment.ofSource (source : List SourceItem) (rounds : Nat) : Moment :=
  Moment.next^[rounds] { stream := .ofSource source }

/-- A stream in the midst of its next pull, when that has taken so many of the items it takes. -/
def EventStream.midway (stream : EventStream) (count : Nat) : EventStream :=
  ⟨(stream.taken.take count).foldl StreamState.takeItem stream.state, stream.source.drop count⟩

def eventsIn (items : List StreamItem) : List EventChunk :=
  items.filterMap Except.toOption

theorem round_of_idle {state : StreamState} (hidle : state.Idle) (item : SourceItem)
    (rest : List SourceItem) :
    (EventStream.mk state (item :: rest)).round =
      (.takes item (state.takeItem item).pending, ⟨state.takeItem item, rest⟩) := by
  simp [EventStream.round, hidle.1, hidle.2]

theorem round_of_exhausted {state : StreamState} (hidle : state.Idle) :
    (EventStream.mk state []).round =
      (.closes state.completion, ⟨{ state with finished := true }, []⟩) := by
  simp [EventStream.round, hidle.1, hidle.2]

theorem round_of_over {stream : EventStream} (hover : stream.state.Over) :
    stream.round = (.rests, stream) := by
  simp [EventStream.round, hover.1, hover.2]

theorem round_of_event {stream : EventStream} {event : EventChunk} {rest : List StreamItem}
    (hpending : stream.state.pending = .ok event :: rest) :
    stream.round =
      (.handsOut (.ok event),
        ⟨{ stream.state with pending := rest, emitted := stream.state.emitted + 1 },
          stream.source⟩) := by
  simp [EventStream.round, hpending]

theorem round_of_failure {stream : EventStream} {failure : Failure} {rest : List StreamItem}
    (hpending : stream.state.pending = .error failure :: rest) :
    stream.round =
      (.handsOut (.error failure),
        ⟨{ stream.state with pending := [], finished := true }, stream.source⟩) := by
  simp [EventStream.round, hpending]

/-- Every state is in one of the situations that decide what a round does. -/
theorem StreamState.situation (state : StreamState) :
    state.Idle ∨ state.Over ∨ (∃ event rest, state.pending = .ok event :: rest) ∨
      ∃ failure rest, state.pending = .error failure :: rest := by
  cases hpending : state.pending with
  | nil =>
      cases hfinished : state.finished with
      | false => exact Or.inl ⟨hpending, hfinished⟩
      | true => exact Or.inr (Or.inl ⟨hpending, hfinished⟩)
  | cons waiting rest =>
      cases waiting with
      | ok event => exact Or.inr (Or.inr (Or.inl ⟨event, rest, rfl⟩))
      | error failure => exact Or.inr (Or.inr (Or.inr ⟨failure, rest, rfl⟩))

theorem StreamState.not_idle_of_waiting {state : StreamState} {waiting : StreamItem}
    {rest : List StreamItem} (hpending : state.pending = waiting :: rest) : ¬ state.Idle := by
  simp [StreamState.Idle, hpending]

/-- A pull is its first round and, if that takes an item, a pull of what is left behind it. -/
theorem EventStream.pull_eq_round (stream : EventStream) :
    stream.pull =
      match stream.round with
      | (.takes item _, next) =>
          { next.pull with gained := itemAdvisories item ++ next.pull.gained }
      | (.handsOut item, next) => ⟨some item, next, []⟩
      | (.closes event, next) => ⟨some (.ok event), next, []⟩
      | (.rests, next) => ⟨none, next, []⟩ := by
  obtain ⟨state, source⟩ := stream
  rcases state.situation with hidle | hover | ⟨event, rest, hpending⟩ | ⟨failure, rest, hpending⟩
  · cases source with
    | nil => simp [round_of_exhausted hidle, EventStream.pull, pullFrom, hidle.1, hidle.2]
    | cons item rest =>
        rw [round_of_idle hidle, EventStream.pull, pullFrom_of_idle hidle]
        rfl
  · rw [round_of_over hover, pull_of_over hover]
  · rw [round_of_event hpending, EventStream.pull,
      pullFrom_of_not_idle (StreamState.not_idle_of_waiting hpending),
      StreamState.handOut_of_ok hpending]
  · rw [round_of_failure hpending, EventStream.pull,
      pullFrom_of_not_idle (StreamState.not_idle_of_waiting hpending),
      StreamState.handOut_of_error hpending]

theorem idle_of_asks {stream : EventStream} (hasks : stream.round.1.asks = true) :
    stream.state.Idle := by
  rcases stream.state.situation with
    hidle | hover | ⟨event, rest, hpending⟩ | ⟨failure, rest, hpending⟩
  · exact hidle
  · simp [round_of_over hover, Deed.asks] at hasks
  · simp [round_of_event hpending, Deed.asks] at hasks
  · simp [round_of_failure hpending, Deed.asks] at hasks

/-- Behind its first round a pull has either come to its end or goes on with a shorter source. -/
theorem pull_stream_of_round (stream : EventStream) :
    stream.pull.stream = stream.round.2 ∨
      stream.round.2.source.length < stream.source.length ∧
        stream.pull.stream = stream.round.2.pull.stream := by
  rw [stream.pull_eq_round]
  obtain ⟨state, source⟩ := stream
  rcases state.situation with hidle | hover | ⟨event, rest, hpending⟩ | ⟨failure, rest, hpending⟩
  · cases source with
    | nil => exact Or.inl (by rw [round_of_exhausted hidle])
    | cons item rest => exact Or.inr (by simp [round_of_idle hidle])
  · exact Or.inl (by rw [round_of_over hover])
  · exact Or.inl (by rw [round_of_event hpending])
  · exact Or.inl (by rw [round_of_failure hpending])

/-- The rounds of a pull lead where the pull leads. -/
theorem exists_rounds_of_pull (moment : Moment) :
    ∃ rounds, (Moment.next^[rounds] moment).stream = moment.stream.pull.stream := by
  induction hlength : moment.stream.source.length using Nat.strong_induction_on
    generalizing moment with
  | _ length ih =>
      rcases pull_stream_of_round moment.stream with hend | ⟨hshorter, hmore⟩
      · exact ⟨1, hend.symm⟩
      · obtain ⟨rounds, hrounds⟩ := ih _ (hlength ▸ hshorter) moment.next rfl
        exact ⟨rounds + 1, hrounds.trans hmore.symm⟩

/-- What a stream may reach in any number of pulls, it reaches in a number of rounds. -/
theorem exists_rounds_of_pulls (moment : Moment) (pulls : Nat) :
    ∃ rounds, (Moment.next^[rounds] moment).stream = moment.stream.after pulls := by
  induction pulls generalizing moment with
  | zero => exact ⟨0, rfl⟩
  | succ pulls ih =>
      obtain ⟨first, hfirst⟩ := exists_rounds_of_pull moment
      obtain ⟨others, hothers⟩ := ih (Moment.next^[first] moment)
      refine ⟨others + first, ?_⟩
      rw [Function.iterate_add_apply, hothers, hfirst]
      rfl

theorem taken_of_idle {state : StreamState} (hidle : state.Idle) (item : SourceItem)
    (rest : List SourceItem) :
    (EventStream.mk state (item :: rest)).taken =
      item :: (EventStream.mk (state.takeItem item) rest).taken :=
  StreamState.needs_of_idle hidle item rest

theorem taken_eq_nil {stream : EventStream} (hend : ¬ stream.state.Idle ∨ stream.source = []) :
    stream.taken = [] := by
  rcases hend with hbusy | hsource
  · exact StreamState.needs_of_not_idle hbusy stream.source
  · rw [EventStream.taken, hsource, StreamState.needs]

/-- Each of the items that a pull takes is one round. -/
theorem stream_midway (moment : Moment) {count : Nat}
    (hcount : count ≤ moment.stream.taken.length) :
    (Moment.next^[count] moment).stream = moment.stream.midway count := by
  induction count generalizing moment with
  | zero => rfl
  | succ count ih =>
      obtain ⟨⟨state, source⟩, queued, handed⟩ := moment
      by_cases hidle : state.Idle
      · cases source with
        | nil => simp [taken_eq_nil] at hcount
        | cons item rest =>
            rw [taken_of_idle hidle] at hcount
            rw [Function.iterate_succ_apply, ih]
            · simp [Moment.next, EventStream.midway, round_of_idle hidle, taken_of_idle hidle]
            · simpa [Moment.next, round_of_idle hidle] using hcount
      · simp [taken_eq_nil, hidle] at hcount

/-- The states that a stream goes through in any number of pulls are those between its rounds. -/
theorem exists_rounds_midway (moment : Moment) {pulls count : Nat}
    (hcount : count ≤ (moment.stream.after pulls).taken.length) :
    ∃ rounds, (Moment.next^[rounds] moment).stream = (moment.stream.after pulls).midway count := by
  obtain ⟨rounds, hrounds⟩ := exists_rounds_of_pulls moment pulls
  refine ⟨count + rounds, ?_⟩
  rw [Function.iterate_add_apply, ← hrounds]
  exact stream_midway _ (hrounds ▸ hcount)

@[simp]
theorem eventsIn_append (items more : List StreamItem) :
    eventsIn (items ++ more) = eventsIn items ++ eventsIn more :=
  List.filterMap_append

theorem phaseAfter_append (phase : Phase) (parts more : List Part) :
    phaseAfter phase (parts ++ more) = phaseAfter (phaseAfter phase parts) more :=
  List.foldl_append

/-- A stream has started exactly when an event was made. -/
theorem phaseAfter_eq_notStarted_iff (phase : Phase) (parts : List Part) :
    phaseAfter phase parts = .notStarted ↔
      phase = .notStarted ∧ eventsIn (eventsFrom phase parts) = [] := by
  induction parts generalizing phase with
  | nil => simp [phaseAfter, eventsIn]
  | cons part rest ih =>
      change phaseAfter (phase.behind part) rest = .notStarted ↔ _
      rw [ih]
      cases part with
      | error failure => rfl
      | ok said => simp [Phase.behind, eventsFrom, Part.event, eventsIn, Except.toOption]

/-- What an item of the source queues are events, and at most one failure behind them. -/
theorem eventsFrom_itemParts (phase : Phase) (item : SourceItem) :
    ∃ (events : List EventChunk) (failure : Option Failure),
      eventsFrom phase (itemParts item) = events.map .ok ++ failure.toList.map .error := by
  rcases itemParts_cases item with
    ⟨sayings, -, hparts, -⟩ | ⟨sayings, failure, -, hparts, -, -⟩
  · obtain ⟨events, hevents, -⟩ := eventsFrom_map_ok phase sayings
    exact ⟨events, none, by simp [hparts, hevents]⟩
  · obtain ⟨events, hevents, -⟩ := eventsFrom_map_ok phase sayings
    refine ⟨events, some failure, ?_⟩
    rw [hparts, eventsFrom_append, hevents]
    rfl

theorem Moment.next_of_round {moment : Moment} {deed : Deed} {stream : EventStream}
    (hround : moment.stream.round = (deed, stream)) :
    moment.next = ⟨stream, moment.queued ++ deed.queued, moment.handed ++ deed.handed⟩ := by
  rw [Moment.next, hround]

theorem Moment.next_of_over {moment : Moment} (hover : moment.stream.state.Over) :
    moment.next = moment := by
  rw [Moment.next_of_round (round_of_over hover)]
  simp [Deed.queued, Deed.handed]

/-- The account of a queue at some moment of the stream of a source. -/
structure Moment.Accounted (source : List SourceItem) (moment : Moment) : Prop where
  /-- What was queued is what the items taken by then say. -/
  said : ∃ taken, source = taken ++ moment.stream.source ∧
    moment.queued = eventsFrom .notStarted (taken.flatMap itemParts) ∧
    moment.stream.state.phase = phaseAfter .notStarted (taken.flatMap itemParts)
  /-- What was queued was handed out in the same order or still waits. -/
  kept : moment.queued = moment.handed ++ moment.stream.state.pending
  counted : moment.stream.state.emitted = (eventsIn moment.handed).length
  short : moment.stream.state.pending.length ≤ 2
  /-- Events wait before failures, of which there is at most one. -/
  ordered : ∃ (events : List EventChunk) (failure : Option Failure),
    moment.stream.state.pending = events.map .ok ++ failure.toList.map .error
  closed : moment.stream.state.finished = true → moment.stream.state.pending = []

namespace Moment.Accounted

variable {source : List SourceItem} {moment : Moment}

theorem start (source : List SourceItem) : Accounted source { stream := .ofSource source } where
  said := ⟨[], rfl, rfl, rfl⟩
  kept := rfl
  counted := rfl
  short := Nat.zero_le 2
  ordered := ⟨[], none, rfl⟩
  closed := fun _ => rfl

/-- A failure that waits first waits alone. -/
theorem alone (haccounted : moment.Accounted source) {failure : Failure} {rest : List StreamItem}
    (hpending : moment.stream.state.pending = .error failure :: rest) : rest = [] := by
  obtain ⟨events, last, hordered⟩ := haccounted.ordered
  rw [hpending] at hordered
  cases events with
  | cons event others => cases hordered
  | nil =>
      cases last with
      | none => cases hordered
      | some last => exact (List.cons.inj hordered).2

theorem started (haccounted : moment.Accounted source) :
    moment.stream.state.phase = .notStarted ↔ eventsIn moment.queued = [] := by
  obtain ⟨taken, -, hqueued, hphase⟩ := haccounted.said
  rw [hphase, hqueued, phaseAfter_eq_notStarted_iff]
  simp

/-- Taking an item keeps the queue accounted for. -/
theorem takes (haccounted : moment.Accounted source) (hidle : moment.stream.state.Idle)
    {item : SourceItem} {rest : List SourceItem} (hsource : moment.stream.source = item :: rest) :
    moment.next.Accounted source := by
  obtain ⟨⟨state, left⟩, queued, handed⟩ := moment
  subst hsource
  have hempty : state.pending = [] := hidle.1
  have hunfinished : state.finished = false := hidle.2
  have hpending : (state.takeItem item).pending = eventsFrom state.phase (itemParts item) := by
    rw [StreamState.takeItem_eq, hempty, List.nil_append]
  rw [Moment.next_of_round (round_of_idle hidle item rest)]
  constructor
  case said =>
    obtain ⟨taken, htaken, hqueued, hphase⟩ := haccounted.said
    dsimp only at htaken hqueued hphase
    refine ⟨taken ++ [item], ?_, ?_, ?_⟩
    · rw [htaken, List.append_cons]
    · simp only [Deed.queued, List.flatMap_append, List.flatMap_singleton]
      rw [hqueued, hpending, hphase, eventsFrom_append]
    · simp only [StreamState.takeItem_eq, List.flatMap_append, List.flatMap_singleton]
      rw [hphase, phaseAfter_append]
  case kept =>
    have hqueued : queued = handed := by simpa [hempty] using haccounted.kept
    simp [hqueued, Deed.queued, Deed.handed]
  case counted => simpa [StreamState.takeItem_eq, Deed.handed] using haccounted.counted
  case short => simpa [hpending] using itemParts_length_le item
  case ordered => simpa [hpending] using eventsFrom_itemParts state.phase item
  case closed => simp [StreamState.takeItem_eq, hunfinished]

theorem closes (haccounted : moment.Accounted source) (hidle : moment.stream.state.Idle)
    (hsource : moment.stream.source = []) : moment.next.Accounted source := by
  obtain ⟨⟨state, left⟩, queued, handed⟩ := moment
  subst hsource
  rw [Moment.next_of_round (round_of_exhausted hidle)]
  simp only [Deed.queued, Deed.handed, List.append_nil]
  exact { haccounted with closed := fun _ => hidle.1 }

/-- Handing out an event keeps the queue accounted for. -/
theorem handsOutEvent (haccounted : moment.Accounted source) {event : EventChunk}
    {rest : List StreamItem} (hpending : moment.stream.state.pending = .ok event :: rest) :
    moment.next.Accounted source := by
  rw [Moment.next_of_round (round_of_event hpending)]
  constructor
  case said => simpa [Deed.queued] using haccounted.said
  case kept => simp [haccounted.kept, hpending, Deed.queued, Deed.handed]
  case counted => simp [haccounted.counted, Deed.handed, eventsIn, Except.toOption]
  case short =>
    have hshort := haccounted.short
    rw [hpending, List.length_cons] at hshort
    exact Nat.le_of_succ_le hshort
  case ordered =>
    obtain ⟨events, failure, hordered⟩ := haccounted.ordered
    rw [hpending] at hordered
    cases events with
    | nil => cases failure <;> cases hordered
    | cons first others => exact ⟨others, failure, (List.cons.inj hordered).2⟩
  case closed =>
    intro hfinished
    simp [haccounted.closed hfinished] at hpending

/-- A failure drops the rest of the queue, of which there is none. -/
theorem handsOutFailure (haccounted : moment.Accounted source) {failure : Failure}
    {rest : List StreamItem} (hpending : moment.stream.state.pending = .error failure :: rest) :
    moment.next.Accounted source := by
  obtain rfl := haccounted.alone hpending
  rw [Moment.next_of_round (round_of_failure hpending)]
  constructor
  case said => simpa [Deed.queued] using haccounted.said
  case kept => simp [haccounted.kept, hpending, Deed.queued, Deed.handed]
  case counted => simp [haccounted.counted, Deed.handed, eventsIn, Except.toOption]
  case short => exact Nat.zero_le 2
  case ordered => exact ⟨[], none, rfl⟩
  case closed => exact fun _ => rfl

/-- Whatever a round does, it keeps the account. -/
theorem next (haccounted : moment.Accounted source) : moment.next.Accounted source := by
  rcases moment.stream.state.situation with
    hidle | hover | ⟨event, rest, hpending⟩ | ⟨failure, rest, hpending⟩
  · cases hsource : moment.stream.source with
    | nil => exact haccounted.closes hidle hsource
    | cons item rest => exact haccounted.takes hidle hsource
  · rwa [Moment.next_of_over hover]
  · exact haccounted.handsOutEvent hpending
  · exact haccounted.handsOutFailure hpending

end Moment.Accounted

theorem Moment.accounted_ofSource (source : List SourceItem) (rounds : Nat) :
    (Moment.ofSource source rounds).Accounted source := by
  induction rounds with
  | zero => exact .start source
  | succ rounds ih =>
      rw [Moment.ofSource, Function.iterate_succ_apply']
      exact ih.next

/-- Behind its end a stream stays as it is. -/
theorem Moment.ofSource_of_over {source : List SourceItem} {rounds later : Nat}
    (hover : (Moment.ofSource source rounds).stream.state.Over) (hle : rounds ≤ later) :
    Moment.ofSource source later = Moment.ofSource source rounds := by
  obtain ⟨more, rfl⟩ := Nat.exists_eq_add_of_le' hle
  rw [Moment.ofSource, Function.iterate_add_apply]
  exact Function.iterate_fixed (Moment.next_of_over hover) more

/-- The queue of a stream, in every state that any number of pulls goes through. The source is asked
only when nothing waits and the stream has not finished, and otherwise a pull leaves every source
alone. What was queued by then is what the items taken say, and it was handed out or still waits.
At most two items wait: events, and behind them at most one failure, so that nothing waits behind a
failure when it is handed out. The stream has started once an event was queued, the events handed
out and those that wait are as many as were queued, and the queue of a stream that has finished is
empty for good. -/
theorem queue_is_kept_in_order (source : List SourceItem) :
    (∀ pulls count, count ≤ ((EventStream.ofSource source).after pulls).taken.length →
      ∃ rounds, (Moment.ofSource source rounds).stream =
        ((EventStream.ofSource source).after pulls).midway count) ∧
    ∀ rounds,
      let moment := Moment.ofSource source rounds
      let state := moment.stream.state
      (moment.stream.round.1.asks = true → state.pending = [] ∧ state.finished = false) ∧
      (state.pending ≠ [] ∨ state.finished = true → ∀ other,
        pullFrom state other = ⟨state.handOut.1, ⟨state.handOut.2, other⟩, []⟩) ∧
      (∃ taken, source = taken ++ moment.stream.source ∧
        moment.queued = eventsFrom .notStarted (taken.flatMap itemParts)) ∧
      moment.queued = moment.handed ++ state.pending ∧
      state.pending.length ≤ 2 ∧
      (∃ (events : List EventChunk) (failure : Option Failure),
        state.pending = events.map .ok ++ failure.toList.map .error) ∧
      (∀ failure rest, state.pending = .error failure :: rest → rest = []) ∧
      (state.phase = .notStarted ↔ eventsIn moment.queued = []) ∧
      state.emitted + (eventsIn state.pending).length = (eventsIn moment.queued).length ∧
      (state.finished = true → ∀ later, rounds ≤ later →
        (Moment.ofSource source later).stream.state.pending = [] ∧
          (Moment.ofSource source later).stream.state.finished = true) := by
  refine ⟨fun _ _ => exists_rounds_midway { stream := .ofSource source }, fun rounds => ?_⟩
  intro moment state
  have haccounted : moment.Accounted source := Moment.accounted_ofSource source rounds
  obtain ⟨taken, htaken, hqueued, -⟩ := haccounted.said
  refine ⟨idle_of_asks, ?_, ⟨taken, htaken, hqueued⟩, haccounted.kept, haccounted.short,
    haccounted.ordered, fun failure rest => haccounted.alone, haccounted.started, ?_, ?_⟩
  · intro hbusy other
    refine pullFrom_of_not_idle ?_ other
    rintro ⟨hempty, hunfinished⟩
    rcases hbusy with hwaiting | hfinished
    · exact hwaiting hempty
    · rw [hunfinished] at hfinished
      cases hfinished
  · rw [haccounted.counted, haccounted.kept, eventsIn_append, List.length_append]
  · intro hfinished later hle
    rw [Moment.ofSource_of_over ⟨haccounted.closed hfinished, hfinished⟩ hle]
    exact ⟨haccounted.closed hfinished, hfinished⟩

/-- A chunk with a text and a call that does not parse, and another chunk. -/
def spoiltText : List SourceItem :=
  [.ok (.single { delta := { content := some "a", toolCalls := some [⟨0, none, none, none⟩] } }),
    crowded "b"]

/-- The text waits before the failure, both are handed out, and nothing waits behind them although
the source is not at its end. -/
theorem spoiltText_waits_in_order :
    let moment := Moment.ofSource spoiltText
    (moment 0).stream.round.1.asks = true ∧ (moment 0).stream.state.pending = [] ∧
      (∃ event failure, (moment 1).stream.state.pending = [.ok event, .error failure] ∧
        (moment 2).stream.state.pending = [.error failure] ∧
        (moment 2).stream.state.emitted = 1 ∧ eventsIn (moment 2).queued = [event]) ∧
      (moment 3).stream.state.finished = true ∧ (moment 3).stream.source = [crowded "b"] ∧
      ∀ later, 3 ≤ later → (moment later).stream.state.pending = [] := by
  intro moment
  have hkept := (queue_is_kept_in_order spoiltText).2
  have hasks : (moment 0).stream.round.1.asks = true := rfl
  have hfinished : (moment 3).stream.state.finished = true := rfl
  obtain ⟨-, -, -, -, -, -, -, -, -, hend⟩ := hkept 3
  refine ⟨hasks, ((hkept 0).1 hasks).1, ⟨_, _, rfl, rfl, rfl, rfl⟩, hfinished, rfl, ?_⟩
  exact fun later hle => (hend hfinished later hle).1

end StackBridge.Conversion
