/-
One step of a stream, in terms of parts. Taking an item of the source lets its parts wait, and a
pull takes items until something waits and hands out the first that does.
-/
import StackBridge.Proofs.Parts

namespace StackBridge.Conversion

open Chat (EventDelta EventType StopReason TokenLogProbs)

/-- The phase behind a part. A failure is no event and leaves the phase as it is. -/
def Phase.behind (phase : Phase) : Part → Phase
  | .ok _ => .emitting
  | .error _ => phase

/-- The phase behind a list of parts. -/
def phaseAfter (phase : Phase) (parts : List Part) : Phase :=
  parts.foldl Phase.behind phase

/-- Parts as events of a stream that has come to some phase. -/
def eventsFrom : Phase → List Part → List StreamItem
  | _, [] => []
  | phase, part :: rest => part.event phase.advance.1 :: eventsFrom (phase.behind part) rest

/-- The stop reason that is kept behind an item: its own, or else the one from before. -/
def latestReason (stopReason : Option StopReason) (item : SourceItem) : Option StopReason :=
  match itemReason item with
  | some reason => some (convertFinishReason (some reason))
  | none => stopReason

namespace StreamState

def await (state : StreamState) : Part → StreamState
  | .ok (delta, logprobs) => state.emit delta logprobs
  | .error failure => state.fail failure

def takeItem (state : StreamState) : SourceItem → StreamState
  | .ok chunk => state.takeChunk chunk
  | .error failure => state.fail failure

end StreamState

@[simp]
theorem eventsFrom_nil (phase : Phase) : eventsFrom phase [] = [] := rfl

/-- Events go on in the phase in which those before them ended. -/
theorem eventsFrom_append (phase : Phase) (parts more : List Part) :
    eventsFrom phase (parts ++ more) =
      eventsFrom phase parts ++ eventsFrom (phaseAfter phase parts) more := by
  induction parts generalizing phase with
  | nil => rfl
  | cons part rest ih =>
      simp only [List.cons_append, eventsFrom, ih]
      rfl

@[simp]
theorem eventsFrom_length (phase : Phase) (parts : List Part) :
    (eventsFrom phase parts).length = parts.length := by
  induction parts generalizing phase with
  | nil => rfl
  | cons part rest ih => simp [eventsFrom, ih]

namespace StreamState

theorem await_eq (state : StreamState) (part : Part) :
    state.await part =
      { state with
        phase := state.phase.behind part
        pending := state.pending ++ [part.event state.phase.advance.1] } := by
  cases part with
  | error failure => rfl
  | ok said => cases hphase : state.phase <;> simp [await, emit, hphase, Phase.advance,
      Phase.behind, Part.event]

/-- Parts that are let wait one after the other stand behind what waits already. -/
theorem foldl_await (state : StreamState) (parts : List Part) :
    parts.foldl await state =
      { state with
        phase := phaseAfter state.phase parts
        pending := state.pending ++ eventsFrom state.phase parts } := by
  induction parts generalizing state with
  | nil => simp [phaseAfter]
  | cons part rest ih =>
      rw [List.foldl_cons, ih, await_eq]
      simp [eventsFrom, phaseAfter]

theorem takeCalls_eq (state : StreamState) (first : Provider.PartialToolCall)
    (rest : List Provider.PartialToolCall) (logprobs : Option (List TokenLogProbs)) :
    state.takeCalls (first :: rest) logprobs = state.await (callPart first rest logprobs) := by
  rcases convertToolCalls_callPart first rest logprobs with
    ⟨failure, hconvert, hpart⟩ | ⟨call, others, hconvert, hpart⟩
  · rw [takeCalls, hconvert, hpart]
    rfl
  · rw [takeCalls, hconvert, hpart]
    rfl

theorem takeChoice_eq (state : StreamState) (choice : Provider.ChunkChoice) :
    state.takeChoice choice =
      (choiceParts choice).foldl await (state.noteReason choice.finishReason) := by
  unfold takeChoice choiceParts
  cases hcalls : choice.delta.toolCalls with
  | none => rfl
  | some calls =>
      cases calls with
      | nil => rfl
      | cons first rest =>
          simp only [Option.getD_some, takeCalls_eq]
          cases choice.delta.content.filter (· ≠ "") <;> rfl

theorem noteReason_eq (state : StreamState) (reason : Option String) :
    state.noteReason reason =
      { state with
        stopReason :=
          match reason.filter (· ≠ "") with
          | some reason => some (convertFinishReason (some reason))
          | none => state.stopReason } := by
  unfold noteReason
  cases reason.filter (· ≠ "") <;> rfl

/-- All that taking an item changes: its parts wait, and its finish reason is kept. -/
theorem takeItem_eq (state : StreamState) (item : SourceItem) :
    state.takeItem item =
      { state with
        phase := phaseAfter state.phase (itemParts item)
        stopReason := latestReason state.stopReason item
        pending := state.pending ++ eventsFrom state.phase (itemParts item) } := by
  cases item with
  | error failure => rfl
  | ok chunk =>
      cases hchoices : chunk.choices with
      | nil =>
          simp [takeItem, takeChunk, itemParts, latestReason, itemReason, phaseAfter, hchoices]
      | cons choice others =>
          simp only [takeItem, takeChunk, hchoices, takeChoice_eq, foldl_await, noteReason_eq,
            itemParts, latestReason, itemReason, List.head?_cons, Option.bind_some]

end StreamState

namespace StreamState

/-- Whether a pull has to take an item before it can hand something out. -/
def Idle (state : StreamState) : Prop :=
  state.pending = [] ∧ state.finished = false

instance (state : StreamState) : Decidable state.Idle :=
  inferInstanceAs (Decidable (_ ∧ _))

/-- The items that a pull takes from a source. -/
def needs (state : StreamState) : List SourceItem → List SourceItem
  | [] => []
  | item :: rest => if state.Idle then item :: (state.takeItem item).needs rest else []

/-- The state in which a pull hands something out. -/
def settled (state : StreamState) (source : List SourceItem) : StreamState :=
  (state.needs source).foldl takeItem state

/-- What a state hands out without taking anything more, and the state behind that. -/
def handOut (state : StreamState) : Option StreamItem × StreamState :=
  match state.pending with
  | .ok event :: rest =>
      (some (.ok event), { state with pending := rest, emitted := state.emitted + 1 })
  | .error failure :: _ => (some (.error failure), { state with pending := [], finished := true })
  | [] =>
      if state.finished then (none, state)
      else (some (.ok state.completion), { state with finished := true })

theorem handOut_of_ok {state : StreamState} {event : Chat.EventChunk} {rest : List StreamItem}
    (hpending : state.pending = .ok event :: rest) :
    state.handOut =
      (some (.ok event), { state with pending := rest, emitted := state.emitted + 1 }) := by
  simp [handOut, hpending]

theorem handOut_of_error {state : StreamState} {failure : Failure} {rest : List StreamItem}
    (hpending : state.pending = .error failure :: rest) :
    state.handOut =
      (some (.error failure), { state with pending := [], finished := true }) := by
  simp [handOut, hpending]

theorem handOut_of_finished {state : StreamState} (hpending : state.pending = [])
    (hfinished : state.finished = true) : state.handOut = (none, state) := by
  simp [handOut, hpending, hfinished]

theorem handOut_of_idle {state : StreamState} (hidle : state.Idle) :
    state.handOut = (some (.ok state.completion), { state with finished := true }) := by
  simp [handOut, hidle.1, hidle.2]

theorem needs_of_not_idle {state : StreamState} (hidle : ¬ state.Idle)
    (source : List SourceItem) : state.needs source = [] := by
  cases source with
  | nil => rfl
  | cons item rest => simp [needs, hidle]

theorem needs_of_idle {state : StreamState} (hidle : state.Idle) (item : SourceItem)
    (rest : List SourceItem) :
    state.needs (item :: rest) = item :: (state.takeItem item).needs rest := by
  simp [needs, hidle]

theorem settled_of_not_idle {state : StreamState} (hidle : ¬ state.Idle)
    (source : List SourceItem) : state.settled source = state := by
  rw [settled, needs_of_not_idle hidle]
  rfl

theorem settled_of_idle {state : StreamState} (hidle : state.Idle) (item : SourceItem)
    (rest : List SourceItem) :
    state.settled (item :: rest) = (state.takeItem item).settled rest := by
  rw [settled, needs_of_idle hidle]
  rfl

/-- What is taken stands at the front of the source. -/
theorem needs_append_drop (state : StreamState) (source : List SourceItem) :
    state.needs source ++ source.drop (state.needs source).length = source := by
  induction source generalizing state with
  | nil => rfl
  | cons item rest ih =>
      by_cases hidle : state.Idle
      · rw [needs_of_idle hidle]
        exact congrArg (item :: ·) (ih (state.takeItem item))
      · rw [needs_of_not_idle hidle]
        rfl

/-- A pull stops taking only when it has something to hand out or the source is at its end. -/
theorem needs_eq_of_settled_idle {state : StreamState} {source : List SourceItem}
    (hidle : (state.settled source).Idle) : state.needs source = source := by
  induction source generalizing state with
  | nil => rfl
  | cons item rest ih =>
      by_cases hstart : state.Idle
      · rw [settled_of_idle hstart] at hidle
        rw [needs_of_idle hstart, ih hidle]
      · rw [settled_of_not_idle hstart] at hidle
        exact absurd hidle hstart

end StreamState

theorem pullFrom_of_idle {state : StreamState} (hidle : state.Idle) (item : SourceItem)
    (rest : List SourceItem) :
    pullFrom state (item :: rest) =
      { pullFrom (state.takeItem item) rest with
        gained := itemAdvisories item ++ (pullFrom (state.takeItem item) rest).gained } := by
  cases item <;>
    simp [pullFrom, hidle.1, hidle.2, StreamState.takeItem, itemAdvisories]

/-- While something waits a pull takes nothing. -/
theorem pullFrom_of_not_idle {state : StreamState} (hidle : ¬ state.Idle)
    (source : List SourceItem) :
    pullFrom state source = ⟨state.handOut.1, ⟨state.handOut.2, source⟩, []⟩ := by
  unfold pullFrom
  cases hpending : state.pending with
  | nil =>
      have hfinished : state.finished = true := by
        simpa [StreamState.Idle, hpending] using hidle
      rw [StreamState.handOut_of_finished hpending hfinished]
      simp [hfinished]
  | cons waiting rest =>
      cases waiting with
      | ok event =>
          rw [StreamState.handOut_of_ok hpending]
      | error failure =>
          rw [StreamState.handOut_of_error hpending]

theorem pullFrom_eq (state : StreamState) (source : List SourceItem) :
    pullFrom state source =
      { item := (state.settled source).handOut.1
        stream := ⟨(state.settled source).handOut.2, source.drop (state.needs source).length⟩
        gained := (state.needs source).flatMap itemAdvisories } := by
  induction source generalizing state with
  | nil =>
      by_cases hidle : state.Idle
      · rw [show state.settled [] = state from rfl, StreamState.handOut_of_idle hidle]
        simp [pullFrom, hidle.1, hidle.2, StreamState.needs]
      · rw [pullFrom_of_not_idle hidle]
        rfl
  | cons item rest ih =>
      by_cases hidle : state.Idle
      · rw [pullFrom_of_idle hidle, ih, StreamState.settled_of_idle hidle,
          StreamState.needs_of_idle hidle]
        rfl
      · rw [pullFrom_of_not_idle hidle, StreamState.settled_of_not_idle hidle,
          StreamState.needs_of_not_idle hidle]
        rfl

namespace EventStream

def taken (stream : EventStream) : List SourceItem :=
  stream.state.needs stream.source

theorem pull_item (stream : EventStream) :
    stream.pull.item = (stream.state.settled stream.source).handOut.1 := by
  rw [pull, pullFrom_eq]

theorem pull_state (stream : EventStream) :
    stream.pull.stream.state = (stream.state.settled stream.source).handOut.2 := by
  rw [pull, pullFrom_eq]

theorem pull_gained (stream : EventStream) :
    stream.pull.gained = stream.taken.flatMap itemAdvisories := by
  rw [pull, pullFrom_eq]
  rfl

theorem taken_append_source (stream : EventStream) :
    stream.taken ++ stream.pull.stream.source = stream.source := by
  rw [pull, pullFrom_eq]
  exact stream.state.needs_append_drop stream.source

/-- A pull is followed by others as long as it hands something out. -/
theorem pulls_succ (limit : Nat) (stream : EventStream) :
    stream.pulls (limit + 1) =
      stream.pull :: if stream.pull.item.isSome then stream.pull.stream.pulls limit else [] := by
  rw [pulls]
  cases stream.pull.item <;> simp

end EventStream

theorem pulls_length_le (limit : Nat) (stream : EventStream) :
    (stream.pulls limit).length ≤ limit := by
  induction limit generalizing stream with
  | zero => simp [EventStream.pulls]
  | succ limit ih =>
      rw [EventStream.pulls_succ]
      split
      · simpa using ih stream.pull.stream
      · simp

theorem take_pulls {count limit : Nat} (hle : count ≤ limit) (stream : EventStream) :
    (stream.pulls limit).take count = stream.pulls count := by
  induction count generalizing limit stream with
  | zero => rfl
  | succ count ih =>
      obtain ⟨limit, rfl⟩ := Nat.exists_eq_add_of_le' (Nat.lt_of_lt_of_le (Nat.succ_pos _) hle)
      rw [EventStream.pulls_succ, EventStream.pulls_succ, List.take_succ_cons]
      split
      · rw [ih (Nat.le_of_succ_le_succ hle)]
      · rw [List.take_nil]

/-- Every pull of a run is the pull of some stream. -/
theorem mem_pulls {limit : Nat} {stream : EventStream} {pull : Pull}
    (hpull : pull ∈ stream.pulls limit) : ∃ before : EventStream, pull = before.pull := by
  induction limit generalizing stream with
  | zero => simp [EventStream.pulls] at hpull
  | succ limit ih =>
      rw [EventStream.pulls_succ, List.mem_cons] at hpull
      rcases hpull with rfl | hrest
      · exact ⟨stream, rfl⟩
      · split at hrest
        · exact ih hrest
        · simp at hrest

/-- Whether a stream has handed out all that it ever will. -/
def StreamState.Over (state : StreamState) : Prop :=
  state.pending = [] ∧ state.finished = true

/-- The stream behind so many pulls, any behind its end included. -/
def EventStream.after : Nat → EventStream → EventStream
  | 0, stream => stream
  | count + 1, stream => stream.pull.stream.after count

theorem pull_of_over {stream : EventStream} (hover : stream.state.Over) :
    stream.pull = ⟨none, stream, []⟩ := by
  have hidle : ¬ stream.state.Idle := by simp [StreamState.Idle, hover.2]
  rw [EventStream.pull, pullFrom_of_not_idle hidle,
    StreamState.handOut_of_finished hover.1 hover.2]

/-- Behind its end a stream hands out nothing. -/
theorem item_of_over {stream : EventStream} (hover : stream.state.Over) {limit k : Nat}
    {pull : Pull} (hpull : (stream.pulls limit)[k]? = some pull) : pull.item = none := by
  obtain _ | limit := limit
  · simp [EventStream.pulls] at hpull
  · rw [EventStream.pulls_succ, pull_of_over hover] at hpull
    obtain _ | k := k
    · cases hpull
      rfl
    · simp at hpull

/-- Anything but an event that waited is handed out last. -/
theorem handOut_event_or_over (state : StreamState) :
    (∃ event rest, state.pending = .ok event :: rest) ∨ state.handOut.2.Over := by
  cases hpending : state.pending with
  | nil =>
      cases hfinished : state.finished with
      | true =>
          rw [StreamState.handOut_of_finished hpending hfinished]
          exact Or.inr ⟨hpending, hfinished⟩
      | false =>
          rw [StreamState.handOut_of_idle ⟨hpending, hfinished⟩]
          exact Or.inr ⟨hpending, rfl⟩
  | cons waiting rest =>
      cases waiting with
      | ok event => exact Or.inl ⟨event, rest, rfl⟩
      | error failure =>
          rw [StreamState.handOut_of_error hpending]
          exact Or.inr ⟨rfl, rfl⟩

theorem pull_over_of_failure {stream : EventStream} {failure : Failure}
    (hitem : stream.pull.item = some (.error failure)) : stream.pull.stream.state.Over := by
  rw [stream.pull_item] at hitem
  rw [stream.pull_state]
  rcases handOut_event_or_over (stream.state.settled stream.source) with
    ⟨event, rest, hpending⟩ | hover
  · rw [StreamState.handOut_of_ok hpending] at hitem
    cases hitem
  · exact hover

theorem after_of_over {stream : EventStream} (hover : stream.state.Over) (count : Nat) :
    stream.after count = stream := by
  induction count with
  | zero => rfl
  | succ count ih =>
      rw [EventStream.after, pull_of_over hover]
      exact ih

end StackBridge.Conversion
