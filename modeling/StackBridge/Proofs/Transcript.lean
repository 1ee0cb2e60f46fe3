/-
A stream hands out its transcript. At every moment the machine has an outlook: what waits, then
what its source still has to say, cut behind the first failure. A pull hands out the head of the
outlook and leaves its tail, whether or not it has to take something from the source for that.
-/
import StackBridge.Proofs.StreamStep

namespace StackBridge.Conversion

open Chat (EventChunk StopReason)

/-- All that a stream will hand out from now on. -/
def EventStream.outlook (stream : EventStream) : List StreamItem :=
  let state := stream.state
  if state.finished then closedBy [] state.pending
  else
    closedBy [.ok (completeEvent (stream.source.foldl latestReason state.stopReason))]
      (state.pending ++ eventsFrom state.phase (stream.source.flatMap itemParts))

theorem outlook_of_finished {stream : EventStream} (hfinished : stream.state.finished = true) :
    stream.outlook = closedBy [] stream.state.pending := by
  simp [EventStream.outlook, hfinished]

theorem outlook_of_unfinished {stream : EventStream} (hfinished : stream.state.finished = false) :
    stream.outlook =
      closedBy [.ok (completeEvent (stream.source.foldl latestReason stream.state.stopReason))]
        (stream.state.pending ++
          eventsFrom stream.state.phase (stream.source.flatMap itemParts)) := by
  simp [EventStream.outlook, hfinished]

theorem closedBy_length_le {closing : List StreamItem} (hclosing : closing.length ≤ 1)
    (items : List StreamItem) : (closedBy closing items).length ≤ items.length + 1 := by
  induction items with
  | nil => simpa [closedBy] using hclosing
  | cons item rest ih =>
      cases item with
      | error failure => simp [closedBy]
      | ok event => simpa [closedBy] using ih

theorem eventsFrom_emitting (parts : List Part) :
    eventsFrom .emitting parts = parts.map (Part.event .progress) := by
  induction parts with
  | nil => rfl
  | cons part rest ih =>
      have hbehind : Phase.emitting.behind part = .emitting := by cases part <;> rfl
      rw [eventsFrom, hbehind, ih]
      rfl

/-- A failure does not start a stream, but what stands behind it is cut off. -/
theorem closedBy_eventsFrom_notStarted (closing : List StreamItem) (parts : List Part) :
    closedBy closing (eventsFrom .notStarted parts) = closedBy closing (events parts) := by
  cases parts with
  | nil => rfl
  | cons part rest =>
      cases part with
      | error failure => rfl
      | ok said =>
          rw [eventsFrom, events]
          exact congrArg (closedBy closing ∘ List.cons _) (eventsFrom_emitting rest)

/-- The reason that is kept is the last one. -/
theorem foldl_latestReason (source : List SourceItem) (stopReason : Option StopReason) :
    source.foldl latestReason stopReason = (lastStopReason source).or stopReason := by
  induction source generalizing stopReason with
  | nil => rfl
  | cons item rest ih =>
      rw [List.foldl_cons, ih, lastStopReason, lastStopReason, latestReason]
      cases hreason : itemReason item with
      | none => simp [hreason]
      | some reason =>
          cases hlast : (rest.filterMap itemReason).getLast? with
          | none => simp [hreason, List.getLast?_cons, hlast]
          | some last => simp [hreason, List.getLast?_cons, hlast]

theorem outlook_ofSource (source : List SourceItem) :
    (EventStream.ofSource source).outlook =
      closedBy [.ok (completeEvent (lastStopReason source))]
        (eventsFrom .notStarted (source.flatMap itemParts)) := by
  rw [outlook_of_unfinished rfl, ← Option.or_none (o := lastStopReason source),
    ← foldl_latestReason]
  rfl

theorem outlook_ofSource_eq_transcript (source : List SourceItem) :
    (EventStream.ofSource source).outlook = transcript source := by
  rw [outlook_ofSource, closedBy_eventsFrom_notStarted, transcript]

theorem outlook_takeItem {state : StreamState} (hidle : state.Idle) (item : SourceItem)
    (rest : List SourceItem) :
    (EventStream.mk (state.takeItem item) rest).outlook =
      (EventStream.mk state (item :: rest)).outlook := by
  have htaken : (state.takeItem item).finished = false := by
    rw [StreamState.takeItem_eq]
    exact hidle.2
  rw [outlook_of_unfinished htaken, outlook_of_unfinished hidle.2]
  simp only [StreamState.takeItem_eq, hidle.1, List.nil_append, List.flatMap_cons,
    List.foldl_cons, eventsFrom_append]

/-- Taking what a pull needs does not change what will be handed out. -/
theorem outlook_settled (state : StreamState) (source : List SourceItem) :
    (EventStream.mk (state.settled source) (source.drop (state.needs source).length)).outlook =
      (EventStream.mk state source).outlook := by
  induction source generalizing state with
  | nil => rfl
  | cons item rest ih =>
      by_cases hidle : state.Idle
      · rw [StreamState.settled_of_idle hidle, StreamState.needs_of_idle hidle,
          ← outlook_takeItem hidle]
        exact ih (state.takeItem item)
      · rw [StreamState.settled_of_not_idle hidle, StreamState.needs_of_not_idle hidle]
        rfl

/-- An idle state hands out the closing event, which is right only if the source is at its end.
Behind a failure what the source still holds is cut off. -/
theorem handOut_outlook (state : StreamState) (source : List SourceItem)
    (hsource : state.Idle → source = []) :
    state.handOut.1 = (EventStream.mk state source).outlook.head? ∧
      (EventStream.mk state.handOut.2 source).outlook =
        (EventStream.mk state source).outlook.tail := by
  cases hpending : state.pending with
  | cons waiting rest =>
      cases waiting with
      | ok event =>
          rw [StreamState.handOut_of_ok hpending]
          cases hfinished : state.finished <;>
            simp [EventStream.outlook, hpending, hfinished, closedBy]
      | error failure =>
          rw [StreamState.handOut_of_error hpending]
          cases hfinished : state.finished <;>
            simp [EventStream.outlook, hpending, hfinished, closedBy]
  | nil =>
      cases hfinished : state.finished with
      | true =>
          rw [StreamState.handOut_of_finished hpending hfinished]
          simp [EventStream.outlook, hpending, hfinished, closedBy]
      | false =>
          have hidle : state.Idle := ⟨hpending, hfinished⟩
          rw [StreamState.handOut_of_idle hidle, hsource hidle]
          simp [EventStream.outlook, hpending, hfinished, closedBy, completeEvent,
            StreamState.completion]

/-- A pull hands out the head of the outlook and leaves the tail. -/
theorem pull_outlook (stream : EventStream) :
    stream.pull.item = stream.outlook.head? ∧
      stream.pull.stream.outlook = stream.outlook.tail := by
  have hstep := handOut_outlook (stream.state.settled stream.source)
    (stream.source.drop (stream.state.needs stream.source).length) (fun hidle => by
      rw [StreamState.needs_eq_of_settled_idle hidle, List.drop_length])
  rw [outlook_settled] at hstep
  rw [EventStream.pull, pullFrom_eq]
  exact hstep

/-- Any number of pulls hands out so much of the outlook, and then the end. -/
theorem map_item_pulls (limit : Nat) (stream : EventStream) :
    (stream.pulls limit).map (·.item) = (stream.outlook.map some ++ [none]).take limit := by
  induction limit generalizing stream with
  | zero => rfl
  | succ limit ih =>
      obtain ⟨hitem, htail⟩ := pull_outlook stream
      rw [EventStream.pulls]
      cases houtlook : stream.outlook with
      | nil =>
          rw [houtlook] at hitem
          simp [hitem]
      | cons item rest =>
          rw [houtlook] at hitem htail
          simp only [hitem, List.head?_cons, List.map_cons, ih, htail]
          rfl

theorem itemParts_length_le (item : SourceItem) : (itemParts item).length ≤ 2 := by
  cases item with
  | error failure => simp [itemParts]
  | ok chunk =>
      cases hchoices : chunk.choices with
      | nil => simp [itemParts, hchoices]
      | cons choice others =>
          simp only [itemParts, hchoices, choiceParts]
          split
          · simp
          · simp
          · cases choice.delta.content.filter (· ≠ "") <;> simp

theorem flatMap_itemParts_length_le (source : List SourceItem) :
    (source.flatMap itemParts).length ≤ 2 * source.length := by
  induction source with
  | nil => simp
  | cons item rest ih =>
      have hitem := itemParts_length_le item
      simp only [List.flatMap_cons, List.length_append, List.length_cons]
      omega

/-- A run has pulls enough to come to its end. -/
theorem outlook_length_lt (stream : EventStream) :
    stream.outlook.length < stream.pullLimit := by
  have hparts := flatMap_itemParts_length_le stream.source
  have hclosed : stream.outlook.length ≤
      stream.state.pending.length + (stream.source.flatMap itemParts).length + 1 := by
    cases hfinished : stream.state.finished with
    | true =>
        rw [outlook_of_finished hfinished]
        refine Nat.le_trans (closedBy_length_le (by simp) _) ?_
        omega
    | false =>
        rw [outlook_of_unfinished hfinished]
        refine Nat.le_trans (closedBy_length_le (by simp) _) ?_
        simp
  rw [EventStream.pullLimit]
  omega

theorem map_item_run (stream : EventStream) :
    stream.run.map (·.item) = stream.outlook.map some ++ [none] := by
  rw [EventStream.run, map_item_pulls]
  apply List.take_of_length_le
  have hlength := outlook_length_lt stream
  simp only [List.length_append, List.length_map, List.length_singleton]
  omega

/-- Pulled until it ends, a stream hands out the transcript of its source and then the end; pulled
less often, it hands out so much of that. -/
theorem run_hands_out_transcript (source : List SourceItem) :
    (EventStream.ofSource source).run.map (·.item) = (transcript source).map some ++ [none] ∧
      ∀ limit, ((EventStream.ofSource source).pulls limit).map (·.item) =
        ((transcript source).map some ++ [none]).take limit := by
  rw [← outlook_ofSource_eq_transcript]
  exact ⟨map_item_run _, fun limit => map_item_pulls limit _⟩

end StackBridge.Conversion
