/-
Streams that share a collector do not disturb each other. The run of a group is a trace of streams
that are pulled, each marked with its number. What is marked with one number is what this stream
goes through alone, and the shared log follows the trace as a whole.
-/
import StackBridge.Conversion.Interleaving
import StackBridge.Proofs.CollectorHandles
import StackBridge.Proofs.StreamStep

namespace StackBridge.Conversion

universe u v

/-- What a marked list holds of one number. -/
def restrict {α : Type u} (number : Nat) (marked : List (Nat × α)) : List α :=
  marked.filterMap fun (mark, value) => if mark = number then some value else none

/-- The streams that so many pulls go through, each as it is before it is pulled. -/
def EventStream.stages : Nat → EventStream → List EventStream
  | 0, _ => []
  | limit + 1, stream =>
      stream :: if stream.pull.item.isSome then stream.pull.stream.stages limit else []

/-- What a source still holds behind a list of pulls. -/
def leftBehind (source : List SourceItem) (pulls : List Pull) : List SourceItem :=
  (pulls.getLast?.map (·.stream.source)).getD source

/-- The pulls of one stream in the run of a group. -/
def pullsOf (number : Nat) (schedule : List Nat) (steps : List (GroupStep × StreamGroup)) :
    List Pull :=
  (schedule.zip steps).filterMap fun (pulled, step, _) =>
    match step with
    | .pulled pull => if pulled = number then some pull else none
    | .closed => none

namespace StreamGroup

def after (group : StreamGroup) (schedule : List Nat) : StreamGroup :=
  ((group.run schedule).getLast?.map (·.2)).getD group

/-- The stream that can be pulled under a number, if there is one. -/
def open? (group : StreamGroup) (number : Nat) : Option EventStream :=
  group.streams[number]?.join

/-- The streams that are pulled in a run, each as it is before it is pulled. -/
def trace (group : StreamGroup) : List Nat → List (Nat × EventStream)
  | [] => []
  | number :: schedule =>
      match group.open? number with
      | some stream => (number, stream) :: (group.pull number).2.trace schedule
      | none => group.trace schedule

/-- The items that a run takes from all sources, in the order in which they are taken. -/
def takings (group : StreamGroup) (schedule : List Nat) : List (Nat × SourceItem) :=
  (group.trace schedule).flatMap fun (number, stream) => stream.taken.map (number, ·)

/-- The notices that a run gives rise to, in the order in which their chunks are taken. -/
def notices (group : StreamGroup) (schedule : List Nat) : List (Nat × Advisory) :=
  (group.takings schedule).flatMap fun (number, item) => (itemAdvisories item).map (number, ·)

/-- What so many pulls of one stream of a group go through when nothing else is pulled. -/
def stagesAlone (group : StreamGroup) (number count : Nat) : List EventStream :=
  match group.open? number with
  | some stream => stream.stages count
  | none => []

end StreamGroup

section Restrict

variable {α : Type u} {β : Type v}

theorem restrict_cons (number : Nat) (entry : Nat × α) (rest : List (Nat × α)) :
    restrict number (entry :: rest) =
      (if entry.1 = number then [entry.2] else []) ++ restrict number rest := by
  by_cases hmark : entry.1 = number <;> simp [restrict, hmark]

theorem restrict_append (number : Nat) (marked more : List (Nat × α)) :
    restrict number (marked ++ more) = restrict number marked ++ restrict number more :=
  List.filterMap_append

theorem restrict_map_mark (number mark : Nat) (values : List α) :
    restrict number (values.map (mark, ·)) = if mark = number then values else [] := by
  induction values with
  | nil => simp [restrict]
  | cons value rest ih =>
      rw [List.map_cons, restrict_cons, ih]
      by_cases hmark : mark = number <;> simp [hmark]

/-- Replacing each value by a list of values under the same mark. -/
theorem restrict_flatMap (number : Nat) (marked : List (Nat × α)) (expand : α → List β) :
    restrict number (marked.flatMap fun (mark, value) => (expand value).map (mark, ·)) =
      (restrict number marked).flatMap expand := by
  induction marked with
  | nil => rfl
  | cons entry rest ih =>
      rw [List.flatMap_cons, restrict_append, restrict_map_mark, restrict_cons, ih,
        List.flatMap_append]
      by_cases hmark : entry.1 = number <;> simp [hmark]

end Restrict

theorem pulls_eq_map_stages (limit : Nat) (stream : EventStream) :
    stream.pulls limit = (stream.stages limit).map (·.pull) := by
  induction limit generalizing stream with
  | zero => rfl
  | succ limit ih =>
      rw [EventStream.pulls_succ, EventStream.stages, ih]
      split <;> rfl

theorem gainedBy_pulls (limit : Nat) (stream : EventStream) :
    gainedBy (stream.pulls limit) =
      ((stream.stages limit).flatMap (·.taken)).flatMap itemAdvisories := by
  rw [pulls_eq_map_stages, gainedBy, List.flatMap_map, List.flatMap_assoc]
  simp only [EventStream.pull_gained]

theorem leftBehind_cons (source : List SourceItem) (pull : Pull) (rest : List Pull) :
    leftBehind source (pull :: rest) = leftBehind pull.stream.source rest := by
  rw [leftBehind, leftBehind, List.getLast?_cons]
  cases rest.getLast? <;> rfl

/-- What has been taken and what is left behind make up the source. -/
theorem taken_append_leftBehind (limit : Nat) (stream : EventStream) :
    (stream.stages limit).flatMap (·.taken) ++ leftBehind stream.source (stream.pulls limit) =
      stream.source := by
  induction limit generalizing stream with
  | zero => rfl
  | succ limit ih =>
      rw [EventStream.pulls_succ, EventStream.stages, leftBehind_cons, List.flatMap_cons,
        List.append_assoc]
      split
      · rw [ih, stream.taken_append_source]
      · exact stream.taken_append_source

namespace StreamGroup

variable {group : StreamGroup} {number : Nat}

theorem open?_eq_some {stream : EventStream} :
    group.open? number = some stream ↔ group.streams[number]? = some (some stream) :=
  Option.join_eq_some_iff

theorem pull_of_open {stream : EventStream} (hopen : group.open? number = some stream) :
    group.pull number =
      (.pulled stream.pull,
        ⟨group.streams.set number
            (if stream.pull.item.isSome then some stream.pull.stream else none),
          group.log ++ stream.pull.gained⟩) := by
  simp [pull, open?_eq_some.mp hopen]

theorem pull_of_closed (hclosed : group.open? number = none) :
    group.pull number = (.closed, group) := by
  unfold pull
  split
  · rename_i stream hopen
    rw [open?_eq_some.mpr hopen] at hclosed
    cases hclosed
  · rfl

theorem trace_of_open {stream : EventStream} (hopen : group.open? number = some stream)
    (schedule : List Nat) :
    group.trace (number :: schedule) =
      (number, stream) :: (group.pull number).2.trace schedule := by
  simp [trace, hopen]

theorem trace_of_closed (hclosed : group.open? number = none) (schedule : List Nat) :
    group.trace (number :: schedule) = group.trace schedule := by
  simp [trace, hclosed]

theorem stagesAlone_of_open {stream : EventStream} (hopen : group.open? number = some stream)
    (count : Nat) : group.stagesAlone number count = stream.stages count := by
  simp [stagesAlone, hopen]

theorem stagesAlone_of_closed (hclosed : group.open? number = none) (count : Nat) :
    group.stagesAlone number count = [] := by
  simp [stagesAlone, hclosed]

/-- A stream that is pulled stays open as long as it hands something out. -/
theorem open?_pull_same {stream : EventStream} (hopen : group.open? number = some stream) :
    (group.pull number).2.open? number =
      if stream.pull.item.isSome then some stream.pull.stream else none := by
  have hlt : number < group.streams.length :=
    (List.getElem?_eq_some_iff.mp (open?_eq_some.mp hopen)).1
  rw [pull_of_open hopen, open?, List.getElem?_set_self hlt]
  rfl

/-- A stream is not touched when another one is pulled. -/
theorem open?_pull_other {pulled : Nat} (hne : pulled ≠ number) :
    (group.pull pulled).2.open? number = group.open? number := by
  cases hopen : group.open? pulled with
  | none => rw [pull_of_closed hopen]
  | some stream => rw [pull_of_open hopen, open?, open?, List.getElem?_set_ne hne]

theorem stagesAlone_pull_same {stream : EventStream} (hopen : group.open? number = some stream)
    (count : Nat) :
    stream :: (group.pull number).2.stagesAlone number count =
      group.stagesAlone number (count + 1) := by
  rw [stagesAlone_of_open hopen, EventStream.stages, stagesAlone, open?_pull_same hopen]
  cases stream.pull.item.isSome <;> rfl

theorem stagesAlone_pull_other {pulled : Nat} (hne : pulled ≠ number) (count : Nat) :
    (group.pull pulled).2.stagesAlone number count = group.stagesAlone number count := by
  rw [stagesAlone, stagesAlone, open?_pull_other hne]

/-- A stream goes through the same stages in a run of the group as alone. -/
theorem restrict_trace (group : StreamGroup) (schedule : List Nat) (number : Nat) :
    restrict number (group.trace schedule) = group.stagesAlone number (schedule.count number) := by
  induction schedule generalizing group with
  | nil =>
      rw [trace, List.count_nil, stagesAlone]
      cases group.open? number <;> rfl
  | cons pulled schedule ih =>
      cases hopen : group.open? pulled with
      | none =>
          rw [trace_of_closed hopen, ih]
          by_cases hpulled : pulled = number
          · -- the count goes up, but a closed stream has no stages
            subst hpulled
            rw [stagesAlone_of_closed hopen, stagesAlone_of_closed hopen]
          · rw [List.count_cons_of_ne hpulled]
      | some stream =>
          rw [trace_of_open hopen, restrict_cons, ih]
          by_cases hpulled : pulled = number
          · subst hpulled
            rw [if_pos rfl, List.count_cons_self]
            exact stagesAlone_pull_same hopen _
          · rw [if_neg hpulled, List.count_cons_of_ne hpulled]
            exact stagesAlone_pull_other hpulled _

theorem run_cons (group : StreamGroup) (pulled : Nat) (schedule : List Nat) :
    group.run (pulled :: schedule) =
      group.pull pulled :: (group.pull pulled).2.run schedule := rfl

theorem after_cons (group : StreamGroup) (pulled : Nat) (schedule : List Nat) :
    group.after (pulled :: schedule) = (group.pull pulled).2.after schedule := by
  rw [after, after, run_cons, List.getLast?_cons]
  cases ((group.pull pulled).2.run schedule).getLast? <;> rfl

theorem pullsOf_cons (number pulled : Nat) (schedule : List Nat)
    (step : GroupStep × StreamGroup) (steps : List (GroupStep × StreamGroup)) :
    pullsOf number (pulled :: schedule) (step :: steps) =
      (match step.1 with
        | .pulled pull => if pulled = number then [pull] else []
        | .closed => []) ++ pullsOf number schedule steps := by
  obtain ⟨_ | pull, next⟩ := step
  · by_cases hpulled : pulled = number <;> simp [pullsOf, hpulled]
  · simp [pullsOf]

/-- The pulls of one stream in a run are those of its trace. -/
theorem pullsOf_run (group : StreamGroup) (schedule : List Nat) (number : Nat) :
    pullsOf number schedule (group.run schedule) =
      (restrict number (group.trace schedule)).map (·.pull) := by
  induction schedule generalizing group with
  | nil => rfl
  | cons pulled schedule ih =>
      rw [run_cons, pullsOf_cons, ih]
      cases hopen : group.open? pulled with
      | none =>
          rw [trace_of_closed hopen, pull_of_closed hopen]
          rfl
      | some stream =>
          rw [trace_of_open hopen, restrict_cons, pull_of_open hopen, List.map_append]
          by_cases hpulled : pulled = number <;> simp [hpulled]

theorem notices_map_snd (group : StreamGroup) (schedule : List Nat) :
    (group.notices schedule).map (·.2) =
      (group.trace schedule).flatMap fun entry => entry.2.pull.gained := by
  simp only [notices, takings, List.map_flatMap, List.flatMap_assoc, List.flatMap_map,
    List.map_map, Function.comp_def, List.map_id', EventStream.pull_gained]

/-- The shared log grows by what each pull gives rise to, in the order of the pulls. -/
theorem after_log (group : StreamGroup) (schedule : List Nat) :
    (group.after schedule).log = group.log ++ (group.notices schedule).map (·.2) := by
  rw [notices_map_snd]
  induction schedule generalizing group with
  | nil => simp [after, run, trace]
  | cons pulled schedule ih =>
      rw [after_cons, ih]
      cases hopen : group.open? pulled with
      | none => rw [trace_of_closed hopen, pull_of_closed hopen]
      | some stream =>
          rw [trace_of_open hopen, pull_of_open hopen, List.flatMap_cons, List.append_assoc]

theorem trace_mark_lt (group : StreamGroup) (schedule : List Nat) :
    ∀ entry ∈ group.trace schedule, entry.1 < group.streams.length := by
  induction schedule generalizing group with
  | nil => simp [trace]
  | cons pulled schedule ih =>
      cases hopen : group.open? pulled with
      | none =>
          rw [trace_of_closed hopen]
          exact ih group
      | some stream =>
          rw [trace_of_open hopen]
          intro entry hentry
          rcases List.mem_cons.mp hentry with rfl | hrest
          · exact (List.getElem?_eq_some_iff.mp (open?_eq_some.mp hopen)).1
          · have hlt := ih _ entry hrest
            rwa [pull_of_open hopen, List.length_set] at hlt

theorem notices_mark_lt (group : StreamGroup) (schedule : List Nat) :
    ∀ notice ∈ group.notices schedule, notice.1 < group.streams.length := by
  intro notice hnotice
  simp only [notices, takings, List.mem_flatMap, List.mem_map] at hnotice
  obtain ⟨-, ⟨entry, hentry, item, -, rfl⟩, advisory, -, rfl⟩ := hnotice
  exact group.trace_mark_lt schedule entry hentry

theorem restrict_takings (group : StreamGroup) (schedule : List Nat) (number : Nat) :
    restrict number (group.takings schedule) =
      (group.stagesAlone number (schedule.count number)).flatMap (·.taken) := by
  rw [← restrict_trace]
  exact restrict_flatMap number (group.trace schedule) EventStream.taken

theorem restrict_notices (group : StreamGroup) (schedule : List Nat) (number : Nat) :
    restrict number (group.notices schedule) =
      ((group.stagesAlone number (schedule.count number)).flatMap (·.taken)).flatMap
        itemAdvisories := by
  rw [← restrict_takings]
  exact restrict_flatMap number (group.takings schedule) itemAdvisories

/-- What one stream of a group hands out, takes and gives rise to is as if it were alone. -/
theorem stream_as_alone {stream : EventStream} (hopen : group.open? number = some stream)
    (schedule : List Nat) :
    let alone := stream.pulls (schedule.count number)
    pullsOf number schedule (group.run schedule) = alone ∧
      restrict number (group.takings schedule) ++ leftBehind stream.source alone =
        stream.source ∧
      restrict number (group.notices schedule) = gainedBy alone := by
  refine ⟨?_, ?_, ?_⟩
  · rw [pullsOf_run, restrict_trace, stagesAlone_of_open hopen, pulls_eq_map_stages]
  · rw [restrict_takings, stagesAlone_of_open hopen]
    exact taken_append_leftBehind _ _
  · rw [restrict_notices, stagesAlone_of_open hopen, gainedBy_pulls]

end StreamGroup

theorem open?_ofSources {sources : List (List SourceItem)} {number : Nat}
    {source : List SourceItem} (hsource : sources[number]? = some source) :
    (StreamGroup.ofSources sources).open? number = some (.ofSource source) := by
  simp [StreamGroup.open?, StreamGroup.ofSources, hsource]

/-- The collectors behind a step, whose stream records through some handle. -/
def recordStep (collectors : Collectors) (handle : Nat) : GroupStep → Collectors
  | .pulled pull => collectors.record handle pull.gained
  | .closed => collectors

/-- The collectors behind a run. Each stream records through a handle of its own, and these stand
in a row. -/
def recordRun (firstHandle : Nat) (collectors : Collectors) (group : StreamGroup) :
    List Nat → Collectors
  | [] => collectors
  | number :: schedule =>
      let step := group.pull number
      recordRun firstHandle (recordStep collectors (firstHandle + number) step.1) step.2 schedule

/-- The collectors behind a run whose streams record through clones of one handle. -/
def recordShared (collectors : Collectors) (handle : Nat) (group : StreamGroup)
    (schedule : List Nat) : Collectors :=
  recordRun collectors.handles.length (collectors.addClones handle group.streams.length) group
    schedule

/-- Streams whose handles stand for one buffer leave all their notices in it. -/
theorem snapshot_recordRun {collectors : Collectors} {group : StreamGroup}
    {firstHandle other buffer : Nat}
    (hhandles : ∀ number < group.streams.length,
      collectors.buffer? (firstHandle + number) = some buffer)
    (hother : collectors.buffer? other = some buffer) (schedule : List Nat) :
    (recordRun firstHandle collectors group schedule).snapshot other =
      collectors.snapshot other ++ (group.notices schedule).map (·.2) := by
  rw [StreamGroup.notices_map_snd]
  induction schedule generalizing collectors group with
  | nil => simp [recordRun, StreamGroup.trace]
  | cons pulled schedule ih =>
      rw [recordRun]
      cases hopen : group.open? pulled with
      | none =>
          rw [StreamGroup.pull_of_closed hopen, StreamGroup.trace_of_closed hopen]
          exact ih hhandles hother
      | some stream =>
          have hlt : pulled < group.streams.length :=
            (List.getElem?_eq_some_iff.mp (StreamGroup.open?_eq_some.mp hopen)).1
          have hlength : (group.pull pulled).2.streams.length = group.streams.length := by
            rw [StreamGroup.pull_of_open hopen, List.length_set]
          have hstep : recordStep collectors (firstHandle + pulled) (group.pull pulled).1 =
              collectors.record (firstHandle + pulled) stream.pull.gained := by
            rw [StreamGroup.pull_of_open hopen, recordStep]
          rw [StreamGroup.trace_of_open hopen, List.flatMap_cons, ← List.append_assoc,
            ← Collectors.snapshot_record (hhandles pulled hlt) hother, hstep]
          refine ih ?_ ?_
          · intro number hnumber
            rw [hlength] at hnumber
            exact (Collectors.buffer?_record _ _ _ _).trans (hhandles number hnumber)
          · exact (Collectors.buffer?_record _ _ _ _).trans hother

/-- What is recorded for all streams of a group is the log of its run. -/
theorem snapshot_recordShared {collectors : Collectors} {handle : Nat}
    (hhandle : handle < collectors.handles.length) (group : StreamGroup) (schedule : List Nat)
    {other : Nat} (hother : (collectors.addClones handle group.streams.length).buffer? other =
      collectors.buffer? handle) :
    (recordShared collectors handle group schedule).snapshot other =
      collectors.snapshot handle ++ (group.notices schedule).map (·.2) := by
  obtain ⟨-, hbuffers, -, hclones⟩ :=
    Collectors.addClones_spec hhandle group.streams.length
  have hbuffer := Collectors.buffer?_of_lt hhandle
  have hhandles : ∀ number < group.streams.length,
      (collectors.addClones handle group.streams.length).buffer?
        (collectors.handles.length + number) = some (collectors.handles[handle]).val :=
    fun number hnumber => (hclones number hnumber).trans hbuffer
  rw [recordShared, snapshot_recordRun hhandles (hother.trans hbuffer), Collectors.snapshot_eq,
    hother, hbuffers, ← Collectors.snapshot_eq]

/-- Streams that record through clones of one handle and are pulled in any order. Each goes through
the pulls that it goes through alone. The shared log keeps what it held and gains the notices of all
items in the order in which the items are taken; what belongs to one stream is what this stream
gives rise to alone. A stream that is pulled behind its end stays as it is, so the schedule may name
it more often than it has results. -/
theorem shared_streams_are_independent (sources : List (List SourceItem)) (schedule : List Nat)
    {collectors : Collectors} {handle : Nat} (hhandle : handle < collectors.handles.length) :
    let group : StreamGroup :=
      { StreamGroup.ofSources sources with log := collectors.snapshot handle }
    let ended := recordShared collectors handle group schedule
    (∀ number source, sources[number]? = some source →
      let alone := (EventStream.ofSource source).pulls (schedule.count number)
      pullsOf number schedule (group.run schedule) = alone ∧
      restrict number (group.takings schedule) ++ leftBehind source alone = source ∧
      restrict number (group.notices schedule) = gainedBy alone) ∧
    (∀ notice ∈ group.notices schedule, notice.1 < sources.length) ∧
    (group.after schedule).log =
      collectors.snapshot handle ++ (group.notices schedule).map (·.2) ∧
    ended.snapshot handle = (group.after schedule).log ∧
    ∀ number < sources.length,
      ended.snapshot (collectors.handles.length + number) = (group.after schedule).log := by
  intro group ended
  have hlength : group.streams.length = sources.length := by
    simp [group, StreamGroup.ofSources]
  have hlog : (group.after schedule).log =
      collectors.snapshot handle ++ (group.notices schedule).map (·.2) :=
    group.after_log schedule
  obtain ⟨-, -, hold, hclones⟩ := Collectors.addClones_spec hhandle group.streams.length
  refine ⟨?_, ?_, hlog, ?_, ?_⟩
  · intro number source hsource
    have hopen : group.open? number = some (.ofSource source) := open?_ofSources hsource
    exact StreamGroup.stream_as_alone hopen schedule
  · intro notice hnotice
    rw [← hlength]
    exact group.notices_mark_lt schedule notice hnotice
  · rw [hlog]
    exact snapshot_recordShared hhandle group schedule (hold handle hhandle)
  · intro number hnumber
    rw [hlog]
    exact snapshot_recordShared hhandle group schedule (hclones number (by omega))

def crowded (id : String) : SourceItem :=
  let call : Provider.PartialToolCall := ⟨0, some id, none, some ⟨some "f", some "\x7b\x7d"⟩⟩
  .ok (.single { delta := { toolCalls := some [call, call] } })

/-- The stream that is pulled first is the second one, and its notice comes first. -/
theorem crowded_streams_share :
    let collectors := Collectors.empty.addNew
    let sources := [[crowded "a"], [.ok {}, crowded "b"]]
    0 < collectors.handles.length ∧
      (recordShared collectors 0 (StreamGroup.ofSources sources) [1, 0, 1]).snapshot 2 =
        [.multipleToolCalls 2 "b", .multipleToolCalls 2 "a"] ∧
      pullsOf 1 [1, 0, 1] ((StreamGroup.ofSources sources).run [1, 0, 1]) =
        (EventStream.ofSource [.ok {}, crowded "b"]).pulls 2 := by
  intro collectors sources
  have hhandle : 0 < collectors.handles.length := by decide
  obtain ⟨halone, -, hlog, -, hclones⟩ :=
    shared_streams_are_independent sources [1, 0, 1] hhandle
  refine ⟨hhandle, ?_, (halone 1 _ rfl).1⟩
  exact (hclones 1 (by decide)).trans hlog

end StackBridge.Conversion
