/-
What a stream drops, it notices. A chunk with several tool calls keeps the first of them and gives
rise to one notice that counts them all. A run takes the items of its source up to the first one
that fails, so the notices of these items are what the collector of the stream gains.
-/
import Mathlib
import StackBridge.Proofs.Assembly
import StackBridge.Proofs.Causality
import StackBridge.Proofs.SharedCollector

namespace StackBridge.Conversion

open Chat (EventChunk EventDelta TokenLogProbs)
open Provider (PartialToolCall)

/-- The tool calls that an item of the source brings. A chunk brings those of its first choice. -/
def itemCalls : SourceItem → List PartialToolCall
  | .error _ => []
  | .ok chunk => (chunk.choices.head?.map choiceCalls).getD []

/-- The failure that an item of the source ends its stream with: its own, or that of the first of
its calls whose arguments are not a JSON object. -/
def itemFailure? : SourceItem → Option Failure
  | .error failure => some failure
  | .ok chunk => (itemCalls (.ok chunk)).findSome? argumentsFailure?

/-- The notice about the calls of one item: if there are several, only the first is kept. -/
def callNotices (calls : List PartialToolCall) : Log :=
  if 2 ≤ calls.length then
    [.multipleToolCalls calls.length ((calls.head?.bind (·.id)).getD "")]
  else []

/-- The call that is kept of an item that does not fail. -/
def keptCalls (item : SourceItem) : List Chat.ToolCall :=
  match convertToolCalls ((itemCalls item).map (·.record)) with
  | .ok calls => calls.take 1
  | .error _ => []

/-- A source up to the first item that fails, that item included. -/
def throughFailure : List SourceItem → List SourceItem
  | [] => []
  | item :: rest => item :: if (itemFailure? item).isSome then [] else throughFailure rest

/-- How many calls were dropped, as far as a notice says. -/
def Advisory.dropped : Advisory → Nat
  | .topKOutOfRange _ => 0
  | .multipleToolCalls count _ => count - 1

def handedOut (pulls : List Pull) : List EventChunk :=
  pulls.filterMap fun pull => pull.item.bind Except.toOption

/-- The collectors behind some pulls of a stream that records through a handle. -/
def recordPulls (collectors : Collectors) (handle : Nat) (pulls : List Pull) : Collectors :=
  pulls.foldl (fun collectors pull => collectors.record handle pull.gained) collectors

/-- Recording pulls appends their notices. -/
theorem snapshot_recordPulls {collectors : Collectors} {handle buffer : Nat}
    (hhandle : collectors.buffer? handle = some buffer) (pulls : List Pull) :
    (recordPulls collectors handle pulls).snapshot handle =
      collectors.snapshot handle ++ gainedBy pulls := by
  induction pulls generalizing collectors with
  | nil => simp [recordPulls, gainedBy]
  | cons pull rest ih =>
      have hnext : (collectors.record handle pull.gained).buffer? handle = some buffer := by
        rw [Collectors.buffer?_record, hhandle]
      rw [recordPulls, List.foldl_cons, ← recordPulls, ih hnext,
        Collectors.snapshot_record hhandle hhandle, List.append_assoc]
      rfl

/-- A chunk gives rise to a notice exactly when it brings several calls. -/
theorem itemAdvisories_eq (item : SourceItem) :
    itemAdvisories item = callNotices (itemCalls item) := by
  cases item with
  | error failure => rfl
  | ok chunk =>
      cases hchoices : chunk.choices with
      | nil => simp [itemAdvisories, chunkAdvisories, itemCalls, callNotices, hchoices]
      | cons choice others =>
          simp only [itemAdvisories, chunkAdvisories, itemCalls, choiceCalls, hchoices,
            List.head?_cons, Option.map_some, Option.getD_some]
          cases choice.delta.toolCalls.getD [] with
          | nil => rfl
          | cons first rest =>
              cases rest with
              | nil => rfl
              | cons second rest => simp [callNotices]

theorem itemCalls_of_choice {chunk : Provider.Chunk} {choice : Provider.ChunkChoice}
    {others : List Provider.ChunkChoice} (hchoices : chunk.choices = choice :: others) :
    itemCalls (.ok chunk) = choiceCalls choice := by
  simp [itemCalls, hchoices]

theorem itemFailure?_eq_some_iff (chunk : Provider.Chunk) (failure : Failure) :
    itemFailure? (.ok chunk) = some failure ↔
      convertToolCalls ((itemCalls (.ok chunk)).map (·.record)) = .error failure :=
  (convertToolCalls_eq_error_iff _ failure).symm

theorem itemFailure?_of_converted {chunk : Provider.Chunk} {calls : List Chat.ToolCall}
    (hcalls : convertToolCalls ((itemCalls (.ok chunk)).map (·.record)) = .ok calls) :
    itemFailure? (.ok chunk) = none := by
  rw [Option.eq_none_iff_forall_not_mem]
  intro failure hfailure
  rw [(itemFailure?_eq_some_iff chunk failure).1 hfailure] at hcalls
  cases hcalls

/-- What a choice says before its calls is text. -/
theorem choiceParts_of_calls {choice : Provider.ChunkChoice} {first : PartialToolCall}
    {rest : List PartialToolCall} (hcalls : choiceCalls choice = first :: rest) :
    ∃ sayings : List Saying,
      choiceParts choice =
        sayings.map .ok ++ [callPart first rest (convertLogprobs choice.logprobs)] ∧
      sayings.filterMap (eventCall? ·.1) = [] := by
  unfold choiceCalls at hcalls
  cases htool : choice.delta.toolCalls with
  | none =>
      rw [htool] at hcalls
      cases hcalls
  | some calls =>
      rw [htool, Option.getD_some] at hcalls
      subst hcalls
      refine ⟨(choice.delta.content.filter (· ≠ "")).toList.map fun text =>
        (.text text, convertLogprobs choice.logprobs), ?_, ?_⟩
      · simp [choiceParts, htool]
      · simp [eventCall?, List.filterMap_map]

/-- What an item says, in view of its calls. An item that fails does so with its last part, and no
call stands before that, since all calls are converted before the first is kept. Of an item that
does not fail, the call that is kept is said. -/
theorem itemParts_cases (item : SourceItem) :
    (∃ sayings : List Saying, itemFailure? item = none ∧ itemParts item = sayings.map .ok ∧
      sayings.filterMap (eventCall? ·.1) = keptCalls item) ∨
    ∃ (sayings : List Saying) (failure : Failure), itemFailure? item = some failure ∧
      itemParts item = sayings.map .ok ++ [.error failure] ∧
      sayings.filterMap (eventCall? ·.1) = [] ∧ keptCalls item = [] := by
  cases item with
  | error failure => exact Or.inr ⟨[], failure, rfl, rfl, rfl, rfl⟩
  | ok chunk =>
      cases hchoices : chunk.choices with
      | nil =>
          have hcalls : itemCalls (.ok chunk) = [] := by simp [itemCalls, hchoices]
          refine Or.inl ⟨[], itemFailure?_of_converted (?_ : _ = Except.ok []), ?_, ?_⟩
          · rw [hcalls]
            rfl
          · simp [itemParts, hchoices]
          · rw [keptCalls, hcalls]
            rfl
      | cons choice others =>
          have hitem := itemCalls_of_choice hchoices
          have hparts : itemParts (.ok chunk) = choiceParts choice := by
            simp [itemParts, hchoices]
          cases hcalls : choiceCalls choice with
          | nil =>
              rw [hcalls] at hitem
              refine Or.inl ⟨[(.text (choiceText choice), convertLogprobs choice.logprobs)],
                itemFailure?_of_converted (?_ : _ = Except.ok []), ?_, ?_⟩
              · rw [hitem]
                rfl
              · rw [hparts, choiceParts_of_no_calls hcalls]
                rfl
              · rw [keptCalls, hitem]
                rfl
          | cons first rest =>
              rw [hcalls] at hitem
              obtain ⟨sayings, hsayings, htexts⟩ := choiceParts_of_calls hcalls
              rcases convertToolCalls_callPart first rest (convertLogprobs choice.logprobs) with
                ⟨failure, hconvert, hpart⟩ | ⟨call, dropped, hconvert, hpart⟩
              · rw [← hitem] at hconvert
                refine Or.inr ⟨sayings, failure,
                  (itemFailure?_eq_some_iff chunk failure).2 hconvert, ?_, htexts, ?_⟩
                · rw [hparts, hsayings, hpart]
                · rw [keptCalls, hconvert]
              · rw [← hitem] at hconvert
                refine Or.inl ⟨sayings ++ [(.toolCall (Chat.ToolCallDelta.complete call),
                  convertLogprobs choice.logprobs)], itemFailure?_of_converted hconvert, ?_, ?_⟩
                · rw [hparts, hsayings, hpart, List.map_append]
                  rfl
                · rw [List.filterMap_append, htexts, keptCalls, hconvert]
                  rfl

def isFailure {α : Type} : Except Failure α → Bool
  | .error _ => true
  | .ok _ => false

/-- The items that a stream will still take from its source. -/
def EventStream.reach (stream : EventStream) : List SourceItem :=
  if stream.state.finished || stream.state.pending.any isFailure then []
  else throughFailure stream.source

theorem any_isFailure_eventsFrom (phase : Phase) (parts : List Part) :
    (eventsFrom phase parts).any isFailure = parts.any isFailure := by
  induction parts generalizing phase with
  | nil => rfl
  | cons part rest ih => cases part <;> simp [eventsFrom, Part.event, isFailure, ih]

theorem any_isFailure_map_ok {α : Type} (values : List α) :
    (values.map .ok).any isFailure = false := by
  simp [isFailure]

theorem any_isFailure_itemParts (item : SourceItem) :
    (itemParts item).any isFailure = (itemFailure? item).isSome := by
  rcases itemParts_cases item with
    ⟨sayings, hnone, hparts, -⟩ | ⟨sayings, failure, hsome, hparts, -⟩
  · rw [hnone, hparts, any_isFailure_map_ok]
    rfl
  · rw [hsome, hparts, List.any_append, any_isFailure_map_ok]
    rfl

theorem reach_takeItem {state : StreamState} (hidle : state.Idle) (item : SourceItem)
    (rest : List SourceItem) :
    (EventStream.mk state (item :: rest)).reach =
      item :: (EventStream.mk (state.takeItem item) rest).reach := by
  have hstart : (EventStream.mk state (item :: rest)).reach = throughFailure (item :: rest) := by
    simp [EventStream.reach, hidle.1, hidle.2]
  rw [hstart, throughFailure, EventStream.reach, StreamState.takeItem_eq]
  simp [hidle.1, hidle.2, any_isFailure_eventsFrom, any_isFailure_itemParts]

/-- What a stream will take is what it takes in its next pull and what it will take behind it. Only
an idle machine takes an item. -/
theorem reach_settled (state : StreamState) (source : List SourceItem) :
    (EventStream.mk state source).reach =
      state.needs source ++
        (EventStream.mk (state.settled source)
          (source.drop (state.needs source).length)).reach := by
  induction source generalizing state with
  | nil => rfl
  | cons item rest ih =>
      by_cases hidle : state.Idle
      · rw [reach_takeItem hidle, StreamState.needs_of_idle hidle,
          StreamState.settled_of_idle hidle, ih]
        rfl
      · rw [StreamState.needs_of_not_idle hidle, StreamState.settled_of_not_idle hidle]
        rfl

/-- Handing something out does not change which items are taken. -/
theorem reach_handOut (state : StreamState) (source : List SourceItem)
    (hsource : state.Idle → source = []) :
    (EventStream.mk state.handOut.2 source).reach = (EventStream.mk state source).reach := by
  cases hpending : state.pending with
  | cons waiting rest =>
      cases waiting with
      | ok event =>
          rw [StreamState.handOut_of_ok hpending]
          simp [EventStream.reach, hpending, isFailure]
      | error failure =>
          rw [StreamState.handOut_of_error hpending]
          simp [EventStream.reach, hpending, isFailure]
  | nil =>
      cases hfinished : state.finished with
      | true => rw [StreamState.handOut_of_finished hpending hfinished]
      | false =>
          have hidle : state.Idle := ⟨hpending, hfinished⟩
          rw [StreamState.handOut_of_idle hidle, hsource hidle]
          simp [EventStream.reach, throughFailure]

/-- What a pull takes stands at the front of what the stream will take. -/
theorem reach_pull (stream : EventStream) :
    stream.reach = stream.taken ++ stream.pull.stream.reach := by
  have hidle : (stream.state.settled stream.source).Idle →
      stream.source.drop (stream.state.needs stream.source).length = [] := by
    intro hidle
    rw [StreamState.needs_eq_of_settled_idle hidle, List.drop_length]
  rw [EventStream.pull, pullFrom_eq, reach_handOut _ _ hidle]
  exact reach_settled stream.state stream.source

theorem reach_of_over {stream : EventStream} (hover : stream.state.Over) : stream.reach = [] := by
  simp [EventStream.reach, hover.2]

theorem over_of_item_none {stream : EventStream} (hitem : stream.pull.item = none) :
    stream.pull.stream.state.Over := by
  rw [stream.pull_item] at hitem
  rw [stream.pull_state]
  rcases handOut_event_or_over (stream.state.settled stream.source) with
    ⟨event, rest, hpending⟩ | hover
  · rw [StreamState.handOut_of_ok hpending] at hitem
    cases hitem
  · exact hover

/-- Pulls that go as far as the end of a stream take all that it will take, since each takes the
head of what is to be handed out. -/
theorem taken_of_pulls {limit : Nat} {stream : EventStream}
    (hlimit : stream.outlook.length < limit) :
    (stream.stages limit).flatMap (·.taken) = stream.reach := by
  induction limit generalizing stream with
  | zero => exact absurd hlimit (Nat.not_lt_zero _)
  | succ limit ih =>
      obtain ⟨hitem, htail⟩ := pull_outlook stream
      rw [EventStream.stages, List.flatMap_cons, reach_pull stream]
      congr 1
      cases houtlook : stream.outlook with
      | nil =>
          rw [houtlook] at hitem
          rw [reach_of_over (over_of_item_none hitem), hitem]
          rfl
      | cons item rest =>
          rw [houtlook] at hitem htail
          rw [hitem]
          refine ih ?_
          rw [houtlook, List.length_cons] at hlimit
          rw [htail, List.tail_cons]
          omega

theorem gainedBy_run (source : List SourceItem) :
    gainedBy (EventStream.ofSource source).run =
      (throughFailure source).flatMap fun item => callNotices (itemCalls item) := by
  rw [EventStream.run, gainedBy_pulls, taken_of_pulls (outlook_length_lt _),
    funext itemAdvisories_eq]
  rfl

theorem eventsFrom_map_ok (phase : Phase) (sayings : List Saying) :
    ∃ events : List EventChunk, eventsFrom phase (sayings.map .ok) = events.map .ok ∧
      callsOf events = sayings.filterMap (eventCall? ·.1) := by
  induction sayings generalizing phase with
  | nil => exact ⟨[], rfl, rfl⟩
  | cons said rest ih =>
      obtain ⟨events, hevents, hcalls⟩ := ih (phase.behind (.ok said))
      refine ⟨⟨⟨phase.advance.1, said.1, said.2, none⟩⟩ :: events, ?_, ?_⟩
      · rw [List.map_cons, eventsFrom, hevents]
        rfl
      · rw [callsOf, List.filterMap_cons, ← callsOf, hcalls, List.filterMap_cons]

theorem callsOf_append (events more : List EventChunk) :
    callsOf (events ++ more) = callsOf events ++ callsOf more :=
  List.filterMap_append

/-- What a source hands out before its end brings the calls that are kept, and only a source in
which nothing fails comes to its end without a failure. The rest behind an item that fails is
neither taken nor handed out. -/
theorem closedBy_eventsFrom_cases (closing : List StreamItem) (phase : Phase)
    (source : List SourceItem) :
    ∃ events : List EventChunk, callsOf events = (throughFailure source).flatMap keptCalls ∧
      (closedBy closing (eventsFrom phase (source.flatMap itemParts)) =
          events.map .ok ++ closing ∧ (∀ item ∈ source, itemFailure? item = none) ∨
        ∃ failure, closedBy closing (eventsFrom phase (source.flatMap itemParts)) =
          events.map .ok ++ [.error failure]) := by
  induction source generalizing phase with
  | nil => exact ⟨[], rfl, Or.inl ⟨rfl, by simp⟩⟩
  | cons item rest ih =>
      rw [List.flatMap_cons, throughFailure]
      rcases itemParts_cases item with
        ⟨sayings, hnone, hparts, hkept⟩ | ⟨sayings, failure, hsome, hparts, hnocall, hkept⟩
      · obtain ⟨events, hevents, hcalls⟩ := eventsFrom_map_ok phase sayings
        obtain ⟨others, hothers, hend⟩ := ih (phaseAfter phase (sayings.map .ok))
        refine ⟨events ++ others, ?_, ?_⟩
        · simp [callsOf_append, hcalls, hkept, hothers, hnone]
        · rw [hparts, eventsFrom_append, hevents, closedBy_ok_append]
          rcases hend with ⟨hclosed, hrest⟩ | ⟨failure, hclosed⟩
          · refine Or.inl ⟨?_, List.forall_mem_cons.2 ⟨hnone, hrest⟩⟩
            rw [hclosed, List.map_append, List.append_assoc]
          · refine Or.inr ⟨failure, ?_⟩
            rw [hclosed, List.map_append, List.append_assoc]
      · obtain ⟨events, hevents, hcalls⟩ := eventsFrom_map_ok phase sayings
        refine ⟨events, ?_, Or.inr ⟨failure, ?_⟩⟩
        · simp [hcalls, hnocall, hkept, hsome]
        · rw [hparts, List.append_assoc, eventsFrom_append, hevents, closedBy_ok_append]
          rfl

/-- A run hands out the events of its outlook. -/
theorem handedOut_run (source : List SourceItem) :
    handedOut (EventStream.ofSource source).run =
      (EventStream.ofSource source).outlook.filterMap Except.toOption := by
  have hmap : ∀ pulls : List Pull, handedOut pulls =
      (pulls.map (·.item)).filterMap fun item => item.bind Except.toOption := by
    intro pulls
    rw [handedOut, List.filterMap_map]
    rfl
  rw [hmap, map_item_run, List.filterMap_append, List.filterMap_map]
  simp

theorem filterMap_toOption_map_ok (events : List EventChunk) :
    (events.map (.ok : EventChunk → StreamItem)).filterMap Except.toOption = events := by
  simp [List.filterMap_map, Function.comp_def, Except.toOption]

/-- The calls of a run are the calls that are kept of the items it takes. -/
theorem callsOf_run (source : List SourceItem) :
    callsOf (handedOut (EventStream.ofSource source).run) =
      (throughFailure source).flatMap keptCalls := by
  rw [handedOut_run, outlook_ofSource]
  obtain ⟨events, hcalls, hend⟩ := closedBy_eventsFrom_cases
    [.ok (completeEvent (lastStopReason source))] .notStarted source
  rw [← hcalls]
  rcases hend with ⟨hclosed, -⟩ | ⟨failure, hclosed⟩
  · rw [hclosed, List.filterMap_append, filterMap_toOption_map_ok]
    exact callsOf_completed events (lastStopReason source)
  · rw [hclosed, List.filterMap_append, filterMap_toOption_map_ok]
    exact congrArg callsOf (List.append_nil events)

theorem itemFailure?_of_run {source : List SourceItem}
    (hrun : ∀ pull ∈ (EventStream.ofSource source).run, ∀ failure,
      pull.item ≠ some (.error failure)) :
    ∀ item ∈ source, itemFailure? item = none := by
  obtain ⟨events, -, hend⟩ := closedBy_eventsFrom_cases
    [.ok (completeEvent (lastStopReason source))] .notStarted source
  rcases hend with ⟨-, hnone⟩ | ⟨failure, hclosed⟩
  · exact hnone
  · rw [← outlook_ofSource] at hclosed
    have hmem : some (.error failure) ∈ (EventStream.ofSource source).run.map (·.item) := by
      rw [map_item_run, hclosed]
      simp
    obtain ⟨pull, hpull, hitem⟩ := List.mem_map.1 hmem
    exact absurd hitem (hrun pull hpull failure)

theorem throughFailure_of_none {source : List SourceItem}
    (hnone : ∀ item ∈ source, itemFailure? item = none) : throughFailure source = source := by
  induction source with
  | nil => rfl
  | cons item rest ih =>
      rw [List.forall_mem_cons] at hnone
      rw [throughFailure, hnone.1, ih hnone.2]
      rfl

/-- No call is lost or added by the conversion. -/
theorem length_convertToolCalls {records : List Provider.ToolCallRecord}
    {calls : List Chat.ToolCall} (hcalls : convertToolCalls records = .ok calls) :
    calls.length = records.length := by
  induction records generalizing calls with
  | nil =>
      cases hcalls
      rfl
  | cons record rest ih =>
      rw [convertToolCalls_cons] at hcalls
      cases hfirst : convertToolCall record with
      | error failure => simp [hfirst] at hcalls
      | ok call =>
          cases hrest : convertToolCalls rest with
          | error failure => simp [hfirst, hrest] at hcalls
          | ok others =>
              simp only [hfirst, hrest, Except.ok.injEq] at hcalls
              rw [← hcalls, List.length_cons, List.length_cons, ih hrest]

theorem converted_of_itemFailure? {item : SourceItem} (hnone : itemFailure? item = none) :
    ∃ calls, convertToolCalls ((itemCalls item).map (·.record)) = .ok calls := by
  cases item with
  | error failure => cases hnone
  | ok chunk =>
      cases hcalls : convertToolCalls ((itemCalls (.ok chunk)).map (·.record)) with
      | ok calls => exact ⟨calls, rfl⟩
      | error failure =>
          rw [(itemFailure?_eq_some_iff chunk failure).2 hcalls] at hnone
          cases hnone

/-- Every call of an item is kept or counted as dropped. -/
theorem itemCalls_length {item : SourceItem} (hnone : itemFailure? item = none) :
    (itemCalls item).length =
      (keptCalls item).length + ((callNotices (itemCalls item)).map Advisory.dropped).sum := by
  obtain ⟨calls, hcalls⟩ := converted_of_itemFailure? hnone
  have hlength := length_convertToolCalls hcalls
  rw [List.length_map] at hlength
  rw [keptCalls, hcalls, List.length_take, hlength, callNotices]
  split
  · simp only [List.map_singleton, List.sum_singleton, Advisory.dropped]
    omega
  · simp only [List.map_nil, List.sum_nil]
    omega

/-- Every call of a source without failures is kept or counted as dropped. -/
theorem itemCalls_lengths {source : List SourceItem}
    (hnone : ∀ item ∈ source, itemFailure? item = none) :
    (source.map fun item => (itemCalls item).length).sum =
      (source.flatMap keptCalls).length +
        ((source.flatMap fun item => callNotices (itemCalls item)).map Advisory.dropped).sum := by
  induction source with
  | nil => rfl
  | cons item rest ih =>
      rw [List.forall_mem_cons] at hnone
      simp only [List.map_cons, List.sum_cons, List.flatMap_cons, List.length_append,
        List.map_append, List.sum_append, itemCalls_length hnone.1, ih hnone.2]
      omega

theorem callId_of_converted {call : Provider.ToolCallRecord} {converted : Chat.ToolCall}
    (hcall : convertToolCall call = .ok converted) : converted.callId = call.callId := by
  cases hparse : arguments.ofText call.rawArguments with
  | error fault =>
      rw [convertToolCall_of_error hparse] at hcall
      cases hcall
  | ok parsed =>
      rw [convertToolCall_of_ok hparse] at hcall
      cases hcall
      rfl

/-- The notice about an item that does not fail names the call that is kept. -/
theorem callNotices_keptCalls {item : SourceItem} (hnone : itemFailure? item = none)
    {notice : Advisory} (hnotice : notice ∈ callNotices (itemCalls item)) :
    ∃ call, keptCalls item = [call] ∧
      notice = .multipleToolCalls (itemCalls item).length call.callId := by
  obtain ⟨calls, hcalls⟩ := converted_of_itemFailure? hnone
  rw [keptCalls, hcalls]
  cases hitem : itemCalls item with
  | nil => simp [callNotices, hitem] at hnotice
  | cons first rest =>
      rw [hitem, List.map_cons, convertToolCalls_cons] at hcalls
      cases hfirst : convertToolCall first.record with
      | error failure => simp [hfirst] at hcalls
      | ok call =>
          cases hrest : convertToolCalls (rest.map (·.record)) with
          | error failure => simp [hfirst, hrest] at hcalls
          | ok others =>
              simp only [hfirst, hrest, Except.ok.injEq] at hcalls
              refine ⟨call, by rw [← hcalls]; rfl, ?_⟩
              rw [callId_of_converted hfirst]
              rw [hitem, callNotices] at hnotice
              split at hnotice
              · simpa [Provider.PartialToolCall.record] using hnotice
              · simp at hnotice

theorem attributed_stems {source : List SourceItem} {k place : Nat} {part : Part}
    (hpart : (attributed source)[k]? = some (part, place)) :
    ∃ item, source[place]? = some item ∧ part ∈ itemParts item := by
  have hmem := List.mem_of_getElem? hpart
  simp only [attributed, List.mem_flatMap, List.mem_map, Prod.mk.injEq, Prod.exists] at hmem
  obtain ⟨item, index, hitem, said, hsaid, rfl, rfl⟩ := hmem
  exact ⟨item, List.mem_zipIdx_iff_getElem?.1 hitem, hsaid⟩

/-- A call that is handed out is the one that is kept of the item it stems from. -/
theorem keptCalls_of_event {source : List SourceItem} {limit k place : Nat} {pull : Pull}
    {chunk : EventChunk} {part : Part} {call : Chat.ToolCall}
    (hpull : ((EventStream.ofSource source).pulls limit)[k]? = some pull)
    (hitem : pull.item = some (.ok chunk)) (hpart : (attributed source)[k]? = some (part, place))
    (hcall : eventCall? chunk.event.delta = some call) :
    ∃ taken, source[place]? = some taken ∧ itemFailure? taken = none ∧
      keptCalls taken = [call] := by
  obtain ⟨taken, htaken, hmem⟩ := attributed_stems hpart
  have hevent := item_eq_event hpull hitem hpart
  cases part with
  | error failure => cases hevent
  | ok said =>
      have hsaid : eventCall? said.1 = some call := by
        cases hevent
        exact hcall
      rcases itemParts_cases taken with
        ⟨sayings, hnone, hparts, hkept⟩ | ⟨sayings, failure, -, hparts, hnocall, -⟩
      · refine ⟨taken, htaken, hnone, ?_⟩
        have hsayings : said ∈ sayings := by simpa [hparts] using hmem
        have hin : call ∈ keptCalls taken := by
          rw [← hkept]
          exact List.mem_filterMap.2 ⟨said, hsayings, hsaid⟩
        obtain ⟨calls, hcalls⟩ := converted_of_itemFailure? hnone
        rw [keptCalls, hcalls] at hin ⊢
        cases calls with
        | nil => cases hin
        | cons first rest => simpa [eq_comm] using hin
      · have hsayings : said ∈ sayings := by simpa [hparts] using hmem
        have hin : call ∈ sayings.filterMap (eventCall? ·.1) :=
          List.mem_filterMap.2 ⟨said, hsayings, hsaid⟩
        rw [hnocall] at hin
        cases hin

/-- What a stream has noticed when it hands out what stems from an item is about the items up to
that one, whether or not that one fails. -/
theorem gainedBy_pulls_place {source : List SourceItem} {limit k place : Nat} {pull : Pull}
    {item : StreamItem} {part : Part}
    (hpull : ((EventStream.ofSource source).pulls limit)[k]? = some pull)
    (hitem : pull.item = some item) (hpart : (attributed source)[k]? = some (part, place)) :
    gainedBy ((EventStream.ofSource source).pulls (k + 1)) =
      (source.take (place + 1)).flatMap fun item => callNotices (itemCalls item) := by
  rcases result_stems_from_last hpull hitem with
    ⟨earlier, last, hsource, hlow, hhigh, hgained⟩ | ⟨hcount, -⟩
  · obtain ⟨found, hfound⟩ := attributed_getElem? hlow hhigh pull.stream.source
    rw [← hsource, hpart, Option.some.injEq, Prod.mk.injEq] at hfound
    have hfront : source.take (place + 1) = earlier ++ [last] := by
      rw [hsource, hfound.2, List.append_cons]
      exact List.take_left' (by simp)
    rw [hgained, hfront, funext itemAdvisories_eq]
  · rw [List.getElem?_eq_none (by rw [attributed_length]; omega)] at hpart
    cases hpart

/-- A stream that is pulled to its end adds to its collector one notice for each item with several
calls, of the items up to the first that fails. The notices about an item are there when the first
result that stems from it is handed out, and if it does not fail they name its call. Without a
failure every call that comes in is handed out or counted as dropped. -/
theorem run_notices_degraded_items (source : List SourceItem) {collectors : Collectors}
    {handle : Nat} (hhandle : handle < collectors.handles.length) :
    let run := (EventStream.ofSource source).run
    let before := collectors.snapshot handle
    let gained := (throughFailure source).flatMap fun item => callNotices (itemCalls item)
    (recordPulls collectors handle run).snapshot handle = before ++ gained ∧
    (∀ k pull item part place, run[k]? = some pull → pull.item = some item →
      (attributed source)[k]? = some (part, place) →
      (recordPulls collectors handle (run.take (k + 1))).snapshot handle =
        before ++ (source.take (place + 1)).flatMap (fun item => callNotices (itemCalls item)) ∧
      ∀ chunk call, item = .ok chunk → eventCall? chunk.event.delta = some call →
        ∃ taken, source[place]? = some taken ∧ keptCalls taken = [call] ∧
          ∀ notice ∈ callNotices (itemCalls taken),
            notice = .multipleToolCalls (itemCalls taken).length call.callId) ∧
    callsOf (handedOut run) = (throughFailure source).flatMap keptCalls ∧
    (∀ item, itemFailure? item = none → ∀ notice ∈ callNotices (itemCalls item),
      ∃ call, keptCalls item = [call] ∧
        notice = .multipleToolCalls (itemCalls item).length call.callId) ∧
    ((∀ pull ∈ run, ∀ failure, pull.item ≠ some (.error failure)) →
      (source.map fun item => (itemCalls item).length).sum =
        (callsOf (handedOut run)).length + (gained.map Advisory.dropped).sum) := by
  intro run before gained
  have hbuffer := Collectors.buffer?_of_lt hhandle
  refine ⟨?_, ?_, callsOf_run source, fun item hnone notice => callNotices_keptCalls hnone, ?_⟩
  · rw [snapshot_recordPulls hbuffer, gainedBy_run]
  · intro k pull item part place hpull hitem hpart
    obtain ⟨hlt, -⟩ := List.getElem?_eq_some_iff.1 hpull
    have hlimit := Nat.lt_of_lt_of_le hlt (pulls_length_le _ _)
    refine ⟨?_, ?_⟩
    · rw [snapshot_recordPulls hbuffer, ← gainedBy_pulls_place hpull hitem hpart,
        ← take_pulls hlimit]
      rfl
    · rintro chunk call rfl hcall
      obtain ⟨taken, htaken, hnone, hkept⟩ := keptCalls_of_event hpull hitem hpart hcall
      refine ⟨taken, htaken, hkept, fun notice hnotice => ?_⟩
      obtain ⟨named, hnamed, hsame⟩ := callNotices_keptCalls hnone hnotice
      rw [hkept, List.singleton_inj] at hnamed
      rw [hsame, hnamed]
  · intro hrun
    have hnone := itemFailure?_of_run hrun
    have hall : throughFailure source = source := throughFailure_of_none hnone
    rw [callsOf_run, show gained = _ from congrArg (List.flatMap _) hall, hall]
    exact itemCalls_lengths hnone

/-- A chunk with two calls, of which the second one does not parse. -/
def spoiled (id : String) : SourceItem :=
  .ok (.single { delta := {
    toolCalls := some
      [⟨0, some id, none, some ⟨some "f", some "\x7b\x7d"⟩⟩, ⟨1, none, none, none⟩] } })

/-- The spoiled chunk ends the stream and is noticed, and the chunk behind it is not taken. Without
it, four calls come in, two are handed out and two are dropped. -/
theorem spoiled_is_noticed :
    let collectors := Collectors.empty.addNew.record 0 [.topKOutOfRange 0]
    let source := [crowded "a", spoiled "b", crowded "c"]
    let run := (EventStream.ofSource source).run
    0 < collectors.handles.length ∧
      (recordPulls collectors 0 run).snapshot 0 =
        [.topKOutOfRange 0, .multipleToolCalls 2 "a", .multipleToolCalls 2 "b"] ∧
      callsOf (handedOut run) = [⟨"a", "f", SortedMap.empty⟩] ∧
      (∃ pull failure, run[1]? = some pull ∧ pull.item = some (.error failure) ∧
        (recordPulls collectors 0 (run.take 2)).snapshot 0 =
          [.topKOutOfRange 0, .multipleToolCalls 2 "a", .multipleToolCalls 2 "b"]) ∧
      (callsOf (handedOut (EventStream.ofSource [crowded "a", crowded "c"]).run)).length + 2 =
        4 := by
  intro collectors source run
  have hhandle : 0 < collectors.handles.length := by decide
  obtain ⟨hlog, hplaces, hcalls, -⟩ := run_notices_degraded_items source hhandle
  obtain ⟨-, -, -, -, hcount⟩ := run_notices_degraded_items [crowded "a", crowded "c"] hhandle
  refine ⟨hhandle, hlog, hcalls, ⟨_, _, rfl, rfl, (hplaces 1 _ _ _ 1 rfl rfl rfl).1⟩, ?_⟩
  refine (hcount ?_).symm
  intro pull hpull failure hitem
  have hitems : pull.item ∈ (EventStream.ofSource [crowded "a", crowded "c"]).run.map (·.item) :=
    List.mem_map_of_mem hpull
  rw [hitem] at hitems
  have hrun : some (Except.error failure) ∈ [some (.ok _), some (.ok _), some (.ok _), none] :=
    hitems
  simp at hrun

end StackBridge.Conversion
