/-
A streamed answer and the same answer in one piece. When every chunk carries one thing, a fragment
of text or a whole tool call, the events of the stream put together are the conversion of the choice
that the chunks are the pieces of.
-/
import StackBridge.Proofs.Transcript

namespace StackBridge.Conversion

open Chat (EventChunk EventDelta TokenLogProbs ToolCallDelta)
open Provider (Choice ChoiceMessage Chunk ChunkChoice Delta PartialToolCall)

abbrev Saying := EventDelta × Option (List TokenLogProbs)

/-- A delta that carries a fragment of text or else exactly one tool call. A text that is empty or
absent is no fragment that could stand beside a call. -/
def CarriesOne (delta : Delta) : Prop :=
  delta.toolCalls.getD [] = [] ∨
    delta.content.getD "" = "" ∧ ∃ call, delta.toolCalls = some [call]

/-- A chunk with one choice that carries one thing. -/
def SingleChunk (chunk : Chunk) : Prop :=
  ∃ choice, chunk.choices = [choice] ∧ CarriesOne choice.delta

def choiceText (choice : ChunkChoice) : String :=
  choice.delta.content.getD ""

def choiceCalls (choice : ChunkChoice) : List PartialToolCall :=
  choice.delta.toolCalls.getD []

/-- The positions that a choice has log-probabilities for. -/
def choicePositions (choice : ChunkChoice) : List Provider.TokenLogprob :=
  (choice.logprobs.bind (·.content)).getD []

def choiceReason (choice : ChunkChoice) : Option String :=
  choice.finishReason.filter (· ≠ "")

/-- The choice that others are the pieces of, finished for the last reason that they give. A part
that is absent counts as empty, and the role and the kinds of the calls are free. -/
structure Assembled (choices : List ChunkChoice) (reason : String) (whole : Choice)
    (message : ChoiceMessage) : Prop where
  present : whole.message = some message
  content : message.content.getD "" = String.join (choices.map choiceText)
  toolCalls : (message.toolCalls.getD []).map (·.record) =
    (choices.flatMap choiceCalls).map (·.record)
  logprobs : (whole.logprobs.bind (·.content)).getD [] = choices.flatMap choicePositions
  lastReason : (choices.filterMap choiceReason).getLast? = some reason
  finishReason : whole.finishReason = some reason

/-- The message that choices are the pieces of. -/
def assembledMessage (choices : List ChunkChoice) : ChoiceMessage where
  role := some "assistant"
  content := some (String.join (choices.map choiceText))
  toolCalls := some <| (choices.flatMap choiceCalls).map fun call =>
    { id := call.record.callId
      function := ⟨call.record.functionName, call.record.rawArguments⟩ }

/-- The choice that others are the pieces of. -/
def assemble (choices : List ChunkChoice) (reason : String) : Choice where
  index := 0
  message := some (assembledMessage choices)
  finishReason := some reason
  logprobs := some ⟨some (choices.flatMap choicePositions)⟩

theorem assembled_assemble {choices : List ChunkChoice} {reason : String}
    (hreason : (choices.filterMap choiceReason).getLast? = some reason) :
    Assembled choices reason (assemble choices reason) (assembledMessage choices) where
  present := rfl
  content := rfl
  toolCalls := by
    simp [assembledMessage, Provider.ToolCall.record, Function.comp_def]
  logprobs := rfl
  lastReason := hreason
  finishReason := rfl

def eventCall? (delta : EventDelta) : Option Chat.ToolCall :=
  match delta with
  | .toolCall ⟨.call call, _⟩ => some call
  | _ => none

/-- The fragments of text of some events, put together. -/
def textOf (events : List EventChunk) : String :=
  String.join (events.map fun chunk => chunk.event.delta.asText.getD "")

def callsOf (events : List EventChunk) : List Chat.ToolCall :=
  events.filterMap fun chunk => eventCall? chunk.event.delta

def logprobsOf (events : List EventChunk) : List TokenLogProbs :=
  events.flatMap fun chunk => chunk.event.logprobs.getD []

/-- What is said, as the events of a stream. -/
def placed : List Saying → List EventChunk
  | [] => []
  | said :: rest =>
      ⟨⟨.start, said.1, said.2, none⟩⟩ ::
        rest.map fun said => ⟨⟨.progress, said.1, said.2, none⟩⟩

/-- Without failures the events are what is said, each in its place. -/
theorem eventsFrom_ok (sayings : List Saying) :
    eventsFrom .notStarted (sayings.map .ok) = (placed sayings).map .ok := by
  cases sayings with
  | nil => rfl
  | cons said rest =>
      rw [List.map_cons, eventsFrom]
      change _ :: eventsFrom .emitting (rest.map .ok) = _
      rw [eventsFrom_emitting, placed, List.map_cons, List.map_map, List.map_map]
      rfl

theorem closedBy_ok_append (closing rest : List StreamItem) (events : List EventChunk) :
    closedBy closing (events.map .ok ++ rest) = events.map .ok ++ closedBy closing rest := by
  induction events with
  | nil => rfl
  | cons event others ih => exact congrArg (Except.ok event :: ·) ih

theorem textOf_placed (sayings : List Saying) :
    textOf (placed sayings) = String.join (sayings.map (·.1.asText.getD "")) := by
  cases sayings with
  | nil => rfl
  | cons said rest => simp [textOf, placed, Function.comp_def]

theorem callsOf_placed (sayings : List Saying) :
    callsOf (placed sayings) = sayings.filterMap (eventCall? ·.1) := by
  cases sayings with
  | nil => rfl
  | cons said rest =>
      rw [callsOf, placed, List.filterMap_cons, List.filterMap_cons, List.filterMap_map]
      rfl

theorem logprobsOf_placed (sayings : List Saying) :
    logprobsOf (placed sayings) = sayings.flatMap (·.2.getD []) := by
  cases sayings with
  | nil => rfl
  | cons said rest => simp [logprobsOf, placed, List.flatMap_map]

theorem placed_not_complete (sayings : List Saying) :
    ∀ chunk ∈ placed sayings, chunk.event.eventType ≠ .complete := by
  cases sayings with
  | nil => simp [placed]
  | cons said rest =>
      refine List.forall_mem_cons.2 ⟨by simp, List.forall_mem_map.2 ?_⟩
      simp

theorem textOf_completed (events : List EventChunk) (stopReason : Option Chat.StopReason) :
    textOf (events ++ [completeEvent stopReason]) = textOf events := by
  simp [textOf, completeEvent, EventDelta.asText]

theorem callsOf_completed (events : List EventChunk) (stopReason : Option Chat.StopReason) :
    callsOf (events ++ [completeEvent stopReason]) = callsOf events := by
  simp [callsOf, completeEvent, eventCall?]

theorem logprobsOf_completed (events : List EventChunk) (stopReason : Option Chat.StopReason) :
    logprobsOf (events ++ [completeEvent stopReason]) = logprobsOf events := by
  simp [logprobsOf, completeEvent]

theorem convertLogprobs_getD (logprobs : Option Provider.Logprobs) :
    (convertLogprobs logprobs).getD [] =
      ((logprobs.bind (·.content)).getD []).map convertPosition := by
  cases logprobs <;> simp [convertLogprobs]

theorem choiceParts_of_no_calls {choice : ChunkChoice} (hcalls : choiceCalls choice = []) :
    choiceParts choice = [.ok (.text (choiceText choice), convertLogprobs choice.logprobs)] := by
  unfold choiceCalls at hcalls
  unfold choiceParts
  cases htool : choice.delta.toolCalls with
  | none => rfl
  | some calls =>
      rw [htool, Option.getD_some] at hcalls
      subst hcalls
      rfl

theorem choiceParts_of_one_call {choice : ChunkChoice} {call : PartialToolCall}
    (hcalls : choice.delta.toolCalls = some [call]) (htext : choiceText choice = "") :
    choiceParts choice = [callPart call [] (convertLogprobs choice.logprobs)] := by
  have hfilter : choice.delta.content.filter (· ≠ "") = none := by
    unfold choiceText at htext
    cases hcontent : choice.delta.content with
    | none => rfl
    | some text =>
        rw [hcontent, Option.getD_some] at htext
        simp [htext]
  unfold choiceParts
  rw [hcalls, hfilter]
  rfl

/-- What is said of some choices: their text, their calls, which convert, and their
log-probabilities. -/
structure SaysAll (choices : List ChunkChoice) (calls : List Chat.ToolCall)
    (sayings : List Saying) : Prop where
  text : String.join (sayings.map (·.1.asText.getD "")) = String.join (choices.map choiceText)
  calls : sayings.filterMap (eventCall? ·.1) = calls
  logprobs : sayings.flatMap (·.2.getD []) =
    (choices.flatMap choicePositions).map convertPosition

/-- A choice that carries one thing has one part, which agrees with the conversion of its calls. -/
theorem choiceParts_carriesOne {choice : ChunkChoice} (hcarries : CarriesOne choice.delta) :
    (∃ said calls, choiceParts choice = [.ok said] ∧
        convertToolCalls ((choiceCalls choice).map (·.record)) = .ok calls ∧
        SaysAll [choice] calls [said]) ∨
      ∃ callId fault, choiceParts choice = [.error (.toolArguments callId fault)] ∧
        convertToolCalls ((choiceCalls choice).map (·.record)) =
          .error (.toolArguments callId fault) := by
  rcases hcarries with hcalls | ⟨htext, call, hcalls⟩
  · refine Or.inl ⟨_, [], choiceParts_of_no_calls hcalls, ?_, ?_, ?_, ?_⟩
    · rw [show choiceCalls choice = [] from hcalls]
      rfl
    · rfl
    · rfl
    · simp [convertLogprobs_getD, choicePositions]
  · have hone : choiceCalls choice = [call] := by rw [choiceCalls, hcalls, Option.getD_some]
    rw [choiceParts_of_one_call hcalls htext, hone, List.map_singleton, convertToolCalls_singleton]
    cases hparse : arguments.ofText call.record.rawArguments with
    | error fault =>
        refine Or.inr ⟨call.record.callId, fault, ?_, ?_⟩
        · simp [callPart, hparse]
        · rw [convertToolCall_of_error hparse]
          rfl
    | ok parsed =>
        have hpart : callPart call [] (convertLogprobs choice.logprobs) =
            .ok (.toolCall ⟨.call ⟨call.record.callId, call.record.functionName, parsed⟩, .success⟩,
              convertLogprobs choice.logprobs) := by
          simp [callPart, hparse]
        refine Or.inl ⟨_, [⟨call.record.callId, call.record.functionName, parsed⟩],
          congrArg ([·]) hpart, ?_, ?_, ?_, ?_⟩
        · rw [convertToolCall_of_ok hparse]
          rfl
        · simp [EventDelta.asText, choiceText, htext]
        · rfl
        · simp [convertLogprobs_getD, choicePositions]

/-- What choices say goes on where the choices before them ended. -/
theorem SaysAll.append {choices others : List ChunkChoice} {calls more : List Chat.ToolCall}
    {sayings rest : List Saying} (hchoices : SaysAll choices calls sayings)
    (hothers : SaysAll others more rest) :
    SaysAll (choices ++ others) (calls ++ more) (sayings ++ rest) where
  text := by
    simp only [List.map_append, String.join_append, hchoices.text, hothers.text]
  calls := by
    rw [List.filterMap_append, hchoices.calls, hothers.calls]
  logprobs := by
    rw [List.flatMap_append, hchoices.logprobs, hothers.logprobs, ← List.map_append,
      ← List.flatMap_append]

/-- Choices that carry one thing each say all of it and their calls convert, or else they say so
much as stands before the first call that does not convert. The stream and the conversion both stop
at that choice. -/
theorem choices_say_all (choices : List ChunkChoice)
    (hcarries : ∀ choice ∈ choices, CarriesOne choice.delta) :
    (∃ sayings calls, choices.flatMap choiceParts = sayings.map .ok ∧
        convertToolCalls ((choices.flatMap choiceCalls).map (·.record)) = .ok calls ∧
        SaysAll choices calls sayings) ∨
      ∃ (sayings : List Saying) (callId : String) (fault : Json.Fault) (more : List Part),
        choices.flatMap choiceParts =
          sayings.map .ok ++ .error (.toolArguments callId fault) :: more ∧
        convertToolCalls ((choices.flatMap choiceCalls).map (·.record)) =
          .error (.toolArguments callId fault) := by
  induction choices with
  | nil => exact Or.inl ⟨[], [], rfl, rfl, rfl, rfl, rfl⟩
  | cons choice rest ih =>
      have hfirst := choiceParts_carriesOne (hcarries choice List.mem_cons_self)
      have hrest := ih fun other hother => hcarries other (List.mem_cons_of_mem _ hother)
      simp only [List.flatMap_cons, List.map_append, convertToolCalls_append]
      rcases hfirst with ⟨said, calls, hparts, hcalls, hall⟩ | ⟨callId, fault, hparts, hcalls⟩
      · rcases hrest with ⟨sayings, more, hothers, hmore, hsaid⟩ |
          ⟨sayings, callId, fault, more, hothers, hmore⟩
        · refine Or.inl ⟨said :: sayings, calls ++ more, ?_, ?_, hall.append hsaid⟩
          · rw [hparts, hothers]
            rfl
          · rw [hcalls, hmore]
        · refine Or.inr ⟨said :: sayings, callId, fault, more, ?_, ?_⟩
          · rw [hparts, hothers]
            rfl
          · rw [hcalls, hmore]
      · refine Or.inr ⟨[], callId, fault, rest.flatMap choiceParts, ?_, ?_⟩
        · rw [hparts]
          rfl
        · rw [hcalls]

/-- The chunks have the parts, the reasons and the deltas of their choices. -/
theorem single_chunks {chunks : List Chunk} (hchunks : ∀ chunk ∈ chunks, SingleChunk chunk) :
    (chunks.map Except.ok).flatMap itemParts = (chunks.flatMap (·.choices)).flatMap choiceParts ∧
      (chunks.map Except.ok).filterMap itemReason =
        (chunks.flatMap (·.choices)).filterMap choiceReason ∧
      ∀ choice ∈ chunks.flatMap (·.choices), CarriesOne choice.delta := by
  induction chunks with
  | nil => simp
  | cons chunk rest ih =>
      obtain ⟨hparts, hreasons, hcarries⟩ :=
        ih fun other hother => hchunks other (List.mem_cons_of_mem _ hother)
      obtain ⟨choice, hchoice, hone⟩ := hchunks chunk List.mem_cons_self
      have hreason : itemReason (.ok chunk) = choiceReason choice := by
        simp [itemReason, hchoice, choiceReason]
      rw [List.map_cons, List.flatMap_cons, List.flatMap_cons, hchoice, List.singleton_append]
      refine ⟨?_, ?_, List.forall_mem_cons.2 ⟨hone, hcarries⟩⟩
      · rw [hparts, itemParts, hchoice, List.flatMap_cons]
      · rw [List.filterMap_cons, List.filterMap_cons, hreasons, hreason]

theorem Assembled.reason_ne {choices : List ChunkChoice} {reason : String} {whole : Choice}
    {message : ChoiceMessage} (hwhole : Assembled choices reason whole message) :
    reason ≠ "" := by
  obtain ⟨choice, -, hreason⟩ := List.mem_filterMap.1 (List.mem_of_getLast? hwhole.lastReason)
  simpa using (Option.filter_eq_some_iff.1 hreason).2

/-- The conversion of a whole choice depends on its calls alone: they all convert, or it fails as
they do. -/
theorem convertChoice_assembled {choices : List ChunkChoice} {reason : String} {whole : Choice}
    {message : ChoiceMessage} (hwhole : Assembled choices reason whole message) :
    convertChoice whole =
      (convertToolCalls ((choices.flatMap choiceCalls).map (·.record))).map fun calls =>
        { message := {
            content := String.join (choices.map choiceText)
            stopReason := convertFinishReason (some reason)
            toolCalls := calls }
          logprobs := convertLogprobs whole.logprobs } := by
  have hreason : whole.finishReason.filter (· ≠ "") = some reason := by
    rw [hwhole.finishReason]
    simp [hwhole.reason_ne]
  unfold convertChoice
  rw [hwhole.present, hreason, ← hwhole.toolCalls, ← hwhole.content]
  simp only [bind, Except.bind, pure, Except.pure]
  cases convertToolCalls ((message.toolCalls.getD []).map (·.record)) <;> rfl

/-- Events that bring what a response holds. The last of them and no other is complete. -/
structure Brings (answer : List EventChunk) (response : Chat.Response) : Prop where
  text : textOf answer = response.message.content
  calls : callsOf answer = response.message.toolCalls
  logprobs : logprobsOf answer = response.logprobs.getD []
  complete : ∃ events, answer = events ++ [completeEvent (some response.message.stopReason)] ∧
    ∀ chunk ∈ events, chunk.event.eventType ≠ .complete

theorem SaysAll.brings {choices : List ChunkChoice} {calls : List Chat.ToolCall}
    {sayings : List Saying} {logprobs : Option (List TokenLogProbs)}
    (hall : SaysAll choices calls sayings) (stopReason : Chat.StopReason)
    (hlogprobs : logprobs.getD [] = (choices.flatMap choicePositions).map convertPosition) :
    Brings (placed sayings ++ [completeEvent (some stopReason)])
      { message := {
          content := String.join (choices.map choiceText), stopReason, toolCalls := calls }
        logprobs } where
  text := by rw [textOf_completed, textOf_placed, hall.text]
  calls := by rw [callsOf_completed, callsOf_placed, hall.calls]
  logprobs := by rw [logprobsOf_completed, logprobsOf_placed, hall.logprobs, hlogprobs]
  complete := ⟨placed sayings, rfl, placed_not_complete sayings⟩

/-- A stream whose items only say something hands it out and then closes. -/
theorem run_of_parts {source : List SourceItem} {sayings : List Saying}
    (hparts : source.flatMap itemParts = sayings.map .ok) :
    (EventStream.ofSource source).run.map (·.item) =
      (placed sayings ++ [completeEvent (lastStopReason source)]).map (some ∘ .ok) ++ [none] := by
  have hclosed := closedBy_ok_append [.ok (completeEvent (lastStopReason source))] []
    (placed sayings)
  rw [List.append_nil] at hclosed
  rw [map_item_run, outlook_ofSource, hparts, eventsFrom_ok, hclosed]
  simp [closedBy]

/-- A stream hands out what is said before a failure, then the failure, and nothing behind it. -/
theorem run_of_failing_parts {source : List SourceItem} {sayings : List Saying}
    {failure : Failure} {more : List Part}
    (hparts : source.flatMap itemParts = sayings.map .ok ++ .error failure :: more) :
    (EventStream.ofSource source).run.map (·.item) =
      (placed sayings).map (some ∘ .ok) ++ [some (.error failure), none] := by
  rw [map_item_run, outlook_ofSource, hparts, eventsFrom_append, eventsFrom_ok,
    closedBy_ok_append]
  simp [eventsFrom, Part.event, closedBy]

/-- A stream brings what the conversion of the assembled choice holds. If the choice does not
convert, because of the arguments of a call, then the stream ends with the same failure. -/
theorem stream_agrees_with_whole {chunks : List Chunk} {reason : String} {whole : Choice}
    {message : ChoiceMessage} (hchunks : ∀ chunk ∈ chunks, SingleChunk chunk)
    (hwhole : Assembled (chunks.flatMap (·.choices)) reason whole message) :
    match convertChoice whole with
    | .ok response => ∃ answer : List EventChunk,
        (EventStream.ofSource (chunks.map .ok)).run.map (·.item) =
            answer.map (some ∘ .ok) ++ [none] ∧
          Brings answer response
    | .error failure => (∃ callId fault, failure = .toolArguments callId fault) ∧
        ∃ answer : List EventChunk,
          (EventStream.ofSource (chunks.map .ok)).run.map (·.item) =
            answer.map (some ∘ .ok) ++ [some (.error failure), none] := by
  obtain ⟨hparts, hreasons, hcarries⟩ := single_chunks hchunks
  rw [convertChoice_assembled hwhole]
  rcases choices_say_all _ hcarries with ⟨sayings, calls, hsaid, hcalls, hall⟩ |
    ⟨sayings, callId, fault, more, hsaid, hcalls⟩
  · rw [hcalls]
    have hstop : lastStopReason (chunks.map .ok) = some (convertFinishReason (some reason)) := by
      rw [lastStopReason, hreasons, hwhole.lastReason]
      rfl
    have hrun := run_of_parts (hparts.trans hsaid)
    rw [hstop] at hrun
    refine ⟨_, hrun, hall.brings _ ?_⟩
    rw [convertLogprobs_getD, hwhole.logprobs]
  · rw [hcalls]
    exact ⟨⟨callId, fault, rfl⟩, placed sayings, run_of_failing_parts (hparts.trans hsaid)⟩

/-- A fragment of text, and a call that ends the message. -/
def textThenCall : List Chunk :=
  [.single { delta := { content := some "Hi" } },
    .single {
      delta := { toolCalls := some [⟨0, some "c", none, some ⟨some "f", some "\x7b\x7d"⟩⟩] }
      finishReason := some "tool_calls" }]

theorem textThenCall_agrees :
    ((textThenCall.flatMap (·.choices)).filterMap choiceReason).getLast? = some "tool_calls" ∧
      ∃ answer : List EventChunk,
        (EventStream.ofSource (textThenCall.map .ok)).run.map (·.item) =
            answer.map (some ∘ .ok) ++ [none] ∧
          Brings answer
            { message := {
                content := "Hi", stopReason := .endOfMessage
                toolCalls := [⟨"c", "f", SortedMap.empty⟩] }
              logprobs := some [] } := by
  have hchunks : ∀ chunk ∈ textThenCall, SingleChunk chunk := by
    refine List.forall_mem_cons.2 ⟨⟨_, rfl, Or.inl rfl⟩, List.forall_mem_cons.2 ⟨?_, by simp⟩⟩
    exact ⟨_, rfl, Or.inr ⟨rfl, _, rfl⟩⟩
  exact ⟨rfl, stream_agrees_with_whole hchunks (assembled_assemble rfl)⟩

end StackBridge.Conversion
