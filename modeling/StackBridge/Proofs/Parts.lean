/-
What the items of a source have to say, apart from the machine that hands it out. A part is an
event without its place in the stream, or the failure that ends the stream. The parts of a source,
cut behind the first failure, are what its stream hands out.
-/
import StackBridge.Conversion.Stream

namespace StackBridge.Conversion

open Chat (EventChunk EventDelta EventType StopReason TokenLogProbs ToolCallDelta)
open Provider (ChunkChoice PartialToolCall)

/-- An event that does not know its place yet, or a failure. -/
abbrev Part := Except Failure (EventDelta × Option (List TokenLogProbs))

/-- The failure of a call whose arguments are not a JSON object. -/
def argumentsFailure? (call : PartialToolCall) : Option Failure :=
  match arguments.ofText call.record.rawArguments with
  | .ok _ => none
  | .error fault => some (.toolArguments call.record.callId fault)

/-- What the calls of a delta come to. The first of them is the event, provided that the arguments
of every one of them parse; otherwise the first whose arguments do not is the failure. -/
def callPart (first : PartialToolCall) (rest : List PartialToolCall)
    (logprobs : Option (List TokenLogProbs)) : Part :=
  match arguments.ofText first.record.rawArguments, rest.findSome? argumentsFailure? with
  | .error fault, _ => .error (.toolArguments first.record.callId fault)
  | .ok _, some failure => .error failure
  | .ok arguments, none =>
      .ok (.toolCall ⟨.call ⟨first.record.callId, first.record.functionName, arguments⟩, .success⟩,
        logprobs)

/-- What a choice says: its text if it has no calls, and otherwise its text unless that is empty,
followed by its calls. -/
def choiceParts (choice : ChunkChoice) : List Part :=
  let logprobs := convertLogprobs choice.logprobs
  match choice.delta.toolCalls with
  | none | some [] => [.ok (.text (choice.delta.content.getD ""), logprobs)]
  | some (first :: rest) =>
      (choice.delta.content.filter (· ≠ "")).toList.map (fun text => .ok (.text text, logprobs)) ++
        [callPart first rest logprobs]

/-- What an item of the source says. A chunk speaks through its first choice. -/
def itemParts : SourceItem → List Part
  | .error failure => [.error failure]
  | .ok chunk =>
      match chunk.choices with
      | [] => []
      | choice :: _ => choiceParts choice

/-- The finish reason that an item of the source gives, if it is not empty. -/
def itemReason : SourceItem → Option String
  | .error _ => none
  | .ok chunk => chunk.choices.head?.bind fun choice => choice.finishReason.filter (· ≠ "")

/-- The notices that an item of the source gives rise to. -/
def itemAdvisories : SourceItem → Log
  | .error _ => []
  | .ok chunk => chunkAdvisories chunk

def Part.event (eventType : EventType) : Part → StreamItem
  | .error failure => .error failure
  | .ok (delta, logprobs) => .ok ⟨⟨eventType, delta, logprobs, none⟩⟩

/-- The first part starts the stream and the others continue it. -/
def events : List Part → List StreamItem
  | [] => []
  | part :: rest => part.event .start :: rest.map (Part.event .progress)

/-- Cut a list behind its first failure. A list without one is closed by `closing`. -/
def closedBy (closing : List StreamItem) : List StreamItem → List StreamItem
  | [] => closing
  | .ok event :: rest => .ok event :: closedBy closing rest
  | .error failure :: _ => [.error failure]

/-- The last finish reason of a source, in the words of the chat schema. -/
def lastStopReason (source : List SourceItem) : Option StopReason :=
  (source.filterMap itemReason).getLast?.map fun reason => convertFinishReason (some reason)

def completeEvent (stopReason : Option StopReason) : EventChunk :=
  ⟨⟨.complete, .text "", none, stopReason⟩⟩

/-- All that the stream of a source hands out, from its first event to its end. -/
def transcript (source : List SourceItem) : List StreamItem :=
  closedBy [.ok (completeEvent (lastStopReason source))] (events (source.flatMap itemParts))

theorem convertToolCall_of_ok {call : Provider.ToolCallRecord} {parsed : SortedMap Json}
    (hparsed : arguments.ofText call.rawArguments = .ok parsed) :
    convertToolCall call = .ok ⟨call.callId, call.functionName, parsed⟩ := by
  rw [convertToolCall, hparsed]
  rfl

theorem convertToolCall_of_error {call : Provider.ToolCallRecord} {fault : Json.Fault}
    (hfault : arguments.ofText call.rawArguments = .error fault) :
    convertToolCall call = .error (.toolArguments call.callId fault) := by
  rw [convertToolCall, hfault]
  rfl

theorem convertToolCalls_cons (call : Provider.ToolCallRecord)
    (rest : List Provider.ToolCallRecord) :
    convertToolCalls (call :: rest) =
      match convertToolCall call, convertToolCalls rest with
      | .error failure, _ => .error failure
      | .ok _, .error failure => .error failure
      | .ok converted, .ok others => .ok (converted :: others) := by
  simp only [convertToolCalls, List.mapM_cons, bind, Except.bind, pure, Except.pure]
  cases convertToolCall call with
  | error failure => rfl
  | ok converted => cases rest.mapM convertToolCall <;> rfl

theorem convertToolCalls_singleton (call : Provider.ToolCallRecord) :
    convertToolCalls [call] = (convertToolCall call).map ([·]) := by
  rw [convertToolCalls_cons]
  cases convertToolCall call <;> rfl

/-- Calls in two runs convert as the two runs do, and the first failure is the failure of all. -/
theorem convertToolCalls_append (calls more : List Provider.ToolCallRecord) :
    convertToolCalls (calls ++ more) =
      match convertToolCalls calls, convertToolCalls more with
      | .error failure, _ => .error failure
      | .ok _, .error failure => .error failure
      | .ok converted, .ok others => .ok (converted ++ others) := by
  simp only [convertToolCalls, List.mapM_append, bind, Except.bind, pure, Except.pure]
  cases calls.mapM convertToolCall with
  | error failure => rfl
  | ok converted => cases more.mapM convertToolCall <;> rfl

/-- Calls fail exactly as the first of them that fails. -/
theorem convertToolCalls_eq_error_iff (calls : List PartialToolCall) (failure : Failure) :
    convertToolCalls (calls.map (·.record)) = .error failure ↔
      calls.findSome? argumentsFailure? = some failure := by
  induction calls with
  | nil => simp [convertToolCalls, pure, Except.pure]
  | cons call rest ih =>
      rw [List.map_cons, convertToolCalls_cons, List.findSome?_cons]
      cases hparse : arguments.ofText call.record.rawArguments with
      | error fault => simp [convertToolCall_of_error hparse, argumentsFailure?, hparse]
      | ok parsed =>
          rw [convertToolCall_of_ok hparse]
          cases hrest : convertToolCalls (rest.map (·.record)) with
          | error found => simpa [argumentsFailure?, hparse, hrest] using ih
          | ok others => simpa [argumentsFailure?, hparse, hrest] using ih

/-- The part that calls come to is their conversion, of which only the first call is kept. -/
theorem convertToolCalls_callPart (first : PartialToolCall) (rest : List PartialToolCall)
    (logprobs : Option (List TokenLogProbs)) :
    (∃ failure, convertToolCalls ((first :: rest).map (·.record)) = .error failure ∧
      callPart first rest logprobs = .error failure) ∨
    ∃ call others, convertToolCalls ((first :: rest).map (·.record)) = .ok (call :: others) ∧
      callPart first rest logprobs = .ok (.toolCall (ToolCallDelta.complete call), logprobs) := by
  rw [List.map_cons, convertToolCalls_cons]
  cases hparse : arguments.ofText first.record.rawArguments with
  | error fault =>
      refine Or.inl ⟨.toolArguments first.record.callId fault, ?_, ?_⟩
      · rw [convertToolCall_of_error hparse]
      · simp [callPart, hparse]
  | ok parsed =>
      rw [convertToolCall_of_ok hparse]
      cases hrest : convertToolCalls (rest.map (·.record)) with
      | error failure =>
          have hfind := (convertToolCalls_eq_error_iff rest failure).1 hrest
          exact Or.inl ⟨failure, rfl, by simp [callPart, hparse, hfind]⟩
      | ok others =>
          have hfind : rest.findSome? argumentsFailure? = none := by
            cases hfound : rest.findSome? argumentsFailure? with
            | none => rfl
            | some failure =>
                rw [(convertToolCalls_eq_error_iff rest failure).2 hfound] at hrest
                cases hrest
          exact Or.inr ⟨_, others, rfl, by simp [callPart, hparse, hfind, ToolCallDelta.complete]⟩

end StackBridge.Conversion
