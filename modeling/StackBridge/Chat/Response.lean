/-
What a chat completion answers: one message, or a sequence of stream events.
-/
import StackBridge.Chat.Message

namespace StackBridge.Chat

/-- The message that a completion produced. -/
structure CompletionMessage where
  role : Role := .assistant
  content : String
  stopReason : StopReason
  toolCalls : List ToolCall
deriving DecidableEq, Repr

/-- The log-probabilities at one position of the output, by token. -/
structure TokenLogProbs where
  byToken : SortedMap Float
deriving DecidableEq, Repr

/-- A completion that was not streamed. -/
structure Response where
  message : CompletionMessage
  logprobs : Option (List TokenLogProbs)
deriving DecidableEq, Repr

/-- The position of an event in its stream. -/
inductive EventType where
  | start
  | progress
  | complete
deriving DecidableEq, Repr

/-- What an event brings: a fragment of text or a tool call. -/
inductive EventDelta where
  | text (fragment : String)
  | toolCall (delta : ToolCallDelta)
deriving DecidableEq, Repr

/-- One event of a streamed completion. The stop reason comes with the last one. -/
structure Event where
  eventType : EventType
  delta : EventDelta
  logprobs : Option (List TokenLogProbs)
  stopReason : Option StopReason
deriving DecidableEq, Repr

/-- One item of a streamed completion. -/
structure EventChunk where
  event : Event
deriving DecidableEq, Repr

def EventType.name : EventType → String
  | .start => "start"
  | .progress => "progress"
  | .complete => "complete"

def EventDelta.asText : EventDelta → Option String
  | .text fragment => some fragment
  | .toolCall _ => none

def CompletionMessage.codec : Codec CompletionMessage :=
  Codec.record "CompletionMessage"
    (.cons (.required "role" Role.codec) <|
      .cons (.required "content" .string) <|
      .cons (.required "stop_reason" StopReason.codec) <|
      .cons (.withDefault "tool_calls" ToolCall.codec.list []) .nil)
    (fun (role, content, stopReason, toolCalls, ()) => ⟨role, content, stopReason, toolCalls⟩)
    (fun m => (m.role, m.content, m.stopReason, m.toolCalls, ()))

def TokenLogProbs.codec : Codec TokenLogProbs :=
  Codec.record "TokenLogProbs" (.cons (.required "logprobs_by_token" Codec.float.map) .nil)
    (fun (byToken, ()) => ⟨byToken⟩) (fun l => (l.byToken, ()))

def Response.codec : Codec Response :=
  Codec.record "ChatCompletionResponse"
    (.cons (.required "completion_message" CompletionMessage.codec) <|
      .cons (.optional "logprobs" TokenLogProbs.codec.list) .nil)
    (fun (message, logprobs, ()) => ⟨message, logprobs⟩)
    (fun r => (r.message, r.logprobs, ()))

def EventType.codec : Codec EventType :=
  Codec.named [.start, .progress, .complete] EventType.name

/-- A delta is written as its text or as its call, without a word on which it is. -/
def EventDelta.codec : Codec EventDelta :=
  Codec.untagged "EventDelta"
    (fun
      | .text fragment => Codec.string.encode fragment
      | .toolCall delta => ToolCallDelta.codec.encode delta)
    [Codec.alternative .string .text, Codec.alternative ToolCallDelta.codec .toolCall]

def Event.codec : Codec Event :=
  Codec.record "ChatCompletionResponseEvent"
    (.cons (.required "event_type" EventType.codec) <|
      .cons (.required "delta" EventDelta.codec) <|
      .cons (.optional "logprobs" TokenLogProbs.codec.list) <|
      .cons (.optional "stop_reason" StopReason.codec) .nil)
    (fun (eventType, delta, logprobs, stopReason, ()) => ⟨eventType, delta, logprobs, stopReason⟩)
    (fun e => (e.eventType, e.delta, e.logprobs, e.stopReason, ()))

def EventChunk.codec : Codec EventChunk :=
  Codec.record "ChatCompletionResponseStreamChunk" (.cons (.required "event" Event.codec) .nil)
    (fun (event, ()) => ⟨event⟩) (fun c => (c.event, ()))

end StackBridge.Chat
