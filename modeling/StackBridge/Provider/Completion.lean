/-
What the provider answers: a whole completion, or the chunks of a streamed one.
-/
import StackBridge.Chat.Request

namespace StackBridge.Provider

/-- The function that a call names, with its arguments as JSON text. -/
structure FunctionCall where
  name : String
  arguments : String
deriving DecidableEq, Repr

/-- A tool call of a whole completion. -/
structure ToolCall where
  id : String
  kind : String := "function"
  function : FunctionCall
deriving DecidableEq, Repr

/-- A token with its log-probability. -/
structure TopLogprob where
  token : String
  logprob : Float
deriving DecidableEq, Repr

/-- The token chosen at one position, and its likeliest alternatives. -/
structure TokenLogprob where
  token : String
  logprob : Float
  topLogprobs : List TopLogprob
deriving DecidableEq, Repr

/-- The log-probabilities of a choice. -/
structure Logprobs where
  content : Option (List TokenLogprob)
deriving DecidableEq, Repr

/-- The message of a choice. -/
structure ChoiceMessage where
  role : Option String
  content : Option String
  toolCalls : Option (List ToolCall)
deriving DecidableEq, Repr

/-- One choice of a whole completion. -/
structure Choice where
  index : UInt32
  message : Option ChoiceMessage
  finishReason : Option String
  logprobs : Option Logprobs
deriving DecidableEq, Repr

/-- A whole completion. -/
structure Completion where
  id : String
  model : String
  choices : List Choice
  usage : Option Json
deriving DecidableEq, Repr

/-- The function that a streamed call names, any part of which may be missing. -/
structure PartialFunction where
  name : Option String
  arguments : Option String
deriving DecidableEq, Repr

/-- A tool call within a chunk, any part of which may be missing. -/
structure PartialToolCall where
  index : UInt32
  id : Option String
  kind : Option String
  function : Option PartialFunction
deriving DecidableEq, Repr

/-- What a chunk adds to its choice. -/
structure Delta where
  role : Option String := none
  content : Option String := none
  toolCalls : Option (List PartialToolCall) := none
deriving DecidableEq, Repr

/-- One choice of a chunk. -/
structure ChunkChoice where
  index : UInt32 := 0
  delta : Delta := {}
  finishReason : Option String := none
  logprobs : Option Logprobs := none
deriving DecidableEq, Repr

/-- One piece of a streamed completion. -/
structure Chunk where
  id : String := ""
  model : String := ""
  choices : List ChunkChoice := []
deriving DecidableEq, Repr

def Chunk.single (choice : ChunkChoice) : Chunk :=
  { choices := [choice] }

def ToolCall.ofFunction (id name arguments : String) : ToolCall :=
  { id, function := ⟨name, arguments⟩ }

/-- What whole and streamed tool calls have in common. -/
structure ToolCallRecord where
  callId : String
  functionName : String
  rawArguments : String
deriving DecidableEq, Repr

def ToolCall.record (call : ToolCall) : ToolCallRecord :=
  ⟨call.id, call.function.name, call.function.arguments⟩

/-- The parts of a streamed call. One that is missing counts as empty, and empty arguments do not
parse. -/
def PartialToolCall.record (call : PartialToolCall) : ToolCallRecord :=
  ⟨call.id.getD "", (call.function.bind (·.name)).getD "",
    (call.function.bind (·.arguments)).getD ""⟩

def FunctionCall.codec : Codec FunctionCall :=
  Codec.record "FunctionCall"
    (.cons (.required "name" .string) <| .cons (.required "arguments" .string) .nil)
    (fun (name, arguments, ()) => ⟨name, arguments⟩)
    (fun f => (f.name, f.arguments, ()))

/-- A call on the wire, its arguments as a text. -/
def ToolCall.codec : Codec ToolCall :=
  Codec.record "OpenAiToolCall"
    (.cons (.required "id" .string) <|
      .cons (.withDefault "type" .string "function") <|
      .cons (.required "function" FunctionCall.codec) .nil)
    (fun (id, kind, function, ()) => ⟨id, kind, function⟩)
    (fun c => (c.id, c.kind, c.function, ()))

def TopLogprob.codec : Codec TopLogprob :=
  Codec.record "TopLogprob"
    (.cons (.required "token" .string) <| .cons (.required "logprob" .float) .nil)
    (fun (token, logprob, ()) => ⟨token, logprob⟩)
    (fun l => (l.token, l.logprob, ()))

def TokenLogprob.codec : Codec TokenLogprob :=
  Codec.record "TokenLogprob"
    (.cons (.required "token" .string) <|
      .cons (.required "logprob" .float) <|
      .cons (.withDefault "top_logprobs" TopLogprob.codec.list []) .nil)
    (fun (token, logprob, topLogprobs, ()) => ⟨token, logprob, topLogprobs⟩)
    (fun l => (l.token, l.logprob, l.topLogprobs, ()))

def Logprobs.codec : Codec Logprobs :=
  Codec.record "ChoiceLogprobs" (.cons (.nullable "content" TokenLogprob.codec.list) .nil)
    (fun (content, ()) => ⟨content⟩) (fun l => (l.content, ()))

def ChoiceMessage.codec : Codec ChoiceMessage :=
  Codec.record "ChoiceMessage"
    (.cons (.nullable "role" .string) <|
      .cons (.nullable "content" .string) <|
      .cons (.nullable "tool_calls" ToolCall.codec.list) .nil)
    (fun (role, content, toolCalls, ()) => ⟨role, content, toolCalls⟩)
    (fun m => (m.role, m.content, m.toolCalls, ()))

def Choice.codec : Codec Choice :=
  Codec.record "Choice"
    (.cons (.withDefault "index" .uint32 0) <|
      .cons (.nullable "message" ChoiceMessage.codec) <|
      .cons (.nullable "finish_reason" .string) <|
      .cons (.nullable "logprobs" Logprobs.codec) .nil)
    (fun (index, message, finishReason, logprobs, ()) => ⟨index, message, finishReason, logprobs⟩)
    (fun c => (c.index, c.message, c.finishReason, c.logprobs, ()))

def Completion.codec : Codec Completion :=
  Codec.record "ChatCompletion"
    (.cons (.withDefault "id" .string "") <|
      .cons (.withDefault "model" .string "") <|
      .cons (.withDefault "choices" Choice.codec.list []) <|
      .cons (.optional "usage" .any) .nil)
    (fun (id, model, choices, usage, ()) => ⟨id, model, choices, usage⟩)
    (fun c => (c.id, c.model, c.choices, c.usage, ()))

/-- A part of the function of a call on the wire. -/
def PartialFunction.codec : Codec PartialFunction :=
  Codec.record "DeltaFunctionCall"
    (.cons (.nullable "name" .string) <| .cons (.nullable "arguments" .string) .nil)
    (fun (name, arguments, ()) => ⟨name, arguments⟩)
    (fun f => (f.name, f.arguments, ()))

def PartialToolCall.codec : Codec PartialToolCall :=
  Codec.record "DeltaToolCall"
    (.cons (.withDefault "index" .uint32 0) <|
      .cons (.nullable "id" .string) <|
      .cons (.nullable "type" .string) <|
      .cons (.nullable "function" PartialFunction.codec) .nil)
    (fun (index, id, kind, function, ()) => ⟨index, id, kind, function⟩)
    (fun c => (c.index, c.id, c.kind, c.function, ()))

def Delta.codec : Codec Delta :=
  Codec.record "ChoiceDelta"
    (.cons (.nullable "role" .string) <|
      .cons (.nullable "content" .string) <|
      .cons (.nullable "tool_calls" PartialToolCall.codec.list) .nil)
    (fun (role, content, toolCalls, ()) => ⟨role, content, toolCalls⟩)
    (fun d => (d.role, d.content, d.toolCalls, ()))

def ChunkChoice.codec : Codec ChunkChoice :=
  Codec.record "ChunkChoice"
    (.cons (.withDefault "index" .uint32 0) <|
      .cons (.withDefault "delta" Delta.codec {}) <|
      .cons (.nullable "finish_reason" .string) <|
      .cons (.nullable "logprobs" Logprobs.codec) .nil)
    (fun (index, delta, finishReason, logprobs, ()) => ⟨index, delta, finishReason, logprobs⟩)
    (fun c => (c.index, c.delta, c.finishReason, c.logprobs, ()))

def Chunk.codec : Codec Chunk :=
  Codec.record "ChatCompletionChunk"
    (.cons (.withDefault "id" .string "") <|
      .cons (.withDefault "model" .string "") <|
      .cons (.withDefault "choices" ChunkChoice.codec.list []) .nil)
    (fun (id, model, choices, ()) => ⟨id, model, choices⟩)
    (fun c => (c.id, c.model, c.choices, ()))

end StackBridge.Provider
