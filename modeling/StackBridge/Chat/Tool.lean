/-
Tools in the chat schema: what is advertised to the model, and the calls that it makes.
-/
import StackBridge.Codec.Record
import StackBridge.Codec.Variant

namespace StackBridge.Chat

/-- One parameter of a tool. -/
structure ToolParameter where
  kind : String
  description : Option String
  required : Bool
  fallback : Option Json
deriving DecidableEq, Repr

/-- A tool advertised to the model. -/
structure ToolDefinition where
  toolName : String
  description : Option String
  parameters : Option (SortedMap ToolParameter)
deriving DecidableEq, Repr

/-- Whether the model may or must call a tool. -/
inductive ToolChoice where
  | auto
  | required
deriving DecidableEq, Repr

/-- A call that the model makes, with its arguments by name. -/
structure ToolCall where
  callId : String
  toolName : String
  arguments : SortedMap Json
deriving DecidableEq, Repr

/-- How far a streamed call has come. -/
inductive ParseStatus where
  | started
  | inProgress
  | failure
  | success
deriving DecidableEq, Repr

/-- What a stream event holds of a call: a fragment of its text, or the whole call. -/
inductive ToolCallContent where
  | text (fragment : String)
  | call (call : ToolCall)
deriving DecidableEq, Repr

/-- A call within a stream event. -/
structure ToolCallDelta where
  content : ToolCallContent
  parseStatus : ParseStatus
deriving DecidableEq, Repr

/-- A fully formed call, of which nothing is left to parse. -/
def ToolCallDelta.complete (call : ToolCall) : ToolCallDelta :=
  ⟨.call call, .success⟩

def ToolChoice.name : ToolChoice → String
  | .auto => "auto"
  | .required => "required"

def ParseStatus.name : ParseStatus → String
  | .started => "started"
  | .inProgress => "in_progress"
  | .failure => "failure"
  | .success => "success"

def ToolParameter.codec : Codec ToolParameter :=
  Codec.record "ToolParamDefinition"
    (.cons (.required "param_type" .string) <|
      .cons (.optional "description" .string) <|
      .cons (.withDefault "required" .bool true) <|
      .cons (.optional "default" .any) .nil)
    (fun (kind, description, required, fallback, ()) => ⟨kind, description, required, fallback⟩)
    (fun p => (p.kind, p.description, p.required, p.fallback, ()))

def ToolDefinition.codec : Codec ToolDefinition :=
  Codec.record "ToolDefinition"
    (.cons (.required "tool_name" .string) <|
      .cons (.optional "description" .string) <|
      .cons (.optional "parameters" ToolParameter.codec.map) .nil)
    (fun (toolName, description, parameters, ()) => ⟨toolName, description, parameters⟩)
    (fun d => (d.toolName, d.description, d.parameters, ()))

def ToolChoice.wireName : ToolChoice → String
  | .auto => "auto"
  | .required => "required"

def ToolChoice.codec : Codec ToolChoice :=
  Codec.named [.auto, .required] ToolChoice.wireName

/-- A call on the wire, its arguments as an object. -/
def ToolCall.codec : Codec ToolCall :=
  Codec.record "ToolCall"
    (.cons (.required "call_id" .string) <|
      .cons (.required "tool_name" .string) <|
      .cons (.required "arguments" Codec.any.map) .nil)
    (fun (callId, toolName, arguments, ()) => ⟨callId, toolName, arguments⟩)
    (fun c => (c.callId, c.toolName, c.arguments, ()))

def ParseStatus.codec : Codec ParseStatus :=
  Codec.named [.started, .inProgress, .failure, .success] ParseStatus.name

/-- A fragment is written as its text and a whole call as an object. -/
def ToolCallContent.codec : Codec ToolCallContent :=
  Codec.untagged "ToolCallDeltaContent"
    (fun
      | .text fragment => Codec.string.encode fragment
      | .call whole => ToolCall.codec.encode whole)
    [Codec.alternative .string .text, Codec.alternative ToolCall.codec .call]

def ToolCallDelta.codec : Codec ToolCallDelta :=
  Codec.record "ToolCallDelta"
    (.cons (.required "content" ToolCallContent.codec) <|
      .cons (.required "parse_status" ParseStatus.codec) .nil)
    (fun (content, parseStatus, ()) => ⟨content, parseStatus⟩)
    (fun d => (d.content, d.parseStatus, ()))

end StackBridge.Chat
