/-
The payload that is sent to the provider. Controls that the provider has no member for travel in
an extension bag, which the body of the HTTP request holds at its top level.
-/
import StackBridge.Chat.Request

namespace StackBridge.Provider

open Chat (Content ToolDefinition)

/-- Sampling controls without a member of their own. -/
structure Extension where
  topK : Option Int64 := none
  repetitionPenalty : Option Float := none
deriving DecidableEq, Repr

/-- What is sent beside the standard members. -/
structure ExtraBody where
  extension : Extension := {}
deriving DecidableEq, Repr

/-- A message in the shape of the provider. -/
structure Message where
  role : String
  content : Content
  stopReason : Option String
  toolCalls : Option (List Chat.ToolCall)
  callId : Option String
  toolName : Option String
deriving DecidableEq, Repr

/-- A request in the shape of the provider. -/
structure Request where
  model : String
  messages : List Message
  stream : Bool
  n : UInt32
  extraBody : ExtraBody
  extraHeaders : SortedMap String
  tools : Option (List ToolDefinition) := none
  toolChoice : Option String := none
  logprobs : Option Bool := none
  topLogprobs : Option UInt32 := none
  maxTokens : Option UInt32 := none
  temperature : Option Float := none
  topP : Option Float := none
deriving DecidableEq, Repr

def Extension.codec : Codec Extension :=
  Codec.record "NvExt"
    (.cons (.optional "top_k" .int64) <| .cons (.optional "repetition_penalty" .float) .nil)
    (fun (topK, repetitionPenalty, ()) => ⟨topK, repetitionPenalty⟩)
    (fun e => (e.topK, e.repetitionPenalty, ()))

/-- What goes beside the request proper, on the wire. -/
def ExtraBody.codec : Codec ExtraBody :=
  Codec.record "ExtraBody" (.cons (.required "nvext" Extension.codec) .nil)
    (fun (extension, ()) => ⟨extension⟩) (fun b => (b.extension, ()))

def Message.codec : Codec Message :=
  Codec.record "ProviderMessage"
    (.cons (.required "role" .string) <|
      .cons (.required "content" Content.codec) <|
      .cons (.optional "stop_reason" .string) <|
      .cons (.optional "tool_calls" Chat.ToolCall.codec.list) <|
      .cons (.optional "call_id" .string) <|
      .cons (.optional "tool_name" .string) .nil)
    (fun (role, content, stopReason, toolCalls, callId, toolName, ()) =>
      ⟨role, content, stopReason, toolCalls, callId, toolName⟩)
    (fun m => (m.role, m.content, m.stopReason, m.toolCalls, m.callId, m.toolName, ()))

def Request.codec : Codec Request :=
  Codec.record "ProviderRequest"
    (.cons (.required "model" .string) <|
      .cons (.required "messages" Message.codec.list) <|
      .cons (.required "stream" .bool) <|
      .cons (.required "n" .uint32) <|
      .cons (.required "extra_body" ExtraBody.codec) <|
      .cons (.required "extra_headers" Codec.string.map) <|
      .cons (.optional "tools" ToolDefinition.codec.list) <|
      .cons (.optional "tool_choice" .string) <|
      .cons (.optional "logprobs" .bool) <|
      .cons (.optional "top_logprobs" .uint32) <|
      .cons (.optional "max_tokens" .uint32) <|
      .cons (.optional "temperature" .float) <|
      .cons (.optional "top_p" .float) .nil)
    (fun (model, messages, stream, n, extraBody, extraHeaders, tools, toolChoice, logprobs,
        topLogprobs, maxTokens, temperature, topP, ()) =>
      ⟨model, messages, stream, n, extraBody, extraHeaders, tools, toolChoice, logprobs,
        topLogprobs, maxTokens, temperature, topP⟩)
    (fun r => (r.model, r.messages, r.stream, r.n, r.extraBody, r.extraHeaders, r.tools,
      r.toolChoice, r.logprobs, r.topLogprobs, r.maxTokens, r.temperature, r.topP, ()))

/-- The members of an object that belong into the body of an HTTP request: the headers are left
out, and the members of the extra body stand beside the others, which they replace. -/
def mergeExtraBody (members : SortedMap Json) : SortedMap Json :=
  let plain := (members.erase "extra_headers").erase "extra_body"
  match members.get? "extra_body" with
  | some (.object extra) => extra.foldl (fun body member => body.insert member.1 member.2) plain
  | _ => plain

def Request.body (request : Request) : SortedMap Json :=
  match Request.codec.toJson request with
  | .object members => mergeExtraBody (SortedMap.ofList members)
  | _ => SortedMap.empty

def Request.headers (request : Request) : List (String × String) :=
  request.extraHeaders.entries

end StackBridge.Provider
