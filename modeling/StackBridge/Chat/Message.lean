/-
Messages of the chat schema. One shape serves every role; the parts that only some roles have are
optional and are left out of the document when they are not set.
-/
import StackBridge.Chat.Tool

namespace StackBridge.Chat

/-- Who speaks. Tool responses have the role `ipython`. -/
inductive Role where
  | system
  | user
  | assistant
  | ipython
deriving DecidableEq, Repr

/-- Why the model stopped. -/
inductive StopReason where
  | endOfTurn
  | endOfMessage
  | outOfTokens
deriving DecidableEq, Repr

/-- Where an image is found. -/
structure ImageUrl where
  uri : String
deriving DecidableEq, Repr

/-- An image as content. -/
structure ImageMedia where
  image : ImageUrl
deriving DecidableEq, Repr

/-- One part of a message that has several. -/
inductive ContentItem where
  | text (text : String)
  | media (media : ImageMedia)
deriving DecidableEq, Repr

/-- What a message says: a text, an image, or a list of both. -/
inductive Content where
  | text (text : String)
  | media (media : ImageMedia)
  | items (items : List ContentItem)
deriving DecidableEq, Repr

/-- A message of a conversation. -/
structure Message where
  role : Role
  content : Content
  stopReason : Option StopReason := none
  toolCalls : Option (List ToolCall) := none
  callId : Option String := none
  toolName : Option String := none
deriving DecidableEq, Repr

def Role.name : Role → String
  | .system => "system"
  | .user => "user"
  | .assistant => "assistant"
  | .ipython => "ipython"

def StopReason.name : StopReason → String
  | .endOfTurn => "end_of_turn"
  | .endOfMessage => "end_of_message"
  | .outOfTokens => "out_of_tokens"

/-- The text of a content that is nothing but text. -/
def Content.asText : Content → Option String
  | .text words => some words
  | _ => none

namespace Message

def ofSystem (text : String) : Message :=
  { role := .system, content := .text text }

def ofUser (text : String) : Message :=
  { role := .user, content := .text text }

/-- A turn of the assistant, as an earlier completion produced it. -/
def ofCompletion (text : String) (stopReason : StopReason) (toolCalls : List ToolCall) : Message :=
  { role := .assistant, content := .text text, stopReason := some stopReason,
    toolCalls := some toolCalls }

/-- The result of a tool call, fed back to the model. -/
def ofToolResponse (callId toolName text : String) : Message :=
  { role := .ipython, content := .text text, callId := some callId, toolName := some toolName }

end Message

def Role.wireName : Role → String
  | .system => "system"
  | .user => "user"
  | .assistant => "assistant"
  | .ipython => "ipython"

def Role.codec : Codec Role :=
  Codec.named [.system, .user, .assistant, .ipython] Role.wireName

def StopReason.wireName : StopReason → String
  | .endOfTurn => "end_of_turn"
  | .endOfMessage => "end_of_message"
  | .outOfTokens => "out_of_tokens"

def StopReason.codec : Codec StopReason :=
  Codec.named [.endOfTurn, .endOfMessage, .outOfTokens] StopReason.wireName

def ImageUrl.codec : Codec ImageUrl :=
  Codec.record "ImageUrl" (.cons (.required "uri" .string) .nil)
    (fun (uri, ()) => ⟨uri⟩) (fun url => (url.uri, ()))

def ImageMedia.codec : Codec ImageMedia :=
  Codec.record "ImageMedia" (.cons (.required "image" ImageUrl.codec) .nil)
    (fun (image, ()) => ⟨image⟩) (fun media => (media.image, ()))

def ContentItem.codec : Codec ContentItem :=
  Codec.untagged "ContentItem"
    (fun
      | .text words => Codec.string.encode words
      | .media image => ImageMedia.codec.encode image)
    [Codec.alternative .string .text, Codec.alternative ImageMedia.codec .media]

/-- Content is written as its text, its image or its list of items. An image is tried before a
list, so a list that holds a list of one address alone reads as an image. -/
def Content.codec : Codec Content :=
  Codec.untagged "MessageContent"
    (fun
      | .text words => Codec.string.encode words
      | .media image => ImageMedia.codec.encode image
      | .items parts => ContentItem.codec.list.encode parts)
    [Codec.alternative .string .text, Codec.alternative ImageMedia.codec .media,
      Codec.alternative ContentItem.codec.list .items]

/-- A message on the wire. What only some roles carry is left out where it is not set. -/
def Message.codec : Codec Message :=
  Codec.record "Message"
    (.cons (.required "role" Role.codec) <|
      .cons (.required "content" Content.codec) <|
      .cons (.optional "stop_reason" StopReason.codec) <|
      .cons (.optional "tool_calls" ToolCall.codec.list) <|
      .cons (.optional "call_id" .string) <|
      .cons (.optional "tool_name" .string) .nil)
    (fun (role, content, stopReason, toolCalls, callId, toolName, ()) =>
      ⟨role, content, stopReason, toolCalls, callId, toolName⟩)
    (fun m => (m.role, m.content, m.stopReason, m.toolCalls, m.callId, m.toolName, ()))

end StackBridge.Chat
