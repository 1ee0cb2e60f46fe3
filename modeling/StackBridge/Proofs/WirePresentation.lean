/-
The types on the wire, however their values are presented. Reading a text and decoding its value
come to the same, and neither blanks, nor the order of the members of an object, nor a member of an
unknown name makes a difference. An object that is the only item of a content list stands for the
address of an image as well as for an item, and so has the names of both.
-/
import StackBridge.Proofs.Spacing
import StackBridge.Proofs.UnknownMembers
import StackBridge.Proofs.WireTypes

namespace StackBridge

namespace Chat

open Codec (Outline)

def ToolParameter.outline : ToolParameter.codec.Outline :=
  .record (by decide) <| .cons .string <| .cons (.option .string) <| .cons .bool <|
    .cons (.option .any) .nil

def ToolDefinition.outline : ToolDefinition.codec.Outline :=
  .record (by decide) <| .cons .string <| .cons (.option .string) <|
    .cons (.option (.map ToolParameter.outline)) .nil

def ToolChoice.outline : ToolChoice.codec.Outline := .named

def ToolCall.outline : ToolCall.codec.Outline :=
  .record (by decide) <| .cons .string <| .cons .string <| .cons (.map .any) .nil

def ParseStatus.outline : ParseStatus.codec.Outline := .named

def ToolCallContent.outline : ToolCallContent.codec.Outline :=
  .untagged <| .cons Outline.string.trial <| .cons ToolCall.outline.trial .nil

def ToolCallDelta.outline : ToolCallDelta.codec.Outline :=
  .record (by decide) <| .cons ToolCallContent.outline <| .cons ParseStatus.outline .nil

def Role.outline : Role.codec.Outline := .named

def StopReason.outline : StopReason.codec.Outline := .named

def ImageUrl.outline : ImageUrl.codec.Outline :=
  .record (by decide) <| .cons .string .nil

def ImageMedia.outline : ImageMedia.codec.Outline :=
  .record (by decide) <| .cons ImageUrl.outline .nil

def ContentItem.outline : ContentItem.codec.Outline :=
  .untagged <| .cons Outline.string.trial <| .cons ImageMedia.outline.trial .nil

def Content.outline : Content.codec.Outline :=
  .untagged <| .cons Outline.string.trial <| .cons ImageMedia.outline.trial <|
    .cons ContentItem.outline.list.trial .nil

def Message.outline : Message.codec.Outline :=
  .record (by decide) <| .cons Role.outline <| .cons Content.outline <|
    .cons (.option StopReason.outline) <| .cons (.option (.list ToolCall.outline)) <|
    .cons (.option .string) <| .cons (.option .string) .nil

def SamplingStrategy.outline : SamplingStrategy.codec.Outline := .mapped .string

def SamplingParams.outline : SamplingParams.codec.Outline :=
  .record (by decide) <| .cons SamplingStrategy.outline <| .cons (.option .numeric) <|
    .cons (.option .numeric) <| .cons (.option .numeric) <| .cons (.option .numeric) <|
    .cons (.option .numeric) .nil

def LogProbConfig.outline : LogProbConfig.codec.Outline :=
  .record (by decide) <| .cons (.option .numeric) .nil

def Request.outline : Request.codec.Outline :=
  .record (by decide) <| .cons .string <| .cons (.list Message.outline) <|
    .cons (.option SamplingParams.outline) <| .cons (.option (.list ToolDefinition.outline)) <|
    .cons (.option ToolChoice.outline) <| .cons (.option LogProbConfig.outline) <| .cons .bool .nil

def CompletionMessage.outline : CompletionMessage.codec.Outline :=
  .record (by decide) <| .cons Role.outline <| .cons .string <| .cons StopReason.outline <|
    .cons (.list ToolCall.outline) .nil

def TokenLogProbs.outline : TokenLogProbs.codec.Outline :=
  .record (by decide) <| .cons (.map .numeric) .nil

def Response.outline : Response.codec.Outline :=
  .record (by decide) <| .cons CompletionMessage.outline <|
    .cons (.option (.list TokenLogProbs.outline)) .nil

def EventType.outline : EventType.codec.Outline := .named

def EventDelta.outline : EventDelta.codec.Outline :=
  .untagged <| .cons Outline.string.trial <| .cons ToolCallDelta.outline.trial .nil

def Event.outline : Event.codec.Outline :=
  .record (by decide) <| .cons EventType.outline <| .cons EventDelta.outline <|
    .cons (.option (.list TokenLogProbs.outline)) <| .cons (.option StopReason.outline) .nil

def EventChunk.outline : EventChunk.codec.Outline :=
  .record (by decide) <| .cons Event.outline .nil

end Chat

namespace Provider

def Extension.outline : Extension.codec.Outline :=
  .record (by decide) <| .cons (.option .numeric) <| .cons (.option .numeric) .nil

def ExtraBody.outline : ExtraBody.codec.Outline :=
  .record (by decide) <| .cons Extension.outline .nil

def Message.outline : Message.codec.Outline :=
  .record (by decide) <| .cons .string <| .cons Chat.Content.outline <| .cons (.option .string) <|
    .cons (.option (.list Chat.ToolCall.outline)) <| .cons (.option .string) <|
    .cons (.option .string) .nil

def Request.outline : Request.codec.Outline :=
  .record (by decide) <| .cons .string <| .cons (.list Message.outline) <| .cons .bool <|
    .cons .numeric <| .cons ExtraBody.outline <| .cons (.map .string) <|
    .cons (.option (.list Chat.ToolDefinition.outline)) <| .cons (.option .string) <|
    .cons (.option .bool) <| .cons (.option .numeric) <| .cons (.option .numeric) <|
    .cons (.option .numeric) <| .cons (.option .numeric) .nil

def FunctionCall.outline : FunctionCall.codec.Outline :=
  .record (by decide) <| .cons .string <| .cons .string .nil

def ToolCall.outline : ToolCall.codec.Outline :=
  .record (by decide) <| .cons .string <| .cons .string <| .cons FunctionCall.outline .nil

def TopLogprob.outline : TopLogprob.codec.Outline :=
  .record (by decide) <| .cons .string <| .cons .numeric .nil

def TokenLogprob.outline : TokenLogprob.codec.Outline :=
  .record (by decide) <| .cons .string <| .cons .numeric <| .cons (.list TopLogprob.outline) .nil

def Logprobs.outline : Logprobs.codec.Outline :=
  .record (by decide) <| .cons (.option (.list TokenLogprob.outline)) .nil

def ChoiceMessage.outline : ChoiceMessage.codec.Outline :=
  .record (by decide) <| .cons (.option .string) <| .cons (.option .string) <|
    .cons (.option (.list ToolCall.outline)) .nil

def Choice.outline : Choice.codec.Outline :=
  .record (by decide) <| .cons .numeric <| .cons (.option ChoiceMessage.outline) <|
    .cons (.option .string) <| .cons (.option Logprobs.outline) .nil

def Completion.outline : Completion.codec.Outline :=
  .record (by decide) <| .cons .string <| .cons .string <| .cons (.list Choice.outline) <|
    .cons (.option .any) .nil

def PartialFunction.outline : PartialFunction.codec.Outline :=
  .record (by decide) <| .cons (.option .string) <| .cons (.option .string) .nil

def PartialToolCall.outline : PartialToolCall.codec.Outline :=
  .record (by decide) <| .cons .numeric <| .cons (.option .string) <| .cons (.option .string) <|
    .cons (.option PartialFunction.outline) .nil

def Delta.outline : Delta.codec.Outline :=
  .record (by decide) <| .cons (.option .string) <| .cons (.option .string) <|
    .cons (.option (.list PartialToolCall.outline)) .nil

def ChunkChoice.outline : ChunkChoice.codec.Outline :=
  .record (by decide) <| .cons .numeric <| .cons Delta.outline <| .cons (.option .string) <|
    .cons (.option Logprobs.outline) .nil

def Chunk.outline : Chunk.codec.Outline :=
  .record (by decide) <| .cons .string <| .cons .string <| .cons (.list ChunkChoice.outline) .nil

end Provider

namespace WireType

def outline : (wire : WireType) → wire.codec.Outline
  | toolParameter => Chat.ToolParameter.outline
  | toolDefinition => Chat.ToolDefinition.outline
  | toolChoice => Chat.ToolChoice.outline
  | toolCall => Chat.ToolCall.outline
  | parseStatus => Chat.ParseStatus.outline
  | toolCallContent => Chat.ToolCallContent.outline
  | toolCallDelta => Chat.ToolCallDelta.outline
  | role => Chat.Role.outline
  | stopReason => Chat.StopReason.outline
  | imageUrl => Chat.ImageUrl.outline
  | imageMedia => Chat.ImageMedia.outline
  | contentItem => Chat.ContentItem.outline
  | content => Chat.Content.outline
  | message => Chat.Message.outline
  | samplingStrategy => Chat.SamplingStrategy.outline
  | samplingParams => Chat.SamplingParams.outline
  | logProbConfig => Chat.LogProbConfig.outline
  | request => Chat.Request.outline
  | completionMessage => Chat.CompletionMessage.outline
  | tokenLogProbs => Chat.TokenLogProbs.outline
  | response => Chat.Response.outline
  | eventType => Chat.EventType.outline
  | eventDelta => Chat.EventDelta.outline
  | event => Chat.Event.outline
  | eventChunk => Chat.EventChunk.outline
  | extension => Provider.Extension.outline
  | extraBody => Provider.ExtraBody.outline
  | providerMessage => Provider.Message.outline
  | providerRequest => Provider.Request.outline
  | functionCall => Provider.FunctionCall.outline
  | providerToolCall => Provider.ToolCall.outline
  | topLogprob => Provider.TopLogprob.outline
  | tokenLogprob => Provider.TokenLogprob.outline
  | logprobs => Provider.Logprobs.outline
  | choiceMessage => Provider.ChoiceMessage.outline
  | choice => Provider.Choice.outline
  | completion => Provider.Completion.outline
  | partialFunction => Provider.PartialFunction.outline
  | partialToolCall => Provider.PartialToolCall.outline
  | delta => Provider.Delta.outline
  | chunkChoice => Provider.ChunkChoice.outline
  | chunk => Provider.Chunk.outline

end WireType

/-- For every type on the wire and every text that repeats no name within an object, reading the
text and decoding its value give the same. So does every text with other blanks between its tokens,
and every text of a value with its members in another order and with members that no structure in
their place knows. -/
theorem WireType.presentation_does_not_matter (wire : WireType) {text : String} {json : Json}
    (hparse : Json.parse text = .ok json) (hdistinct : json.Distinct) :
    (∀ value, wire.codec.ofText text = .ok value ↔ wire.codec.ofJson json = .ok value) ∧
      (∀ spaced : String, Json.Respaced false text.toList spaced.toList →
        Json.parse spaced = .ok json ∧
          ∀ value, wire.codec.ofText spaced = .ok value ↔ wire.codec.ofText text = .ok value) ∧
      ∀ (other : String) (restated : Json), Json.parse other = .ok restated →
        wire.outline.shape.Restates json restated → ∀ value,
          (wire.codec.ofText other = .ok value ↔ wire.codec.ofText text = .ok value) ∧
            (wire.codec.ofJson restated = .ok value ↔ wire.codec.ofJson json = .ok value) := by
  have hroutes := wire.outline.ofText_iff_ofJson hparse hdistinct
  refine ⟨hroutes, ?_, ?_⟩
  · intro spaced hrespaced
    have hspaced := Json.parse_of_respaced hrespaced hparse
    refine ⟨hspaced, fun value => ?_⟩
    rw [wire.outline.ofText_iff_ofJson hspaced hdistinct, hroutes]
  · intro other restated hother hrestated value
    obtain ⟨hdistinctOther, hvalues⟩ := wire.outline.ofJson_restated_iff hdistinct hrestated
    rw [wire.outline.ofText_iff_ofJson hother hdistinctOther, hroutes]
    exact ⟨hvalues value, hvalues value⟩

/-- What a choice says, in a member of its own. -/
def saysHi : String × Json :=
  ("delta", .object [("content", .string "hi")])

def comesFirst : String × Json :=
  ("index", .number (.whole ⟨0, by decide⟩))

def spokenChunk : Json :=
  .object [("id", .string "c"), ("choices", .array [.object [comesFirst, saysHi]])]

/-- The chunk with its members the other way around, and with one that chunks do not have. -/
def restatedChunk : Json :=
  .object [("choices", .array [.object [saysHi, comesFirst]]), ("object", .string "chunk"),
    ("id", .string "c")]

theorem restates_spokenChunk : WireType.chunk.outline.shape.Restates spokenChunk restatedChunk := by
  have hextra : WireType.chunk.outline.shape.Padded spokenChunk (.object [("id", .string "c"),
      ("object", .string "chunk"), ("choices", .array [.object [comesFirst, saysHi]])]) :=
    @Shape.Padded.extra _ [("id", .string "c")] [("choices", _)] "object" _ (by decide)
  have hchoice : Json.Reordered (.array [.object [comesFirst, saysHi]])
      (.array [.object [saysHi, comesFirst]]) :=
    @Json.Reordered.item [] [] _ _ (.members (.swap saysHi comesFirst []))
  have hmembers := Json.Reordered.trans
    (@Json.Reordered.member [("id", .string "c"), ("object", .string "chunk")] [] "choices" _ _
      hchoice)
    (.members (List.reverse_perm _).symm)
  refine .tail (.single (Or.inr ⟨hextra, ?_⟩)) (Or.inl hmembers)
  simp [Json.Distinct, Json.DistinctItems, Json.DistinctMembers, comesFirst, saysHi]

/-- The chunk above reads alike in both presentations. -/
theorem spokenChunk_reads_alike : ∃ chunk : Provider.Chunk,
    WireType.chunk.codec.ofText spokenChunk.compact = .ok chunk ∧
      WireType.chunk.codec.ofJson spokenChunk = .ok chunk ∧
      WireType.chunk.codec.ofText restatedChunk.compact = .ok chunk := by
  have hparse : Json.parse spokenChunk.compact = .ok spokenChunk := by decide +kernel
  have hother : Json.parse restatedChunk.compact = .ok restatedChunk := by decide +kernel
  have hdistinct : spokenChunk.Distinct := by
    simp [spokenChunk, Json.Distinct, Json.DistinctItems, Json.DistinctMembers, comesFirst, saysHi]
  have hchunk : Provider.Chunk.codec.ofText spokenChunk.compact =
      .ok ⟨"c", "", [⟨0, ⟨none, some "hi", none⟩, none, none⟩]⟩ := by decide +kernel
  obtain ⟨hroutes, -, hrestated⟩ := WireType.presentation_does_not_matter .chunk hparse hdistinct
  exact ⟨_, hchunk, (hroutes _).1 hchunk,
    ((hrestated _ _ hother restates_spokenChunk _).1).2 hchunk⟩

/-- A request whose only message holds a list with one item. -/
def imageRequest (item : List (String × Json)) : Json :=
  .object [("model", .string "m"), ("messages", .array [.object
    [("role", .string "user"), ("content", .array [.object item])]])]

def imageAt (address : String) : String × Json :=
  ("image", .object [("uri", .string address)])

/-- A member that images do not have can change what a request is decoded to. A list of one object
is also the array form of an image, whose address the object then stands for. -/
theorem image_with_address_decodes_differently :
    Json.parse (imageRequest [imageAt "x"]).compact = .ok (imageRequest [imageAt "x"]) ∧
      Json.parse (imageRequest [imageAt "x", ("uri", .string "y")]).compact =
        .ok (imageRequest [imageAt "x", ("uri", .string "y")]) ∧
      (imageRequest [imageAt "x", ("uri", .string "y")]).Distinct ∧
      Chat.ImageMedia.outline.shape.Padded (.object [imageAt "x"])
        (.object [imageAt "x", ("uri", .string "y")]) ∧
      (WireType.request.codec.ofText (imageRequest [imageAt "x"]).compact).map
          (fun request : Chat.Request => request.messages.map (·.content)) =
        .ok [.items [.media ⟨⟨"x"⟩⟩]] ∧
      (WireType.request.codec.ofText
            (imageRequest [imageAt "x", ("uri", .string "y")]).compact).map
          (fun request : Chat.Request => request.messages.map (·.content)) =
        .ok [.media ⟨⟨"y"⟩⟩] := by
  refine ⟨by decide +kernel, by decide +kernel, ?_, ?_, by decide +kernel, by decide +kernel⟩
  · simp [imageRequest, imageAt, Json.Distinct, Json.DistinctItems, Json.DistinctMembers]
  · exact @Shape.Padded.extra _ [imageAt "x"] [] "uri" _ (by decide)

end StackBridge
