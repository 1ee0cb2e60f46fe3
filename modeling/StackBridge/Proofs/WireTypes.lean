/-
The types on the wire. All of them are faithful: what is decoded comes back from what it is written
as. Of the untagged ones, content comes back whatever it is, since what each alternative is written
as fits no alternative before it.
-/
import StackBridge.Chat.Response
import StackBridge.Proofs.RoundTrip
import StackBridge.Provider.Completion
import StackBridge.Provider.Request

namespace StackBridge

open Codec

namespace Chat

theorem ToolParameter.faithful : ToolParameter.codec.Faithful :=
  faithful_record (by decide) (fun _ => rfl) (fun _ => rfl)
    ⟨.required total_string.faithful, .optional total_string.faithful,
      .withDefault total_bool.faithful (total_bool.restores true), .optional faithful_any, trivial⟩

theorem ToolDefinition.faithful : ToolDefinition.codec.Faithful :=
  faithful_record (by decide) (fun _ => rfl) (fun _ => rfl)
    ⟨.required total_string.faithful, .optional total_string.faithful,
      .optional ToolParameter.faithful.map, trivial⟩

theorem ToolChoice.faithful : ToolChoice.codec.Faithful := faithful_named _ _

theorem ToolCall.faithful : ToolCall.codec.Faithful :=
  faithful_record (by decide) (fun _ => rfl) (fun _ => rfl)
    ⟨.required total_string.faithful, .required total_string.faithful, .required faithful_any.map,
      trivial⟩

theorem ParseStatus.faithful : ParseStatus.codec.Faithful := faithful_named _ _

/-- A structure is written as an object. -/
theorem solid_of_object {json : Json} (hobject : ∃ members, json = .object members) :
    json.normal ≠ .null ∧ ∀ words, json.normal ≠ .string words := by
  obtain ⟨members, rfl⟩ := hobject
  simp [Json.normal_object]

theorem ToolCallContent.faithful : ToolCallContent.codec.Faithful :=
  faithful_textOr ToolCall.faithful (fun _ => solid_of_object ⟨_, rfl⟩) (fun _ => rfl)
    (fun _ => rfl)

theorem ToolCallDelta.faithful : ToolCallDelta.codec.Faithful :=
  faithful_record (by decide) (fun _ => rfl) (fun _ => rfl)
    ⟨.required ToolCallContent.faithful, .required ParseStatus.faithful, trivial⟩

theorem Role.faithful : Role.codec.Faithful := faithful_named _ _

theorem StopReason.faithful : StopReason.codec.Faithful := faithful_named _ _

theorem ImageUrl.restores (url : ImageUrl) : ImageUrl.codec.Restores url :=
  (restores_record_iff (by decide) (fun _ => rfl) (fun _ => rfl) url).2
    ⟨total_string.restores url.uri, trivial⟩

theorem ImageMedia.restores (media : ImageMedia) : ImageMedia.codec.Restores media :=
  (restores_record_iff (by decide) (fun _ => rfl) (fun _ => rfl) media).2
    ⟨media.image.restores, trivial⟩

theorem ContentItem.restores : (item : ContentItem) → ContentItem.codec.Restores item
  | .text _ => restores_untagged_text rfl _
  | .media image => restores_untagged_other image.restores rfl (solid_of_object ⟨_, rfl⟩).2 _

/-- Neither a text nor an image is written as an address. -/
theorem ContentItem.encode_not_url (item : ContentItem) (url : ImageUrl) :
    ImageUrl.codec.decode (ContentItem.codec.encode item).normal ≠ .ok url := by
  intro hurl
  cases item with
  | text words => cases hurl
  | media image =>
      obtain ⟨values, hreads, -⟩ := (record_ofJson_object_iff (by decide)).1 hurl
      cases hreads.1

/-- So a list of items is not written as an image, which as a list begins with an address. -/
theorem ContentItem.encode_list_not_media (items : List ContentItem) (image : ImageMedia) :
    ImageMedia.codec.decode (ContentItem.codec.list.encode items).normal ≠ .ok image := by
  intro himage
  rw [Codec.list, Json.normal_array] at himage
  obtain ⟨⟨values, left⟩, hvalues, -⟩ := bind_eq_ok_iff.1 himage
  cases items with
  | nil => cases hvalues
  | cons item rest =>
      obtain ⟨url, hurl, -⟩ := bind_eq_ok_iff.1 hvalues
      exact item.encode_not_url url hurl

/-- Every content comes back. Images are tried before lists, but no list is written as one that is
read as an image. -/
theorem Content.restores : (content : Content) → Content.codec.Restores content
  | .text _ => restores_untagged_text rfl _
  | .media image => restores_untagged_other image.restores rfl (solid_of_object ⟨_, rfl⟩).2 _
  | .items parts => by
      have hparts : ContentItem.codec.list.Restores parts :=
        (restores_list_iff parts).2 fun part _ => part.restores
      have hmedia : alternative ImageMedia.codec Content.media
          (ContentItem.codec.list.encode parts).normal = none := by
        rw [Option.eq_none_iff_forall_not_mem]
        intro content hcontent
        obtain ⟨image, himage, -⟩ := alternative_eq_some_iff.1 hcontent
        exact ContentItem.encode_list_not_media parts image himage
      have htext : alternative .string Content.text (ContentItem.codec.list.encode parts).normal =
          none := alternative_string_of_solid fun words hwords => by
        rw [Codec.list, Json.normal_array] at hwords
        cases hwords
      have hencode : Content.codec.encode (.items parts) =
          ContentItem.codec.list.encode parts := rfl
      rw [Restores, hencode, Content.codec, decode_untagged_eq_ok_iff, List.findSome?_cons, htext,
        List.findSome?_cons, hmedia, List.findSome?_cons, alternative_of_ok hparts]

theorem ImageUrl.total : ImageUrl.codec.Total :=
  ⟨restores, fun _ => (solid_of_object ⟨_, rfl⟩).1⟩

theorem ImageMedia.total : ImageMedia.codec.Total :=
  ⟨restores, fun _ => (solid_of_object ⟨_, rfl⟩).1⟩

theorem ContentItem.total : ContentItem.codec.Total :=
  ⟨restores, fun
    | .text _ => by simp [ContentItem.codec, untagged, Codec.string, Json.normal]
    | .media _ => (solid_of_object ⟨_, rfl⟩).1⟩

theorem Content.total : Content.codec.Total :=
  ⟨restores, fun
    | .text _ => by simp [Content.codec, untagged, Codec.string, Json.normal]
    | .media _ => (solid_of_object ⟨_, rfl⟩).1
    | .items _ => by simp [Content.codec, untagged, Codec.list]⟩

theorem Message.faithful : Message.codec.Faithful :=
  faithful_record (by decide) (fun _ => rfl) (fun _ => rfl)
    ⟨.required Role.faithful, .required Content.total.faithful, .optional StopReason.faithful,
      .optional ToolCall.faithful.list, .optional total_string.faithful,
      .optional total_string.faithful, trivial⟩

theorem SamplingStrategy.faithful : SamplingStrategy.codec.Faithful :=
  total_string.faithful.mapped name_ofName

theorem SamplingParams.faithful : SamplingParams.codec.Faithful :=
  faithful_record (by decide) (fun _ => rfl) (fun _ => rfl)
    ⟨.withDefault SamplingStrategy.faithful rfl, .withDefault total_float.faithful.option rfl,
      .withDefault total_float.faithful.option rfl, .withDefault total_int64.faithful.option rfl,
      .withDefault total_float.faithful.option rfl, .withDefault total_uint32.faithful.option rfl,
      trivial⟩

theorem LogProbConfig.faithful : LogProbConfig.codec.Faithful :=
  faithful_record (by decide) (fun _ => rfl) (fun _ => rfl)
    ⟨.nullable total_uint32.faithful, trivial⟩

theorem Request.faithful : Request.codec.Faithful :=
  faithful_record (by decide) (fun _ => rfl) (fun _ => rfl)
    ⟨.required total_string.faithful, .required Message.faithful.list,
      .optional SamplingParams.faithful, .optional ToolDefinition.faithful.list,
      .optional ToolChoice.faithful, .optional LogProbConfig.faithful,
      .withDefault total_bool.faithful (total_bool.restores false), trivial⟩

theorem CompletionMessage.faithful : CompletionMessage.codec.Faithful :=
  faithful_record (by decide) (fun _ => rfl) (fun _ => rfl)
    ⟨.required Role.faithful, .required total_string.faithful, .required StopReason.faithful,
      .withDefault ToolCall.faithful.list rfl, trivial⟩

theorem TokenLogProbs.faithful : TokenLogProbs.codec.Faithful :=
  faithful_record (by decide) (fun _ => rfl) (fun _ => rfl)
    ⟨.required total_float.faithful.map, trivial⟩

theorem Response.faithful : Response.codec.Faithful :=
  faithful_record (by decide) (fun _ => rfl) (fun _ => rfl)
    ⟨.required CompletionMessage.faithful, .optional TokenLogProbs.faithful.list, trivial⟩

theorem EventType.faithful : EventType.codec.Faithful := faithful_named _ _

theorem EventDelta.faithful : EventDelta.codec.Faithful :=
  faithful_textOr ToolCallDelta.faithful (fun _ => solid_of_object ⟨_, rfl⟩) (fun _ => rfl)
    (fun _ => rfl)

theorem Event.faithful : Event.codec.Faithful :=
  faithful_record (by decide) (fun _ => rfl) (fun _ => rfl)
    ⟨.required EventType.faithful, .required EventDelta.faithful,
      .optional TokenLogProbs.faithful.list, .optional StopReason.faithful, trivial⟩

theorem EventChunk.faithful : EventChunk.codec.Faithful :=
  faithful_record (by decide) (fun _ => rfl) (fun _ => rfl) ⟨.required Event.faithful, trivial⟩

end Chat

namespace Provider

theorem Extension.faithful : Extension.codec.Faithful :=
  faithful_record (by decide) (fun _ => rfl) (fun _ => rfl)
    ⟨.optional total_int64.faithful, .optional total_float.faithful, trivial⟩

theorem ExtraBody.faithful : ExtraBody.codec.Faithful :=
  faithful_record (by decide) (fun _ => rfl) (fun _ => rfl) ⟨.required Extension.faithful, trivial⟩

theorem Message.faithful : Message.codec.Faithful :=
  faithful_record (by decide) (fun _ => rfl) (fun _ => rfl)
    ⟨.required total_string.faithful, .required Chat.Content.total.faithful,
      .optional total_string.faithful, .optional Chat.ToolCall.faithful.list,
      .optional total_string.faithful, .optional total_string.faithful, trivial⟩

theorem Request.faithful : Request.codec.Faithful :=
  faithful_record (by decide) (fun _ => rfl) (fun _ => rfl)
    ⟨.required total_string.faithful, .required Message.faithful.list,
      .required total_bool.faithful, .required total_uint32.faithful, .required ExtraBody.faithful,
      .required total_string.faithful.map, .optional Chat.ToolDefinition.faithful.list,
      .optional total_string.faithful, .optional total_bool.faithful,
      .optional total_uint32.faithful, .optional total_uint32.faithful,
      .optional total_float.faithful, .optional total_float.faithful, trivial⟩

theorem FunctionCall.faithful : FunctionCall.codec.Faithful :=
  faithful_record (by decide) (fun _ => rfl) (fun _ => rfl)
    ⟨.required total_string.faithful, .required total_string.faithful, trivial⟩

theorem ToolCall.faithful : ToolCall.codec.Faithful :=
  faithful_record (by decide) (fun _ => rfl) (fun _ => rfl)
    ⟨.required total_string.faithful, .withDefault total_string.faithful (total_string.restores _),
      .required FunctionCall.faithful, trivial⟩

theorem TopLogprob.faithful : TopLogprob.codec.Faithful :=
  faithful_record (by decide) (fun _ => rfl) (fun _ => rfl)
    ⟨.required total_string.faithful, .required total_float.faithful, trivial⟩

theorem TokenLogprob.faithful : TokenLogprob.codec.Faithful :=
  faithful_record (by decide) (fun _ => rfl) (fun _ => rfl)
    ⟨.required total_string.faithful, .required total_float.faithful,
      .withDefault TopLogprob.faithful.list rfl, trivial⟩

theorem Logprobs.faithful : Logprobs.codec.Faithful :=
  faithful_record (by decide) (fun _ => rfl) (fun _ => rfl)
    ⟨.nullable TokenLogprob.faithful.list, trivial⟩

theorem ChoiceMessage.faithful : ChoiceMessage.codec.Faithful :=
  faithful_record (by decide) (fun _ => rfl) (fun _ => rfl)
    ⟨.nullable total_string.faithful, .nullable total_string.faithful,
      .nullable ToolCall.faithful.list, trivial⟩

theorem Choice.faithful : Choice.codec.Faithful :=
  faithful_record (by decide) (fun _ => rfl) (fun _ => rfl)
    ⟨.withDefault total_uint32.faithful (total_uint32.restores 0), .nullable ChoiceMessage.faithful,
      .nullable total_string.faithful, .nullable Logprobs.faithful, trivial⟩

theorem Completion.faithful : Completion.codec.Faithful :=
  faithful_record (by decide) (fun _ => rfl) (fun _ => rfl)
    ⟨.withDefault total_string.faithful (total_string.restores _),
      .withDefault total_string.faithful (total_string.restores _),
      .withDefault Choice.faithful.list rfl, .optional faithful_any, trivial⟩

theorem PartialFunction.faithful : PartialFunction.codec.Faithful :=
  faithful_record (by decide) (fun _ => rfl) (fun _ => rfl)
    ⟨.nullable total_string.faithful, .nullable total_string.faithful, trivial⟩

theorem PartialToolCall.faithful : PartialToolCall.codec.Faithful :=
  faithful_record (by decide) (fun _ => rfl) (fun _ => rfl)
    ⟨.withDefault total_uint32.faithful (total_uint32.restores 0), .nullable total_string.faithful,
      .nullable total_string.faithful, .nullable PartialFunction.faithful, trivial⟩

theorem Delta.faithful : Delta.codec.Faithful :=
  faithful_record (by decide) (fun _ => rfl) (fun _ => rfl)
    ⟨.nullable total_string.faithful, .nullable total_string.faithful,
      .nullable PartialToolCall.faithful.list, trivial⟩

theorem Delta.restores_empty : Delta.codec.Restores {} :=
  (restores_record_iff (by decide) (fun _ => rfl) (fun _ => rfl) _).2
    ⟨restores_option_none, restores_option_none, restores_option_none, trivial⟩

theorem ChunkChoice.faithful : ChunkChoice.codec.Faithful :=
  faithful_record (by decide) (fun _ => rfl) (fun _ => rfl)
    ⟨.withDefault total_uint32.faithful (total_uint32.restores 0),
      .withDefault Delta.faithful Delta.restores_empty, .nullable total_string.faithful,
      .nullable Logprobs.faithful, trivial⟩

theorem Chunk.faithful : Chunk.codec.Faithful :=
  faithful_record (by decide) (fun _ => rfl) (fun _ => rfl)
    ⟨.withDefault total_string.faithful (total_string.restores _),
      .withDefault total_string.faithful (total_string.restores _),
      .withDefault ChunkChoice.faithful.list rfl, trivial⟩

end Provider

/-- The types that are written on the wire, those of the chat schema first. -/
inductive WireType where
  | toolParameter
  | toolDefinition
  | toolChoice
  | toolCall
  | parseStatus
  | toolCallContent
  | toolCallDelta
  | role
  | stopReason
  | imageUrl
  | imageMedia
  | contentItem
  | content
  | message
  | samplingStrategy
  | samplingParams
  | logProbConfig
  | request
  | completionMessage
  | tokenLogProbs
  | response
  | eventType
  | eventDelta
  | event
  | eventChunk
  | extension
  | extraBody
  | providerMessage
  | providerRequest
  | functionCall
  | providerToolCall
  | topLogprob
  | tokenLogprob
  | logprobs
  | choiceMessage
  | choice
  | completion
  | partialFunction
  | partialToolCall
  | delta
  | chunkChoice
  | chunk
deriving DecidableEq, Repr

namespace WireType

def Carrier : WireType → Type
  | toolParameter => Chat.ToolParameter
  | toolDefinition => Chat.ToolDefinition
  | toolChoice => Chat.ToolChoice
  | toolCall => Chat.ToolCall
  | parseStatus => Chat.ParseStatus
  | toolCallContent => Chat.ToolCallContent
  | toolCallDelta => Chat.ToolCallDelta
  | role => Chat.Role
  | stopReason => Chat.StopReason
  | imageUrl => Chat.ImageUrl
  | imageMedia => Chat.ImageMedia
  | contentItem => Chat.ContentItem
  | content => Chat.Content
  | message => Chat.Message
  | samplingStrategy => Chat.SamplingStrategy
  | samplingParams => Chat.SamplingParams
  | logProbConfig => Chat.LogProbConfig
  | request => Chat.Request
  | completionMessage => Chat.CompletionMessage
  | tokenLogProbs => Chat.TokenLogProbs
  | response => Chat.Response
  | eventType => Chat.EventType
  | eventDelta => Chat.EventDelta
  | event => Chat.Event
  | eventChunk => Chat.EventChunk
  | extension => Provider.Extension
  | extraBody => Provider.ExtraBody
  | providerMessage => Provider.Message
  | providerRequest => Provider.Request
  | functionCall => Provider.FunctionCall
  | providerToolCall => Provider.ToolCall
  | topLogprob => Provider.TopLogprob
  | tokenLogprob => Provider.TokenLogprob
  | logprobs => Provider.Logprobs
  | choiceMessage => Provider.ChoiceMessage
  | choice => Provider.Choice
  | completion => Provider.Completion
  | partialFunction => Provider.PartialFunction
  | partialToolCall => Provider.PartialToolCall
  | delta => Provider.Delta
  | chunkChoice => Provider.ChunkChoice
  | chunk => Provider.Chunk

/-- How the values of a type are written and decoded. -/
def codec : (wire : WireType) → Codec wire.Carrier
  | toolParameter => Chat.ToolParameter.codec
  | toolDefinition => Chat.ToolDefinition.codec
  | toolChoice => Chat.ToolChoice.codec
  | toolCall => Chat.ToolCall.codec
  | parseStatus => Chat.ParseStatus.codec
  | toolCallContent => Chat.ToolCallContent.codec
  | toolCallDelta => Chat.ToolCallDelta.codec
  | role => Chat.Role.codec
  | stopReason => Chat.StopReason.codec
  | imageUrl => Chat.ImageUrl.codec
  | imageMedia => Chat.ImageMedia.codec
  | contentItem => Chat.ContentItem.codec
  | content => Chat.Content.codec
  | message => Chat.Message.codec
  | samplingStrategy => Chat.SamplingStrategy.codec
  | samplingParams => Chat.SamplingParams.codec
  | logProbConfig => Chat.LogProbConfig.codec
  | request => Chat.Request.codec
  | completionMessage => Chat.CompletionMessage.codec
  | tokenLogProbs => Chat.TokenLogProbs.codec
  | response => Chat.Response.codec
  | eventType => Chat.EventType.codec
  | eventDelta => Chat.EventDelta.codec
  | event => Chat.Event.codec
  | eventChunk => Chat.EventChunk.codec
  | extension => Provider.Extension.codec
  | extraBody => Provider.ExtraBody.codec
  | providerMessage => Provider.Message.codec
  | providerRequest => Provider.Request.codec
  | functionCall => Provider.FunctionCall.codec
  | providerToolCall => Provider.ToolCall.codec
  | topLogprob => Provider.TopLogprob.codec
  | tokenLogprob => Provider.TokenLogprob.codec
  | logprobs => Provider.Logprobs.codec
  | choiceMessage => Provider.ChoiceMessage.codec
  | choice => Provider.Choice.codec
  | completion => Provider.Completion.codec
  | partialFunction => Provider.PartialFunction.codec
  | partialToolCall => Provider.PartialToolCall.codec
  | delta => Provider.Delta.codec
  | chunkChoice => Provider.ChunkChoice.codec
  | chunk => Provider.Chunk.codec

/-- All types of the wire are faithful. -/
theorem faithful : (wire : WireType) → wire.codec.Faithful
  | toolParameter => Chat.ToolParameter.faithful
  | toolDefinition => Chat.ToolDefinition.faithful
  | toolChoice => Chat.ToolChoice.faithful
  | toolCall => Chat.ToolCall.faithful
  | parseStatus => Chat.ParseStatus.faithful
  | toolCallContent => Chat.ToolCallContent.faithful
  | toolCallDelta => Chat.ToolCallDelta.faithful
  | role => Chat.Role.faithful
  | stopReason => Chat.StopReason.faithful
  | imageUrl => Chat.ImageUrl.total.faithful
  | imageMedia => Chat.ImageMedia.total.faithful
  | contentItem => Chat.ContentItem.total.faithful
  | content => Chat.Content.total.faithful
  | message => Chat.Message.faithful
  | samplingStrategy => Chat.SamplingStrategy.faithful
  | samplingParams => Chat.SamplingParams.faithful
  | logProbConfig => Chat.LogProbConfig.faithful
  | request => Chat.Request.faithful
  | completionMessage => Chat.CompletionMessage.faithful
  | tokenLogProbs => Chat.TokenLogProbs.faithful
  | response => Chat.Response.faithful
  | eventType => Chat.EventType.faithful
  | eventDelta => Chat.EventDelta.faithful
  | event => Chat.Event.faithful
  | eventChunk => Chat.EventChunk.faithful
  | extension => Provider.Extension.faithful
  | extraBody => Provider.ExtraBody.faithful
  | providerMessage => Provider.Message.faithful
  | providerRequest => Provider.Request.faithful
  | functionCall => Provider.FunctionCall.faithful
  | providerToolCall => Provider.ToolCall.faithful
  | topLogprob => Provider.TopLogprob.faithful
  | tokenLogprob => Provider.TokenLogprob.faithful
  | logprobs => Provider.Logprobs.faithful
  | choiceMessage => Provider.ChoiceMessage.faithful
  | choice => Provider.Choice.faithful
  | completion => Provider.Completion.faithful
  | partialFunction => Provider.PartialFunction.faithful
  | partialToolCall => Provider.PartialToolCall.faithful
  | delta => Provider.Delta.faithful
  | chunkChoice => Provider.ChunkChoice.faithful
  | chunk => Provider.Chunk.faithful

/-- The optional fields of a type, and whether each is unset in a value. -/
def optionals : (wire : WireType) → wire.Carrier → List (String × Bool)
  | toolParameter, p => [("description", p.description.isNone), ("default", p.fallback.isNone)]
  | toolDefinition, d =>
      [("description", d.description.isNone), ("parameters", d.parameters.isNone)]
  | message, m =>
      [("stop_reason", m.stopReason.isNone), ("tool_calls", m.toolCalls.isNone),
        ("call_id", m.callId.isNone), ("tool_name", m.toolName.isNone)]
  | logProbConfig, c => [("top_k", c.topK.isNone)]
  | request, r =>
      [("sampling_params", r.samplingParams.isNone), ("tools", r.tools.isNone),
        ("tool_choice", r.toolChoice.isNone), ("logprobs", r.logprobs.isNone)]
  | response, r => [("logprobs", r.logprobs.isNone)]
  | event, e => [("logprobs", e.logprobs.isNone), ("stop_reason", e.stopReason.isNone)]
  | extension, e =>
      [("top_k", e.topK.isNone), ("repetition_penalty", e.repetitionPenalty.isNone)]
  | providerMessage, m =>
      [("stop_reason", m.stopReason.isNone), ("tool_calls", m.toolCalls.isNone),
        ("call_id", m.callId.isNone), ("tool_name", m.toolName.isNone)]
  | providerRequest, r =>
      [("tools", r.tools.isNone), ("tool_choice", r.toolChoice.isNone),
        ("logprobs", r.logprobs.isNone), ("top_logprobs", r.topLogprobs.isNone),
        ("max_tokens", r.maxTokens.isNone), ("temperature", r.temperature.isNone),
        ("top_p", r.topP.isNone)]
  | logprobs, l => [("content", l.content.isNone)]
  | choiceMessage, m =>
      [("role", m.role.isNone), ("content", m.content.isNone), ("tool_calls", m.toolCalls.isNone)]
  | choice, c =>
      [("message", c.message.isNone), ("finish_reason", c.finishReason.isNone),
        ("logprobs", c.logprobs.isNone)]
  | completion, c => [("usage", c.usage.isNone)]
  | partialFunction, f => [("name", f.name.isNone), ("arguments", f.arguments.isNone)]
  | partialToolCall, c =>
      [("id", c.id.isNone), ("type", c.kind.isNone), ("function", c.function.isNone)]
  | delta, d =>
      [("role", d.role.isNone), ("content", d.content.isNone), ("tool_calls", d.toolCalls.isNone)]
  | chunkChoice, c =>
      [("finish_reason", c.finishReason.isNone), ("logprobs", c.logprobs.isNone)]
  | _, _ => []

end WireType

/-- Whether an object has no member of that name, or null in its place. -/
def Json.Lacks (json : Json) (name : String) : Prop :=
  ∃ members, json = .object members ∧
    (json.member? name = none ∨ json.member? name = some .null)

/-- An optional field is unset if its member is lacking. -/
theorem Field.eq_none_of_reads {α : Type} {name : String} {codec : Codec α} {value : Option α}
    {members : List (String × Json)}
    (hreads : (optional name codec).Reads ((members.reverse.lookup name).map Json.normal) value)
    (hlacks : (Json.object members).Lacks name) : value = none := by
  obtain ⟨same, hsame, hmember⟩ := hlacks
  rw [Json.member?_object] at hmember
  rcases hmember with hnone | hnull
  · rw [hnone] at hreads
    cases hreads
    rfl
  · rw [hnull] at hreads
    cases hreads
    rfl

open StackBridge.Field (eq_none_of_reads) in
/-- What an object lacks is unset in what is decoded from it. -/
theorem WireType.isNone_of_lacks (wire : WireType) {members : List (String × Json)}
    {value : wire.Carrier}
    (hvalue : wire.codec.decode (Json.object members).normal = .ok value) :
    ∀ field ∈ wire.optionals value, (Json.object members).Lacks field.1 → field.2 = true := by
  cases wire with
  | toolParameter =>
      obtain ⟨values, ⟨-, hdescription, -, hfallback, -⟩, rfl⟩ :=
        (record_ofJson_object_iff (by decide)).1 hvalue
      simpa [optionals] using ⟨eq_none_of_reads hdescription, eq_none_of_reads hfallback⟩
  | toolDefinition =>
      obtain ⟨values, ⟨-, hdescription, hparameters, -⟩, rfl⟩ :=
        (record_ofJson_object_iff (by decide)).1 hvalue
      simpa [optionals] using ⟨eq_none_of_reads hdescription, eq_none_of_reads hparameters⟩
  | message =>
      obtain ⟨values, ⟨-, -, hreason, hcalls, hcallId, htool, -⟩, rfl⟩ :=
        (record_ofJson_object_iff (by decide)).1 hvalue
      simpa [optionals] using
        ⟨eq_none_of_reads hreason, eq_none_of_reads hcalls, eq_none_of_reads hcallId,
          eq_none_of_reads htool⟩
  | logProbConfig =>
      obtain ⟨values, ⟨htopK, -⟩, rfl⟩ :=
        (record_ofJson_object_iff (by decide)).1 hvalue
      simpa [optionals, Field.nullable] using eq_none_of_reads htopK
  | request =>
      obtain ⟨values, ⟨-, -, hparams, htools, hchoice, hlogprobs, -⟩, rfl⟩ :=
        (record_ofJson_object_iff (by decide)).1 hvalue
      simpa [optionals] using
        ⟨eq_none_of_reads hparams, eq_none_of_reads htools, eq_none_of_reads hchoice,
          eq_none_of_reads hlogprobs⟩
  | response =>
      obtain ⟨values, ⟨-, hlogprobs, -⟩, rfl⟩ :=
        (record_ofJson_object_iff (by decide)).1 hvalue
      simpa [optionals, Field.optional] using eq_none_of_reads hlogprobs
  | event =>
      obtain ⟨values, ⟨-, -, hlogprobs, hreason, -⟩, rfl⟩ :=
        (record_ofJson_object_iff (by decide)).1 hvalue
      simpa [optionals] using ⟨eq_none_of_reads hlogprobs, eq_none_of_reads hreason⟩
  | extension =>
      obtain ⟨values, ⟨htopK, hpenalty, -⟩, rfl⟩ :=
        (record_ofJson_object_iff (by decide)).1 hvalue
      simpa [optionals] using ⟨eq_none_of_reads htopK, eq_none_of_reads hpenalty⟩
  | providerMessage =>
      obtain ⟨values, ⟨-, -, hreason, hcalls, hcallId, htool, -⟩, rfl⟩ :=
        (record_ofJson_object_iff (by decide)).1 hvalue
      simpa [optionals] using
        ⟨eq_none_of_reads hreason, eq_none_of_reads hcalls, eq_none_of_reads hcallId,
          eq_none_of_reads htool⟩
  | providerRequest =>
      obtain ⟨values, ⟨-, -, -, -, -, -, htools, hchoice, hlogprobs, htop, hlimit, htemperature,
          htopP, -⟩, rfl⟩ :=
        (record_ofJson_object_iff (by decide)).1 hvalue
      simpa [optionals] using
        ⟨eq_none_of_reads htools, eq_none_of_reads hchoice, eq_none_of_reads hlogprobs,
          eq_none_of_reads htop, eq_none_of_reads hlimit, eq_none_of_reads htemperature,
          eq_none_of_reads htopP⟩
  | logprobs =>
      obtain ⟨values, ⟨hcontent, -⟩, rfl⟩ :=
        (record_ofJson_object_iff (by decide)).1 hvalue
      simpa [optionals, Field.nullable] using eq_none_of_reads hcontent
  | choiceMessage =>
      obtain ⟨values, ⟨hrole, hcontent, hcalls, -⟩, rfl⟩ :=
        (record_ofJson_object_iff (by decide)).1 hvalue
      simpa [optionals] using
        ⟨eq_none_of_reads hrole, eq_none_of_reads hcontent, eq_none_of_reads hcalls⟩
  | choice =>
      obtain ⟨values, ⟨-, hmessage, hreason, hlogprobs, -⟩, rfl⟩ :=
        (record_ofJson_object_iff (by decide)).1 hvalue
      simpa [optionals] using
        ⟨eq_none_of_reads hmessage, eq_none_of_reads hreason, eq_none_of_reads hlogprobs⟩
  | completion =>
      obtain ⟨values, ⟨-, -, -, husage, -⟩, rfl⟩ :=
        (record_ofJson_object_iff (by decide)).1 hvalue
      simpa [optionals, Field.optional] using eq_none_of_reads husage
  | partialFunction =>
      obtain ⟨values, ⟨hname, harguments, -⟩, rfl⟩ :=
        (record_ofJson_object_iff (by decide)).1 hvalue
      simpa [optionals] using ⟨eq_none_of_reads hname, eq_none_of_reads harguments⟩
  | partialToolCall =>
      obtain ⟨values, ⟨-, hid, hkind, hfunction, -⟩, rfl⟩ :=
        (record_ofJson_object_iff (by decide)).1 hvalue
      simpa [optionals] using
        ⟨eq_none_of_reads hid, eq_none_of_reads hkind, eq_none_of_reads hfunction⟩
  | delta =>
      obtain ⟨values, ⟨hrole, hcontent, hcalls, -⟩, rfl⟩ :=
        (record_ofJson_object_iff (by decide)).1 hvalue
      simpa [optionals] using
        ⟨eq_none_of_reads hrole, eq_none_of_reads hcontent, eq_none_of_reads hcalls⟩
  | chunkChoice =>
      obtain ⟨values, ⟨-, -, hreason, hlogprobs, -⟩, rfl⟩ :=
        (record_ofJson_object_iff (by decide)).1 hvalue
      simpa [optionals] using ⟨eq_none_of_reads hreason, eq_none_of_reads hlogprobs⟩
  | _ => simp [optionals]

end StackBridge
