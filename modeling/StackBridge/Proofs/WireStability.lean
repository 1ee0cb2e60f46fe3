/-
What the conversions produce comes back from what it is written as: a payload, because its messages
and tools are those of a request that was decoded; a response or an event, because the arguments of
its calls are read in normal form.
-/
import StackBridge.Conversion.Outgoing
import StackBridge.Proofs.ReaderAnswers
import StackBridge.Proofs.Transcript
import StackBridge.Proofs.WireTypes

namespace StackBridge.Conversion

open Codec

theorem restores_convertMessage {message : Chat.Message}
    (hmessage : Chat.Message.codec.Restores message) :
    Provider.Message.codec.Restores (convertMessage message) := by
  obtain ⟨-, -, -, hcalls, -⟩ :=
    (restores_record_iff (by decide) (fun _ => rfl) (fun _ => rfl) message).1 hmessage
  exact (restores_record_iff (by decide) (fun _ => rfl) (fun _ => rfl) _).2
    ⟨.required_of_total total_string _, .required_of_total Chat.Content.total _,
      .optional_of_total total_string _, hcalls, .optional_of_total total_string _,
      .optional_of_total total_string _, trivial⟩

theorem restores_extension (extension : Provider.Extension) :
    Provider.Extension.codec.Restores extension :=
  (restores_record_iff (by decide) (fun _ => rfl) (fun _ => rfl) _).2
    ⟨.optional_of_total total_int64 _, .optional_of_total total_float _, trivial⟩

theorem restores_extraBody (body : Provider.ExtraBody) : Provider.ExtraBody.codec.Restores body :=
  (restores_record_iff (by decide) (fun _ => rfl) (fun _ => rfl) _).2
    ⟨restores_extension body.extension, trivial⟩

/-- Leaving something out keeps it coming back. -/
theorem restores_option_filter {α : Type} {codec : Codec α} {value : Option α}
    (hvalue : codec.option.Restores value) (keep : α → Bool) :
    codec.option.Restores (value.filter keep) := by
  cases value with
  | none => exact hvalue
  | some held =>
      rw [Option.filter_some]
      split
      · exact hvalue
      · exact restores_option_none

/-- The payload of a request that comes back comes back too. -/
theorem restores_convertRequest {request : Chat.Request}
    (hrequest : Chat.Request.codec.Restores request) (n : UInt32) :
    Provider.Request.codec.Restores (convertRequest request n) := by
  obtain ⟨-, hmessages, -, htools, -⟩ :=
    (restores_record_iff (by decide) (fun _ => rfl) (fun _ => rfl) request).1 hrequest
  have hconverted : Provider.Message.codec.list.Restores (request.messages.map convertMessage) := by
    rw [restores_list_iff]
    intro converted hconverted
    obtain ⟨message, hmessage, rfl⟩ := List.mem_map.1 hconverted
    exact restores_convertMessage ((restores_list_iff _).1 hmessages message hmessage)
  have hforwarded : Chat.ToolDefinition.codec.list.option.Restores
      (request.tools.filter (!·.isEmpty)) :=
    restores_option_filter ((Field.restores_optional_iff _).1 htools) _
  exact (restores_record_iff (by decide) (fun _ => rfl) (fun _ => rfl) (convertRequest request n)).2
    ⟨.required_of_total total_string _, hconverted, .required_of_total total_bool _,
      .required_of_total total_uint32 _, restores_extraBody _,
      .required_of_total total_string.map _,
      (Field.restores_optional_iff _).2 hforwarded, .optional_of_total total_string _,
      .optional_of_total total_bool _, .optional_of_total total_uint32 _,
      .optional_of_total total_uint32 _, .optional_of_total total_float _,
      .optional_of_total total_float _, trivial⟩

theorem total_stopReason : Chat.StopReason.codec.Total :=
  ⟨fun reason => by cases reason <;> rfl,
    fun _ => by simp [Chat.StopReason.codec, named, Json.normal]⟩

theorem total_tokenLogProbs : Chat.TokenLogProbs.codec.Total where
  restores position :=
    (restores_record_iff (by decide) (fun _ => rfl) (fun _ => rfl) position).2
      ⟨.required_of_total total_float.map _, trivial⟩
  solid _ := (Chat.solid_of_object ⟨_, rfl⟩).1

/-- A call that was converted has its arguments in normal form. -/
theorem restores_of_convertToolCall {call : Provider.ToolCallRecord} {converted : Chat.ToolCall}
    (hconverted : convertToolCall call = .ok converted) :
    Chat.ToolCall.codec.Restores converted := by
  cases hparsed : arguments.ofText call.rawArguments with
  | error fault =>
      rw [convertToolCall_of_error hparsed] at hconverted
      cases hconverted
  | ok parsed =>
      rw [convertToolCall_of_ok hparsed] at hconverted
      cases hconverted
      have harguments : Codec.any.map.Restores parsed := restores_map fun entry hentry =>
        (restores_any_iff entry.2).2 (normal_of_arguments hparsed entry hentry)
      exact (restores_record_iff (by decide) (fun _ => rfl) (fun _ => rfl) _).2
        ⟨.required_of_total total_string _, .required_of_total total_string _, harguments, trivial⟩

/-- Every response of the conversion comes back. -/
theorem restores_of_convertChoice {choice : Provider.Choice} {response : Chat.Response}
    (hresponse : convertChoice choice = .ok response) : Chat.Response.codec.Restores response := by
  unfold convertChoice at hresponse
  split at hresponse
  · rename_i message hmessage
    split at hresponse
    · rename_i reason hreason
      obtain ⟨calls, hcalls, hresponse⟩ := bind_eq_ok_iff.1 hresponse
      cases hresponse
      have hconverted : Chat.ToolCall.codec.list.Restores calls := by
        rw [restores_list_iff]
        intro call hcall
        obtain ⟨record, -, hrecord⟩ := mem_of_mapM_eq_ok hcalls hcall
        exact restores_of_convertToolCall hrecord
      have hmessage : Chat.CompletionMessage.codec.Restores
          ⟨.assistant, message.content.getD "", convertFinishReason (some reason), calls⟩ :=
        (restores_record_iff (by decide) (fun _ => rfl) (fun _ => rfl) _).2
          ⟨rfl, .required_of_total total_string _, .required_of_total total_stopReason _,
            hconverted, trivial⟩
      exact (restores_record_iff (by decide) (fun _ => rfl) (fun _ => rfl) _).2
        ⟨hmessage, .optional_of_total total_tokenLogProbs.list _, trivial⟩
    · cases hresponse
  · cases hresponse

theorem restores_of_convertCompletion {completion : Provider.Completion} {response : Chat.Response}
    (hresponse : convertCompletion completion = .ok response) :
    Chat.Response.codec.Restores response := by
  unfold convertCompletion at hresponse
  split at hresponse
  · exact restores_of_convertChoice hresponse
  · cases hresponse

theorem restores_event {event : Chat.Event} (hdelta : Chat.EventDelta.codec.Restores event.delta) :
    Chat.EventChunk.codec.Restores ⟨event⟩ := by
  have htype : Chat.EventType.codec.Restores event.eventType := by
    cases event.eventType <;> rfl
  have hevent : Chat.Event.codec.Restores event :=
    (restores_record_iff (by decide) (fun _ => rfl) (fun _ => rfl) _).2
      ⟨htype, hdelta, .optional_of_total total_tokenLogProbs.list _,
        .optional_of_total total_stopReason _, trivial⟩
  exact (restores_record_iff (by decide) (fun _ => rfl) (fun _ => rfl) _).2 ⟨hevent, trivial⟩

theorem restores_textDelta (words : String) : Chat.EventDelta.codec.Restores (.text words) :=
  restores_untagged_text rfl _

theorem restores_callDelta {call : Chat.ToolCall} (hcall : Chat.ToolCall.codec.Restores call) :
    Chat.EventDelta.codec.Restores (.toolCall (.complete call)) := by
  have hcontent : Chat.ToolCallContent.codec.Restores (.call call) :=
    restores_untagged_other hcall rfl (Chat.solid_of_object ⟨_, rfl⟩).2 _
  have hdelta : Chat.ToolCallDelta.codec.Restores (.complete call) :=
    (restores_record_iff (by decide) (fun _ => rfl) (fun _ => rfl) _).2 ⟨hcontent, rfl, trivial⟩
  exact restores_untagged_other hdelta rfl (Chat.solid_of_object ⟨_, rfl⟩).2 _

/-- What an item says comes back. -/
theorem restores_of_mem_itemParts {item : SourceItem} {delta : Chat.EventDelta}
    {logprobs : Option (List Chat.TokenLogProbs)} (hpart : .ok (delta, logprobs) ∈ itemParts item) :
    Chat.EventDelta.codec.Restores delta := by
  cases item with
  | error failure => simp [itemParts] at hpart
  | ok chunk =>
      cases hchoices : chunk.choices with
      | nil => simp [itemParts, hchoices] at hpart
      | cons choice others =>
          simp only [itemParts, hchoices, choiceParts] at hpart
          split at hpart
          · cases List.mem_singleton.1 hpart
            exact restores_textDelta _
          · cases List.mem_singleton.1 hpart
            exact restores_textDelta _
          · rename_i first rest hcalls
            rcases List.mem_append.1 hpart with htext | hcall
            · obtain ⟨words, -, hwords⟩ := List.mem_map.1 htext
              cases hwords
              exact restores_textDelta words
            · rw [List.mem_singleton] at hcall
              rcases convertToolCalls_callPart first rest (convertLogprobs choice.logprobs) with
                ⟨failure, -, hfailure⟩ | ⟨call, more, hconverted, hkept⟩
              · cases hcall.trans hfailure
              · cases hcall.trans hkept
                obtain ⟨record, -, hrecord⟩ := mem_of_mapM_eq_ok hconverted List.mem_cons_self
                exact restores_callDelta (restores_of_convertToolCall hrecord)

theorem mem_of_mem_closedBy {closing items : List StreamItem} {event : Chat.EventChunk}
    (hevent : .ok event ∈ closedBy closing items) : .ok event ∈ items ∨ .ok event ∈ closing := by
  induction items with
  | nil => exact Or.inr hevent
  | cons item rest ih =>
      cases item with
      | error failure => simp [closedBy] at hevent
      | ok first =>
          rcases List.mem_cons.1 hevent with hfirst | hrest
          · exact Or.inl (hfirst ▸ List.mem_cons_self)
          · exact (ih hrest).imp_left (List.mem_cons_of_mem _)

theorem mem_of_mem_events {parts : List Part} {item : StreamItem} (hitem : item ∈ events parts) :
    ∃ part ∈ parts, ∃ eventType, item = Part.event eventType part := by
  cases parts with
  | nil => cases hitem
  | cons part rest =>
      rcases List.mem_cons.1 hitem with hfirst | hrest
      · exact ⟨part, List.mem_cons_self, .start, hfirst⟩
      · obtain ⟨later, hlater, hsame⟩ := List.mem_map.1 hrest
        exact ⟨later, List.mem_cons_of_mem part hlater, .progress, hsame.symm⟩

/-- So does everything that is said of a source. -/
theorem restores_of_mem_transcript {source : List SourceItem} {event : Chat.EventChunk}
    (hevent : .ok event ∈ transcript source) : Chat.EventChunk.codec.Restores event := by
  rcases mem_of_mem_closedBy hevent with hsaid | hclosing
  · obtain ⟨part, hpart, eventType, hsame⟩ := mem_of_mem_events hsaid
    obtain ⟨item, -, hitem⟩ := List.mem_flatMap.1 hpart
    cases part with
    | error failure => cases hsame
    | ok said =>
        cases hsame
        exact restores_event (restores_of_mem_itemParts hitem)
  · cases List.mem_singleton.1 hclosing
    exact restores_event (restores_textDelta "")

/-- Everything that a stream hands out comes back: it is part of the transcript, or nothing. -/
theorem restores_of_mem_pulls {source : List SourceItem} {limit : Nat} {pull : Pull}
    (hpull : pull ∈ (EventStream.ofSource source).pulls limit) {event : Chat.EventChunk}
    (hevent : pull.item = some (.ok event)) : Chat.EventChunk.codec.Restores event := by
  have hitem : some (.ok event) ∈ ((EventStream.ofSource source).pulls limit).map (·.item) :=
    List.mem_map.2 ⟨pull, hpull, hevent⟩
  rw [map_item_pulls, outlook_ofSource_eq_transcript] at hitem
  rcases List.mem_append.1 (List.mem_of_mem_take hitem) with hsaid | hend
  · obtain ⟨item, hmem, hsame⟩ := List.mem_map.1 hsaid
    cases hsame
    exact restores_of_mem_transcript hmem
  · cases List.mem_singleton.1 hend

/-- The controls that may be null, and whether each is unset. -/
def nullControls (params : Chat.SamplingParams) : List (String × Bool) :=
  [("temperature", params.temperature.isNone), ("top_p", params.topP.isNone),
    ("top_k", params.topK.isNone), ("repetition_penalty", params.repetitionPenalty.isNone),
    ("max_tokens", params.maxTokens.isNone)]

/-- A field with a default that is null has no value, not its default. -/
theorem eq_none_of_null {α : Type} {name : String} {codec : Codec α} {fallback value : Option α}
    {members : List (String × Json)}
    (hreads : (Field.withDefault name codec.option fallback).Reads
      ((members.reverse.lookup name).map Json.normal) value)
    (hnull : (Json.object members).member? name = some .null) : value = none := by
  rw [Json.member?_object] at hnull
  rw [hnull] at hreads
  cases hreads
  rfl

theorem isNone_of_null {json : Json} {params : Chat.SamplingParams}
    (hparams : Chat.SamplingParams.codec.ofJson json = .ok params) :
    ∀ control ∈ nullControls params,
      json.member? control.1 = some .null → control.2 = true := by
  rw [ofJson_eq_ok_iff] at hparams
  cases json with
  | object members =>
      obtain ⟨values, ⟨-, htemperature, htopP, htopK, hpenalty, hlimit, -⟩, rfl⟩ :=
        (record_ofJson_object_iff (by decide)).1 hparams
      simpa [nullControls] using
        ⟨eq_none_of_null htemperature, eq_none_of_null htopP, eq_none_of_null htopK,
          eq_none_of_null hpenalty, eq_none_of_null hlimit⟩
  | _ => simp [Json.member?]

/-- The name of a strategy is kept, whether or not it is known. -/
theorem name_of_strategy {json : Json} {params : Chat.SamplingParams} {name : String}
    (hparams : Chat.SamplingParams.codec.ofJson json = .ok params)
    (hname : json.member? "strategy" = some (.string name)) : params.strategy.name = name := by
  rw [ofJson_eq_ok_iff] at hparams
  cases json with
  | object members =>
      obtain ⟨values, ⟨hstrategy, -⟩, rfl⟩ := (record_ofJson_object_iff (by decide)).1 hparams
      rw [Json.member?_object] at hname
      change Field.Reads _ ((members.reverse.lookup "strategy").map Json.normal) _ at hstrategy
      rw [hname] at hstrategy
      obtain ⟨words, hwords, hsame⟩ := map_eq_ok_iff.1 hstrategy
      cases hwords
      change values.1.name = name
      rw [← hsame, Chat.SamplingStrategy.name_ofName]
  | _ => cases hname

theorem member?_strategy (params : Chat.SamplingParams) :
    (Chat.SamplingParams.codec.toJson params).member? "strategy" =
      some (.string params.strategy.name) := by
  rw [toJson, Json.member?_normal]
  rfl

/-- No untagged value is read as another variant than the one that was written, be it a value that
was decoded or not. -/
structure KeepsVariants : Prop where
  content : ∀ value other : Chat.Content,
    Chat.Content.codec.ofJson (Chat.Content.codec.toJson value) = .ok other →
      other.ctorIdx = value.ctorIdx
  item : ∀ value other : Chat.ContentItem,
    Chat.ContentItem.codec.ofJson (Chat.ContentItem.codec.toJson value) = .ok other →
      other.ctorIdx = value.ctorIdx
  delta : ∀ value other : Chat.EventDelta,
    Chat.EventDelta.codec.ofJson (Chat.EventDelta.codec.toJson value) = .ok other →
      other.ctorIdx = value.ctorIdx
  callContent : ∀ value other : Chat.ToolCallContent,
    Chat.ToolCallContent.codec.ofJson (Chat.ToolCallContent.codec.toJson value) = .ok other →
      other.ctorIdx = value.ctorIdx

theorem eq_of_restores {α : Type} {codec : Codec α} {value other : α}
    (hvalue : codec.Restores value) (hother : codec.ofJson (codec.toJson value) = .ok other) :
    other = value := by
  rw [(ofJson_toJson_iff value).2 hvalue] at hother
  exact (Except.ok.inj hother).symm

theorem keepsVariants : KeepsVariants where
  content value other hother := by rw [eq_of_restores (Chat.Content.restores value) hother]
  item value other hother := by rw [eq_of_restores (Chat.ContentItem.restores value) hother]
  delta value other hother := by
    cases value with
    | text words => rw [eq_of_restores (restores_textDelta words) hother]
    | toolCall delta =>
        rw [ofJson_eq_ok_iff, toJson, Json.normal_normal] at hother
        obtain ⟨same, rfl⟩ := other_of_untagged rfl (Chat.solid_of_object ⟨_, rfl⟩).2 hother
        rfl
  callContent value other hother := by
    cases value with
    | text words =>
        have hwords : Chat.ToolCallContent.codec.Restores (.text words) :=
          restores_untagged_text rfl _
        rw [eq_of_restores hwords hother]
    | call call =>
        rw [ofJson_eq_ok_iff, toJson, Json.normal_normal] at hother
        obtain ⟨same, rfl⟩ := other_of_untagged rfl (Chat.solid_of_object ⟨_, rfl⟩).2 hother
        rfl

/-- Whatever is decoded comes back from what it is written as, and what is left out or null is
unset. The same goes for what the conversions produce: the payload of a request that was decoded,
the response to a completion or to one of its choices, and every event of a stream, be it pulled to
its end or not. -/
theorem wire_values_come_back :
    (∀ (wire : WireType) (json : Json) (value : wire.Carrier),
      wire.codec.ofJson json = .ok value →
        wire.codec.ofJson (wire.codec.toJson value) = .ok value ∧
          ∀ field ∈ wire.optionals value, json.Lacks field.1 → field.2 = true) ∧
    (∀ (json : Json) (params : Chat.SamplingParams),
      Chat.SamplingParams.codec.ofJson json = .ok params →
        (∀ control ∈ nullControls params,
          json.member? control.1 = some .null → control.2 = true) ∧
        ∀ name, json.member? "strategy" = some (.string name) →
          params.strategy.name = name ∧
            (Chat.SamplingParams.codec.toJson params).member? "strategy" =
              some (.string name)) ∧
    KeepsVariants ∧
    (∀ (json : Json) (request : Chat.Request) (n : UInt32),
      Chat.Request.codec.ofJson json = .ok request →
        Provider.Request.codec.ofJson (Provider.Request.codec.toJson (convertRequest request n)) =
          .ok (convertRequest request n)) ∧
    (∀ (completion : Provider.Completion) (response : Chat.Response),
      convertCompletion completion = .ok response →
        Chat.Response.codec.ofJson (Chat.Response.codec.toJson response) = .ok response) ∧
    (∀ (choice : Provider.Choice) (response : Chat.Response),
      convertChoice choice = .ok response →
        Chat.Response.codec.ofJson (Chat.Response.codec.toJson response) = .ok response) ∧
    ∀ (source : List SourceItem) (limit : Nat),
      ∀ pull ∈ (EventStream.ofSource source).pulls limit, ∀ event : Chat.EventChunk,
        pull.item = some (.ok event) →
          Chat.EventChunk.codec.ofJson (Chat.EventChunk.codec.toJson event) = .ok event := by
  refine ⟨?_, ?_, keepsVariants, ?_, ?_, ?_, ?_⟩
  · intro wire json value hvalue
    refine ⟨(ofJson_toJson_iff value).2 (wire.faithful.of_decoded hvalue), ?_⟩
    rintro field hfield ⟨members, rfl, hmember⟩
    exact wire.isNone_of_lacks ((ofJson_eq_ok_iff _ _).1 hvalue) field hfield
      ⟨members, rfl, hmember⟩
  · intro json params hparams
    refine ⟨isNone_of_null hparams, fun name hname => ?_⟩
    have hkept := name_of_strategy hparams hname
    exact ⟨hkept, by rw [member?_strategy, hkept]⟩
  · intro json request n hrequest
    exact (ofJson_toJson_iff _).2
      (restores_convertRequest (Chat.Request.faithful.of_decoded hrequest) n)
  · intro completion response hresponse
    exact (ofJson_toJson_iff _).2 (restores_of_convertCompletion hresponse)
  · intro choice response hresponse
    exact (ofJson_toJson_iff _).2 (restores_of_convertChoice hresponse)
  · intro source limit pull hpull event hevent
    exact (ofJson_toJson_iff _).2 (restores_of_mem_pulls hpull hevent)

/-- A message with content of two kinds, given as a list up to its call identifier. -/
def mixedMessage : Json :=
  .array [.string "user",
    .array [.string "a", .object [("image", .array [.string "b"])]], .null, .null, .string "c"]

theorem mixedMessage_comes_back :
    WireType.message.codec.ofJson mixedMessage =
        .ok ⟨.user, .items [.text "a", .media ⟨⟨"b"⟩⟩], none, none, some "c", none⟩ ∧
      WireType.message.codec.ofJson (WireType.message.codec.toJson
          (⟨.user, .items [.text "a", .media ⟨⟨"b"⟩⟩], none, none, some "c", none⟩ :
            Chat.Message)) =
        .ok ⟨.user, .items [.text "a", .media ⟨⟨"b"⟩⟩], none, none, some "c", none⟩ := by
  have hmessage : WireType.message.codec.ofJson mixedMessage =
      .ok ⟨.user, .items [.text "a", .media ⟨⟨"b"⟩⟩], none, none, some "c", none⟩ := by rfl
  exact ⟨hmessage, (wire_values_come_back.1 .message mixedMessage _ hmessage).1⟩

end StackBridge.Conversion
