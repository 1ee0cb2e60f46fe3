/-
What a request comes to. Each part of the payload is decided by one part of the request, and a
sampling control reaches the payload only under the strategy that it belongs to. The notice about a
number of likeliest tokens goes along with the payload and does not change it.
-/
import StackBridge.Conversion.Outgoing
import StackBridge.Proofs.CollectorHandles

namespace StackBridge.Conversion

open Chat (SamplingParams SamplingStrategy)

/-- A number of likeliest tokens that the provider does not know what to do with. -/
def OutOfRange (topK : Int64) : Prop :=
  topK.toInt ≠ -1 ∧ topK.toInt < 1

/-- What the sampling controls of a request set in its payload. -/
structure Forwards (params : SamplingParams) (payload : Provider.Request) : Prop where
  repetitionPenalty : payload.extraBody.extension.repetitionPenalty = params.repetitionPenalty
  maxTokens : ∀ limit, payload.maxTokens = some limit ↔
    params.maxTokens = some limit ∧ limit ≠ 0
  topK : payload.extraBody.extension.topK =
    match params.strategy with
    | .greedy | .topP => some (-1)
    | .topK => params.topK
    | .other _ => none
  temperature : ∀ value, payload.temperature = some value ↔
    params.strategy = .greedy ∧ params.temperature = some value
  topP : ∀ value, payload.topP = some value ↔
    params.strategy = .topP ∧ params.topP = some value
  neverBoth : payload.temperature = none ∨ payload.topP = none

/-- A payload in which no sampling control is set. -/
structure ForwardsNothing (payload : Provider.Request) : Prop where
  repetitionPenalty : payload.extraBody.extension.repetitionPenalty = none
  maxTokens : payload.maxTokens = none
  topK : payload.extraBody.extension.topK = none
  temperature : payload.temperature = none
  topP : payload.topP = none

/-- What of a payload does not depend on the sampling controls. -/
structure Carries (request : Chat.Request) (n : UInt32) (payload : Provider.Request) : Prop where
  model : payload.model = request.model
  stream : payload.stream = request.stream
  n : payload.n = n
  messages : payload.messages = request.messages.map convertMessage
  tools : ∀ tools, payload.tools = some tools ↔ request.tools = some tools ∧ tools ≠ []
  toolChoice : ∀ name, payload.toolChoice = some name ↔
    payload.tools.isSome ∧ request.toolChoice.map (·.name) = some name
  logprobs : payload.logprobs = if request.logprobs.isSome then some true else none
  topLogprobs : ∀ count, payload.topLogprobs = some count ↔
    ∃ config, request.logprobs = some config ∧ config.topK = some count

theorem filter_pos_eq_some_iff (maxTokens : Option UInt32) (limit : UInt32) :
    maxTokens.filter (0 < ·) = some limit ↔ maxTokens = some limit ∧ limit ≠ 0 := by
  have hpos : 0 < limit ↔ limit ≠ 0 := by
    rw [UInt32.lt_iff_toNat_lt, ne_eq, ← UInt32.toNat_inj]
    simp only [UInt32.toNat_zero]
    omega
  rw [Option.filter_eq_some_iff, decide_eq_true_eq, hpos]

theorem maxTokens_convertSampling (params : SamplingParams) :
    (convertSampling params).maxTokens = params.maxTokens.filter (0 < ·) := by
  unfold convertSampling
  cases params.strategy <;> rfl

theorem repetitionPenalty_convertSampling (params : SamplingParams) :
    (convertSampling params).extension.repetitionPenalty = params.repetitionPenalty := by
  unfold convertSampling
  cases params.strategy <;> rfl

/-- The sampling controls are set by the parameters of the request. -/
theorem forwards_convertRequest {request : Chat.Request} {params : SamplingParams}
    (hparams : request.samplingParams = some params) (n : UInt32) :
    Forwards params (convertRequest request n) where
  repetitionPenalty := by
    simp [convertRequest, hparams, repetitionPenalty_convertSampling]
  maxTokens limit := by
    simp only [convertRequest, hparams, Option.map_some, Option.getD_some,
      maxTokens_convertSampling]
    exact filter_pos_eq_some_iff params.maxTokens limit
  topK := by
    cases hstrategy : params.strategy <;>
      simp [convertRequest, hparams, convertSampling, hstrategy, topKDisabled]
  temperature value := by
    cases hstrategy : params.strategy <;>
      simp [convertRequest, hparams, convertSampling, hstrategy]
  topP value := by
    cases hstrategy : params.strategy <;>
      simp [convertRequest, hparams, convertSampling, hstrategy]
  neverBoth := by
    cases hstrategy : params.strategy <;>
      simp [convertRequest, hparams, convertSampling, hstrategy]

theorem forwardsNothing_convertRequest {request : Chat.Request}
    (hparams : request.samplingParams = none) (n : UInt32) :
    ForwardsNothing (convertRequest request n) := by
  constructor <;> simp [convertRequest, hparams]

/-- The rest of the payload comes from the rest of the request. -/
theorem carries_convertRequest (request : Chat.Request) (n : UInt32) :
    Carries request n (convertRequest request n) where
  model := rfl
  stream := rfl
  n := rfl
  messages := rfl
  tools tools := by
    change request.tools.filter (!·.isEmpty) = some tools ↔ _
    rw [Option.filter_eq_some_iff, Bool.not_eq_true', List.isEmpty_eq_false_iff]
  toolChoice name := by
    change (if (request.tools.filter (!·.isEmpty)).isSome then _ else none) = some name ↔ _
    split <;> simp_all [convertRequest]
  logprobs := by
    change request.logprobs.map (fun _ => true) = _
    cases request.logprobs <;> rfl
  topLogprobs count := by
    change request.logprobs.bind (·.topK) = some count ↔ _
    rw [Option.bind_eq_some_iff]

theorem topKFits_eq_false_iff (topK : Int64) : topKFits topK = false ↔ OutOfRange topK := by
  rw [topKFits, Bool.or_eq_false_iff, decide_eq_false_iff_not, decide_eq_false_iff_not,
    Int64.le_iff_toInt_le, OutOfRange, topKDisabled, ← Int64.toInt_inj]
  simp

/-- The one notice is about a number of likeliest tokens that is out of range. -/
theorem samplingAdvisories_eq_singleton_iff (params : SamplingParams) (topK : Int64) :
    samplingAdvisories params = [.topKOutOfRange topK] ↔
      params.strategy = .topK ∧ params.topK = some topK ∧ OutOfRange topK := by
  rw [← topKFits_eq_false_iff]
  cases hstrategy : params.strategy with
  | topK =>
      cases hgiven : params.topK with
      | none => simp [samplingAdvisories, hstrategy, hgiven]
      | some given =>
          simp only [samplingAdvisories, hstrategy, hgiven, Option.some.injEq, true_and]
          cases hfits : topKFits given with
          | true =>
              simp only [↓reduceIte, List.nil_eq, reduceCtorEq, false_iff, not_and]
              rintro rfl
              simp [hfits]
          | false =>
              simp only [Bool.false_eq_true, ↓reduceIte, List.cons.injEq,
                Advisory.topKOutOfRange.injEq, and_true]
              refine ⟨?_, And.left⟩
              rintro rfl
              exact ⟨rfl, hfits⟩
  | greedy => simp [samplingAdvisories, hstrategy]
  | topP => simp [samplingAdvisories, hstrategy]
  | other name => simp [samplingAdvisories, hstrategy]

theorem samplingAdvisories_cases (params : SamplingParams) :
    samplingAdvisories params = [] ∨
      ∃ topK, samplingAdvisories params = [.topKOutOfRange topK] := by
  unfold samplingAdvisories
  split
  · split
    · exact Or.inl rfl
    · exact Or.inr ⟨_, rfl⟩
  · exact Or.inl rfl

theorem requestAdvisories_eq_singleton_iff (request : Chat.Request) (topK : Int64) :
    requestAdvisories request = [.topKOutOfRange topK] ↔
      ∃ params, request.samplingParams = some params ∧ params.strategy = .topK ∧
        params.topK = some topK ∧ OutOfRange topK := by
  cases hparams : request.samplingParams with
  | none => simp [requestAdvisories, hparams]
  | some params => simp [requestAdvisories, hparams, samplingAdvisories_eq_singleton_iff]

theorem requestAdvisories_cases (request : Chat.Request) :
    requestAdvisories request = [] ∨
      ∃ topK, requestAdvisories request = [.topKOutOfRange topK] := by
  cases hparams : request.samplingParams with
  | none => simp [requestAdvisories, hparams]
  | some params => simpa [requestAdvisories, hparams] using samplingAdvisories_cases params

/-- A request goes over into its payload part by part, and the collector gains a notice exactly when
a number of likeliest tokens is forwarded that is out of range. -/
theorem request_goes_over (request : Chat.Request) (n : UInt32) {collectors : Collectors}
    {handle : Nat} (hhandle : handle < collectors.handles.length) :
    let payload := convertRequest request n
    Carries request n payload ∧
    (request.samplingParams = none → ForwardsNothing payload) ∧
    (∀ params, request.samplingParams = some params → Forwards params payload) ∧
    ∃ gained : Log,
      (collectors.record handle (requestAdvisories request)).snapshot handle =
        collectors.snapshot handle ++ gained ∧
      (gained = [] ∨ ∃ topK, gained = [.topKOutOfRange topK]) ∧
      ∀ topK, gained = [.topKOutOfRange topK] ↔
        ∃ params, request.samplingParams = some params ∧ params.strategy = .topK ∧
          params.topK = some topK ∧ OutOfRange topK := by
  intro payload
  have hbuffer := Collectors.buffer?_of_lt hhandle
  refine ⟨carries_convertRequest request n, fun hnone => forwardsNothing_convertRequest hnone n,
    fun params hparams => forwards_convertRequest hparams n, requestAdvisories request, ?_,
    requestAdvisories_cases request, requestAdvisories_eq_singleton_iff request⟩
  exact Collectors.snapshot_record hbuffer hbuffer _

/-- Zero likeliest tokens are forwarded and noticed. -/
theorem zero_topK_goes_over :
    let collectors := Collectors.empty.addNew.record 0 [.multipleToolCalls 2 "a"]
    let request : Chat.Request :=
      { model := "m", messages := [.ofUser "Hi"], samplingParams := some (.likeliest 0)
        tools := some [], toolChoice := some .auto }
    0 < collectors.handles.length ∧
      (convertRequest request 1).extraBody.extension.topK = some 0 ∧
      (convertRequest request 1).toolChoice = none ∧
      (collectors.record 0 (requestAdvisories request)).snapshot 0 =
        [.multipleToolCalls 2 "a", .topKOutOfRange 0] := by
  intro collectors request
  have hhandle : 0 < collectors.handles.length := by decide
  obtain ⟨hcarries, -, hforwards, gained, hlog, -, hgained⟩ :=
    request_goes_over request 1 hhandle
  refine ⟨hhandle, (hforwards _ rfl).topK, ?_, ?_⟩
  · rw [Option.eq_none_iff_forall_ne_some]
    intro name hname
    obtain ⟨hsome, -⟩ := (hcarries.toolChoice name).1 hname
    obtain ⟨tools, htools⟩ := Option.isSome_iff_exists.1 hsome
    obtain ⟨hgiven, hne⟩ := (hcarries.tools tools).1 htools
    cases hgiven
    exact hne rfl
  · have hout : OutOfRange 0 := by
      refine ⟨?_, ?_⟩ <;> decide
    rw [hlog, (hgained 0).2 ⟨_, rfl, rfl, rfl, hout⟩]
    rfl

end StackBridge.Conversion
