/-
Chat completion requests and the sampling controls that go with them.
-/
import StackBridge.Chat.Message

namespace StackBridge.Chat

/-- How the next token is chosen. A name that is not known is kept as it is. -/
inductive SamplingStrategy where
  | greedy
  | topP
  | topK
  | other (name : String)
deriving DecidableEq, Repr

def SamplingStrategy.name : SamplingStrategy → String
  | .greedy => "greedy"
  | .topP => "top_p"
  | .topK => "top_k"
  | .other name => name

/-- The strategy of that name. Every name has one. -/
def SamplingStrategy.ofName (name : String) : SamplingStrategy :=
  if name = "greedy" then .greedy
  else if name = "top_p" then .topP
  else if name = "top_k" then .topK
  else .other name

theorem SamplingStrategy.name_ofName (name : String) : (ofName name).name = name := by
  unfold ofName
  split
  · simp_all [SamplingStrategy.name]
  · split
    · simp_all [SamplingStrategy.name]
    · split <;> simp_all [SamplingStrategy.name]

/-- The controls of sampling, each with a default. A control that is not set leaves the choice to
the provider, and so does a limit of zero tokens. -/
structure SamplingParams where
  strategy : SamplingStrategy := .greedy
  temperature : Option Float := some 0.0
  topP : Option Float := some 0.95
  topK : Option Int64 := some 0
  repetitionPenalty : Option Float := some 1.0
  maxTokens : Option UInt32 := none
deriving DecidableEq, Repr

namespace SamplingParams

instance : Inhabited SamplingParams := ⟨{}⟩

def greedy (temperature : Float) : SamplingParams :=
  { strategy := .greedy, temperature := some temperature }

/-- A token out of the likeliest ones that together reach a probability. -/
def nucleus (topP : Float) : SamplingParams :=
  { strategy := .topP, topP := some topP }

/-- A token out of that many of the likeliest ones. -/
def likeliest (topK : Int64) : SamplingParams :=
  { strategy := .topK, topK := some topK }

def withMaxTokens (params : SamplingParams) (maxTokens : UInt32) : SamplingParams :=
  { params with maxTokens := some maxTokens }

def withRepetitionPenalty (params : SamplingParams) (penalty : Float) : SamplingParams :=
  { params with repetitionPenalty := some penalty }

end SamplingParams

/-- How many alternatives to report with their log-probabilities. -/
structure LogProbConfig where
  topK : Option UInt32
deriving DecidableEq, Repr

/-- A request for a chat completion. -/
structure Request where
  model : String
  messages : List Message
  samplingParams : Option SamplingParams := none
  tools : Option (List ToolDefinition) := none
  toolChoice : Option ToolChoice := none
  logprobs : Option LogProbConfig := none
  stream : Bool := false
deriving DecidableEq, Repr

namespace Request

def withSamplingParams (request : Request) (params : SamplingParams) : Request :=
  { request with samplingParams := some params }

def withTools (request : Request) (tools : List ToolDefinition) : Request :=
  { request with tools := some tools }

def withToolChoice (request : Request) (choice : ToolChoice) : Request :=
  { request with toolChoice := some choice }

def withLogprobs (request : Request) (topK : UInt32) : Request :=
  { request with logprobs := some ⟨some topK⟩ }

def withStream (request : Request) (stream : Bool) : Request :=
  { request with stream }

end Request

/-- A strategy is written as its name, and every name is one. -/
def SamplingStrategy.codec : Codec SamplingStrategy :=
  Codec.string.mapped SamplingStrategy.ofName SamplingStrategy.name

/-- Sampling parameters on the wire. A field that is null is unset, and one that is absent has its
default. -/
def SamplingParams.codec : Codec SamplingParams :=
  let defaults : SamplingParams := default
  Codec.record "SamplingParams"
    (.cons (.withDefault "strategy" SamplingStrategy.codec defaults.strategy) <|
      .cons (.withDefault "temperature" Codec.float.option defaults.temperature) <|
      .cons (.withDefault "top_p" Codec.float.option defaults.topP) <|
      .cons (.withDefault "top_k" Codec.int64.option defaults.topK) <|
      .cons (.withDefault "repetition_penalty" Codec.float.option defaults.repetitionPenalty) <|
      .cons (.withDefault "max_tokens" Codec.uint32.option defaults.maxTokens) .nil)
    (fun (strategy, temperature, topP, topK, repetitionPenalty, maxTokens, ()) =>
      ⟨strategy, temperature, topP, topK, repetitionPenalty, maxTokens⟩)
    (fun p => (p.strategy, p.temperature, p.topP, p.topK, p.repetitionPenalty, p.maxTokens, ()))

def LogProbConfig.codec : Codec LogProbConfig :=
  Codec.record "LogProbConfig" (.cons (.nullable "top_k" .uint32) .nil)
    (fun (topK, ()) => ⟨topK⟩) (fun c => (c.topK, ()))

def Request.codec : Codec Request :=
  Codec.record "ChatCompletionRequest"
    (.cons (.required "model" .string) <|
      .cons (.required "messages" Message.codec.list) <|
      .cons (.optional "sampling_params" SamplingParams.codec) <|
      .cons (.optional "tools" ToolDefinition.codec.list) <|
      .cons (.optional "tool_choice" ToolChoice.codec) <|
      .cons (.optional "logprobs" LogProbConfig.codec) <|
      .cons (.withDefault "stream" .bool false) .nil)
    (fun (model, messages, samplingParams, tools, toolChoice, logprobs, stream, ()) =>
      ⟨model, messages, samplingParams, tools, toolChoice, logprobs, stream⟩)
    (fun r => (r.model, r.messages, r.samplingParams, r.tools, r.toolChoice, r.logprobs,
      r.stream, ()))

end StackBridge.Chat
