/-
Requests on their way to the provider. A conversion answers the payload together with the notices
that it gives rise to.
-/
import StackBridge.Conversion.Advisory
import StackBridge.Provider.Request

namespace StackBridge.Conversion

open Chat (Role SamplingParams SamplingStrategy)

/-- The header that names this adapter. -/
def userAgentHeader : String × String :=
  ("User-Agent", "llama-stack: nvidia-inference-adapter")

/-- The number of completions that a request asks for unless told otherwise. -/
def defaultN : UInt32 := 1

/-- The number of likeliest tokens that switches the restriction off. -/
def topKDisabled : Int64 := -1

/-- The provider calls tool responses `tool`; its other roles have the names of the schema. -/
def providerRole : Role → String
  | .ipython => "tool"
  | other => other.name

def convertMessage (message : Chat.Message) : Provider.Message where
  role := providerRole message.role
  content := message.content
  stopReason := message.stopReason.map (·.name)
  toolCalls := message.toolCalls
  callId := message.callId
  toolName := message.toolName

/-- What the sampling controls set in the payload. -/
structure Sampling where
  extension : Provider.Extension := {}
  maxTokens : Option UInt32 := none
  temperature : Option Float := none
  topP : Option Float := none
deriving DecidableEq, Repr

/-- Each strategy forwards its own control and no other; a strategy that is not known forwards
none. A limit of zero tokens means no limit. -/
def convertSampling (params : SamplingParams) : Sampling :=
  let common : Sampling :=
    { extension := { repetitionPenalty := params.repetitionPenalty },
      maxTokens := params.maxTokens.filter (0 < ·) }
  match params.strategy with
  | .greedy =>
      { common with
        extension := { common.extension with topK := some topKDisabled },
        temperature := params.temperature }
  | .topP =>
      { common with
        extension := { common.extension with topK := some topKDisabled },
        topP := params.topP }
  | .topK => { common with extension := { common.extension with topK := params.topK } }
  | .other _ => common

/-- A number of likeliest tokens has to be -1 or positive. -/
def topKFits (topK : Int64) : Bool :=
  topK = topKDisabled || 1 ≤ topK

/-- The notices about sampling controls that are forwarded although they do not fit. -/
def samplingAdvisories (params : SamplingParams) : Log :=
  match params.strategy, params.topK with
  | .topK, some topK => if topKFits topK then [] else [.topKOutOfRange topK]
  | _, _ => []

/-- A request in the shape of the provider. Without tools there is no choice of tools. -/
def convertRequest (request : Chat.Request) (n : UInt32) : Provider.Request :=
  let sampling := (request.samplingParams.map convertSampling).getD {}
  let tools := request.tools.filter (!·.isEmpty)
  { model := request.model
    messages := request.messages.map convertMessage
    stream := request.stream
    n
    extraBody := { extension := sampling.extension }
    extraHeaders := SortedMap.ofList [userAgentHeader]
    tools
    toolChoice := if tools.isSome then request.toolChoice.map (·.name) else none
    logprobs := request.logprobs.map (fun _ => true)
    topLogprobs := request.logprobs.bind (·.topK)
    maxTokens := sampling.maxTokens
    temperature := sampling.temperature
    topP := sampling.topP }

/-- The notices that the conversion of a request gives rise to. -/
def requestAdvisories (request : Chat.Request) : Log :=
  (request.samplingParams.map samplingAdvisories).getD []

end StackBridge.Conversion
