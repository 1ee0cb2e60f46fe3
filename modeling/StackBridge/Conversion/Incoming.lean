/-
Completions on their way back from the provider.
-/
import StackBridge.Chat.Response
import StackBridge.Failure
import StackBridge.Provider.Completion

namespace StackBridge.Conversion

open Chat (StopReason TokenLogProbs CompletionMessage)
open Provider (ToolCallRecord)

/-- Why the model stopped. A reason that is not known, or none at all, ends the turn. -/
def convertFinishReason : Option String → StopReason
  | some reason =>
      if reason = "length" then .outOfTokens
      else if reason = "tool_calls" then .endOfMessage
      else .endOfTurn
  | none => .endOfTurn

/-- The reader of tool-call arguments: one JSON object. -/
def arguments : Codec (SortedMap Json) :=
  Codec.any.map

/-- A tool call with its arguments parsed. -/
def convertToolCall (call : ToolCallRecord) : Except Failure Chat.ToolCall :=
  match arguments.ofText call.rawArguments with
  | .ok arguments => return ⟨call.callId, call.functionName, arguments⟩
  | .error fault => throw (.toolArguments call.callId fault)

/-- All tool calls, or the failure of the first that does not convert. -/
def convertToolCalls (calls : List ToolCallRecord) : Except Failure (List Chat.ToolCall) :=
  calls.mapM convertToolCall

/-- The alternatives at one position. The chosen token is among them only if the provider listed
it; of a token listed twice the last entry counts. -/
def convertPosition (position : Provider.TokenLogprob) : TokenLogProbs :=
  ⟨SortedMap.ofList (position.topLogprobs.map fun top => (top.token, top.logprob))⟩

/-- The log-probabilities, one record per position. -/
def convertLogprobs (logprobs : Option Provider.Logprobs) : Option (List TokenLogProbs) :=
  logprobs.map fun block => (block.content.getD []).map convertPosition

def choiceSource : String := "choice_mapper"

/-- The complaint that a part of a choice is missing. -/
def missingPart (choice : Provider.Choice) (part : String) : Failure :=
  .malformedResponse s!"{part} not found"
    { fieldPath := some s!"choices[{choice.index.toNat}].{part}", source := some choiceSource }

/-- A choice as a response. A message and a finish reason that is not empty have to be there. -/
def convertChoice (choice : Provider.Choice) : Except Failure Chat.Response := do
  let some message := choice.message | throw (missingPart choice "message")
  let some reason := choice.finishReason.filter (· ≠ "")
    | throw (missingPart choice "finish_reason")
  let toolCalls ← convertToolCalls ((message.toolCalls.getD []).map (·.record))
  return {
    message := {
      content := message.content.getD ""
      stopReason := convertFinishReason (some reason)
      toolCalls }
    logprobs := convertLogprobs choice.logprobs }

/-- A whole completion as a response. Only the first choice counts. -/
def convertCompletion (completion : Provider.Completion) : Except Failure Chat.Response :=
  match completion.choices with
  | choice :: _ => convertChoice choice
  | [] => throw <| .malformedResponse "no choices in response"
      { fieldPath := some "choices", details := some s!"completion id '{completion.id}'",
        source := some choiceSource }

end StackBridge.Conversion
