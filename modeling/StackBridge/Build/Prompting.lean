/-
Asking for the settings of providers. The questions depend only on the providers as they are before
the first answer; each takes one line of the input. The answers are put in place when all of them
have been read, so a line that cannot be read changes nothing.
-/
import StackBridge.Build.Package
import StackBridge.Failure
import StackBridge.Text.Blank

namespace StackBridge.Build

open StackBridge.Yaml (Value)

/-- A value as it is shown in a question. -/
def displayValue : Value → String
  | .string s => s
  | .null => "null"
  | value =>
      match value.text with
      | .ok text => Text.trimEnd text
      | .error _ => ""

/-- A part of the dialogue. -/
inductive Prompt where
  /-- Announces the provider of an API. -/
  | heading (api providerId : String)
  /-- Asks for a setting, showing the present value. -/
  | question (api : String) (key value : Value)
deriving DecidableEq, Repr

def Prompt.text : Prompt → String
  | .heading api providerId => s!"Configuring API `{api}` (provider: {providerId})\n"
  | .question api key value => s!"{api}.{displayValue key} (default: {displayValue value}): "

def Prompt.isQuestion : Prompt → Bool
  | .heading .. => false
  | .question .. => true

def Provider.settings (provider : Provider) : List (Value × Value) :=
  match provider.config with
  | .mapping entries => entries
  | _ => []

/-- The parts of the dialogue about one provider. -/
def Provider.prompts (api : String) (provider : Provider) : List Prompt :=
  .heading api provider.providerId ::
    provider.settings.map fun (key, value) => .question api key value

/-- The whole dialogue, in the order of the APIs and of their settings. -/
def Providers.prompts (providers : Providers) : List Prompt :=
  providers.entries.flatMap fun (api, provider) => provider.prompts api

abbrev Bytes := List UInt8

/-- The first line with its end, and the bytes behind it. -/
def takeLine : Bytes → Bytes × Bytes
  | [] => ([], [])
  | byte :: rest =>
      if byte = 10 then ([byte], rest)
      else
        let (line, behind) := takeLine rest
        (byte :: line, behind)

/-- The value that an answer stands for: the one it holds as a YAML document, or else its text. -/
def answerValue (answer : String) : Value :=
  match Value.ofText answer with
  | .ok value => value
  | .error _ => .string answer

/-- What a line answers. A blank one leaves the setting as it is. -/
def replyOf (line : Bytes) : Except FileFault (Option Value) :=
  match String.fromUTF8? ⟨line.toArray⟩ with
  | none => throw .notText
  | some text =>
      let answer := Text.trim text
      return if answer = "" then none else some (answerValue answer)

/-- What has been shown, and what of the input has not been read. -/
structure Dialogue where
  transcript : String := ""
  unread : Bytes
deriving DecidableEq, Repr

def Dialogue.say (dialogue : Dialogue) (text : String) : Dialogue :=
  { dialogue with transcript := dialogue.transcript ++ text }

/-- Go through the parts of a dialogue. The replies to the questions stand in their order. -/
def Dialogue.repliesTo : List Prompt → Dialogue →
    Except FileFault (List (Option Value)) × Dialogue
  | [], dialogue => (.ok [], dialogue)
  | prompt :: rest, dialogue =>
      let dialogue := dialogue.say prompt.text
      if prompt.isQuestion then
        let (line, unread) := takeLine dialogue.unread
        let dialogue := { dialogue with unread }
        match replyOf line with
        | .error fault => (.error fault, dialogue)
        | .ok reply =>
            let (replies, dialogue) := Dialogue.repliesTo rest dialogue
            (replies.map (reply :: ·), dialogue)
      else Dialogue.repliesTo rest dialogue

/-- Put replies in place of values, and answer the replies that are left over. -/
def changeValues : List (Option Value) → List (Value × Value) →
    List (Value × Value) × List (Option Value)
  | replies, [] => ([], replies)
  | [], entries => (entries, [])
  | reply :: replies, (key, value) :: rest =>
      let (changed, left) := changeValues replies rest
      ((key, reply.getD value) :: changed, left)

/-- Put replies in place of the settings of a provider. -/
def Provider.withReplies (replies : List (Option Value)) (provider : Provider) :
    Provider × List (Option Value) :=
  match provider.config with
  | .mapping entries =>
      let (changed, left) := changeValues replies entries
      ({ provider with config := .mapping changed }, left)
  | _ => (provider, replies)

/-- Put the replies to a dialogue in place of the settings it was about. -/
def Providers.withReplies (providers : Providers) (replies : List (Option Value)) : Providers :=
  providers.mapAccum (fun replies provider => provider.withReplies replies) replies

/-- Ask for the settings of all providers. -/
def Dialogue.configure (dialogue : Dialogue) (providers : Providers) :
    Except Failure Providers × Dialogue :=
  let (replies, dialogue) := Dialogue.repliesTo providers.prompts dialogue
  match replies with
  | .ok replies => (.ok (providers.withReplies replies), dialogue)
  | .error fault => (.error (.file fault), dialogue)

end StackBridge.Build
