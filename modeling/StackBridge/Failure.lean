/-
What can go wrong in the program as a whole.
-/
import StackBridge.FileTree
import StackBridge.Json.Cursor
import StackBridge.Yaml.Fault

namespace StackBridge

/-- Where in a document or a file a failure was detected. Any part may be unset. -/
structure Context where
  /-- The way to the offending part, such as `choices[0].finish_reason`. -/
  fieldPath : Option String := none
  /-- The allowed values, the path of the file, or some other detail. -/
  details : Option String := none
  /-- The component that noticed. -/
  source : Option String := none
deriving DecidableEq, Repr

namespace Context

def withFieldPath (context : Context) (path : String) : Context :=
  { context with fieldPath := some path }

def withDetails (context : Context) (details : String) : Context :=
  { context with details := some details }

def withSource (context : Context) (source : String) : Context :=
  { context with source := some source }

def parts (context : Context) : List (String × String) :=
  [("field", context.fieldPath), ("details", context.details), ("source", context.source)].filterMap
    fun (label, value) => value.map (label, ·)

/-- The context in words, behind a message. -/
def describe (context : Context) : String :=
  match context.parts with
  | [] => ""
  | parts => " (" ++ ", ".intercalate (parts.map fun (label, value) => s!"{label}: {value}") ++ ")"

end Context

/-- A failure of the program. -/
inductive Failure where
  /-- The provider broke its contract: no choice, message or finish reason where one is due. -/
  | malformedResponse (message : String) (context : Context)
  /-- The arguments of a tool call are not a JSON object. -/
  | toolArguments (callId : String) (fault : Json.Fault)
  /-- Reported by the source of the chunks and passed on. -/
  | chunkSource (message : String)
  | configuration (message : String) (context : Context)
  | validation (message : String) (context : Context)
  | file (fault : FileFault)
  | json (fault : Json.Fault)
  | yaml (fault : Yaml.Fault)
deriving DecidableEq, Repr

namespace Failure

def message : Failure → String
  | .malformedResponse message context => s!"error in server response: {message}{context.describe}"
  | .toolArguments callId fault =>
      s!"invalid tool call arguments for call '{callId}': {fault.message}"
  | .chunkSource message => s!"upstream stream error: {message}"
  | .configuration message context => s!"Configuration error: {message}{context.describe}"
  | .validation message context => s!"Validation error: {message}{context.describe}"
  | .file fault => s!"I/O error: {fault.message}"
  | .json fault => s!"Serialization error: {fault.message}"
  | .yaml fault => s!"YAML error: {fault.message}"

/-- What lies behind a failure that another part of the program has reported. -/
def cause? : Failure → Option String
  | .toolArguments _ fault | .json fault => some fault.message
  | .file fault => some fault.message
  | .yaml fault => some fault.message
  | .malformedResponse .. | .chunkSource _ | .configuration .. | .validation .. => none

/-- A failure with what lies behind it. -/
def report (failure : Failure) : String :=
  match failure.cause? with
  | some cause => s!"{failure.message}: {cause}"
  | none => failure.message

def context? : Failure → Option Context
  | .malformedResponse _ context | .configuration _ context | .validation _ context => some context
  | _ => none

end Failure

end StackBridge
