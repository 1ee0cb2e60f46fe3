/-
The APIs that a stack can be built for.
-/
import StackBridge.Codec.Variant
import StackBridge.Failure

namespace StackBridge.Build

/-- An API of the stack. -/
inductive StackApi where
  | inference
  | safety
  | agenticSystem
  | memory
deriving DecidableEq, Repr

namespace StackApi

def all : List StackApi := [.inference, .safety, .agenticSystem, .memory]

def name : StackApi → String
  | .inference => "inference"
  | .safety => "safety"
  | .agenticSystem => "agentic_system"
  | .memory => "memory"

def allowed : String :=
  ", ".intercalate (all.map name)

def find? (wanted : String) : Option StackApi :=
  all.find? (fun api => api.name == wanted)

/-- The API of that name, or a complaint that lists the names there are. -/
def ofName (wanted : String) : Except Failure StackApi :=
  match find? wanted with
  | some api => return api
  | none => throw <| .validation s!"unknown stack API '{wanted}'"
      { fieldPath := some "api", details := some s!"one of: {allowed}" }

def wireName : StackApi → String
  | .inference => "inference"
  | .safety => "safety"
  | .agenticSystem => "agentic_system"
  | .memory => "memory"

def codec : Codec StackApi :=
  Codec.named all wireName

end StackApi

end StackBridge.Build
