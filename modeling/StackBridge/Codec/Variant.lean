/-
Codecs of types with alternatives: those whose values are names, and untagged ones, of which the
first alternative that fits is taken.
-/
import StackBridge.Codec.Basic

namespace StackBridge.Codec

open Json (Reader)

variable {α β : Type}

def ofName (values : List α) (name : α → String) (wanted : String) : Except Mismatch α :=
  match values.find? (fun value => name value == wanted) with
  | some value => return value
  | none => throw (.unknownVariant wanted (values.map name))

/-- A name at whose opening quote the cursor stands. -/
def readName (values : List α) (name : α → String) : Reader α := readToken fun c =>
  if c = '"' then Reader.anchored do
    checked (ofName values name (← Reader.key))
  else Reader.refuse "variant identifier"

/-- A type whose values are names. A name may also be the only member of an object, with the value
null. -/
def named (values : List α) (name : α → String) : Codec α where
  encode value := .string (name value)
  decode
    | .string s => ofName values name s
    | .object [(s, payload)] => do
        let value ← ofName values name s
        match payload with
        | .null => return value
        | other => wrongKind "unit" other
    | .object _ => throw (.wrongValue .mapping "map with a single key")
    | other => wrongKind "string or map" other
  read depth := readToken fun c =>
    if c = '"' then readName values name
    else if c = '\x7b' then Reader.deeper depth fun _ => do
      Reader.advance
      let value ← readName values name
      Reader.colon
      readToken fun c =>
        if c = 'n' then do
          Reader.advance
          Reader.word ['u', 'l', 'l']
        else Reader.refuse "unit"
      match ← Reader.peekToken with
      | some '\x7d' =>
          Reader.advance
          return value
      | some _ => Reader.failHere .expectedValue
      | none => Reader.failHere .endInObject
    else Reader.failNext .expectedValue

/-- One alternative of an untagged type. -/
def alternative (codec : Codec α) (make : α → β) (json : Json) : Option β :=
  match codec.decode json with
  | .ok value => some (make value)
  | .error _ => none

/-- A type whose values are those of several others, told apart by trying them in their order. -/
def untagged (name : String) (encode : α → Json) (alternatives : List (Json → Option α)) :
    Codec α where
  encode
  decode json :=
    match alternatives.findSome? (fun attempt => attempt json) with
    | some value => return value
    | none => throw (.noAlternative name)
  read depth := do
    let json ← Reader.value depth
    match alternatives.findSome? (fun attempt => attempt json) with
    | some value => return value
    | none => Reader.mismatch (.noAlternative name)

end StackBridge.Codec
