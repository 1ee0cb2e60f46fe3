/-
Codecs of structures. A structure is an object with a member per field, in any order and among
members that are ignored, or an array of its fields in their order. Fields that are absent may have
a default; a member may not be given twice.
-/
import StackBridge.Codec.Basic

namespace StackBridge

/-- One field of a structure. -/
structure Field (α : Type) where
  name : String
  codec : Codec α
  /-- The value of a field that is absent. Without one the field has to be given. -/
  absent : Option α
  /-- Which values are left out when the structure is written. -/
  omitted : α → Bool

namespace Field

variable {α : Type}

def required (name : String) (codec : Codec α) : Field α :=
  ⟨name, codec, none, fun _ => false⟩

/-- A field with a default. -/
def withDefault (name : String) (codec : Codec α) (value : α) : Field α :=
  ⟨name, codec, some value, fun _ => false⟩

/-- A field that may be absent or null, and is written as null when it is not set. -/
def nullable (name : String) (codec : Codec α) : Field (Option α) :=
  ⟨name, codec.option, some none, fun _ => false⟩

/-- A field that may be absent or null, and is left out when it is not set. -/
def optional (name : String) (codec : Codec α) : Field (Option α) :=
  ⟨name, codec.option, some none, Option.isNone⟩

end Field

/-- The fields of a structure in their order: `τ` holds a value for each, `σ` perhaps a value. -/
inductive Fields : Type → Type → Type 1 where
  | nil : Fields Unit Unit
  | cons {α σ τ : Type} (field : Field α) (rest : Fields σ τ) :
      Fields (Option α × σ) (α × τ)

namespace Fields

open Json (Reader)

def unset {σ τ : Type} : Fields σ τ → σ
  | .nil => ()
  | .cons _ rest => (none, rest.unset)

def size {σ τ : Type} : Fields σ τ → Nat
  | .nil => 0
  | .cons _ rest => rest.size + 1

def encode {σ τ : Type} : Fields σ τ → τ → List (String × Json)
  | .nil, _ => []
  | .cons field rest, (value, values) =>
      if field.omitted value then rest.encode values
      else (field.name, field.codec.encode value) :: rest.encode values

/-- Take in one member of an object. Members that belong to no field are ignored. -/
def decodeMember {σ τ : Type} (name : String) (json : Json) :
    Fields σ τ → σ → Except Mismatch σ
  | .nil, slots => return slots
  | .cons field rest, (slot, slots) =>
      if name = field.name then
        if slot.isSome then throw (.duplicateField name)
        else return (some (← field.codec.decode json), slots)
      else return (slot, ← rest.decodeMember name json slots)

/-- Take in one member of an object behind its name. -/
def readMember {σ τ : Type} (depth : Nat) (name : String) : Fields σ τ → σ → Reader σ
  | .nil, slots => do
      Reader.colon
      Reader.skip
      return slots
  | .cons field rest, (slot, slots) => do
      if name = field.name then
        if slot.isSome then Reader.mismatch (.duplicateField name)
        Reader.colon
        return (some (← field.codec.read depth), slots)
      else return (slot, ← rest.readMember depth name slots)

def finish {σ τ : Type} : Fields σ τ → σ → Except Mismatch τ
  | .nil, _ => return ()
  | .cons field rest, (slot, slots) =>
      match slot <|> field.absent with
      | some value => return (value, ← rest.finish slots)
      | none => throw (.missingField field.name)

/-- The fields from the `index`-th on, taken from the front of a list of items. -/
def decodeItems {σ τ : Type} (tooShort : Nat → Mismatch) (index : Nat) :
    Fields σ τ → List Json → Except Mismatch (τ × List Json)
  | .nil, items => return ((), items)
  | .cons field rest, item :: items => do
      let value ← field.codec.decode item
      let (values, left) ← rest.decodeItems tooShort (index + 1) items
      return ((value, values), left)
  | .cons field rest, [] =>
      match field.absent with
      | none => throw (tooShort index)
      | some value => do
          let (values, left) ← rest.decodeItems tooShort (index + 1) []
          return ((value, values), left)

/-- The fields from the `index`-th on, read from the items of a list. -/
def readItems {σ τ : Type} (tooShort : Nat → Mismatch) (depth index : Nat) :
    Fields σ τ → Reader τ
  | .nil => return ()
  | .cons field rest => do
      if ← Reader.nextItem (index = 0) then
        let value ← field.codec.read depth
        return (value, ← rest.readItems tooShort depth (index + 1))
      else
        match field.absent with
        | none => Reader.mismatch (tooShort index)
        | some value => return (value, ← rest.readItems tooShort depth (index + 1))

/-- The complaint about an array that ends before its structure does. -/
def tooShort (name : String) (size index : Nat) : Mismatch :=
  let noun := if size = 1 then "element" else "elements"
  .wrongLength index s!"struct {name} with {size} {noun}"

end Fields

open Json (Reader) in
def Codec.record {α σ τ : Type} (name : String) (fields : Fields σ τ) (make : τ → α)
    (parts : α → τ) : Codec α where
  encode value := .object (fields.encode (parts value))
  decode
    | .object members => do
        let slots ← members.foldlM
          (fun slots member => fields.decodeMember member.1 member.2 slots) fields.unset
        return make (← fields.finish slots)
    | .array items => do
        let (values, left) ← fields.decodeItems (Fields.tooShort name fields.size) 0 items
        if left.isEmpty then return make values
        else throw (.wrongLength items.length "fewer elements in array")
    | other => wrongKind s!"struct {name}" other
  read depth := readToken fun c =>
    if c = '\x7b' then Reader.anchored <| Reader.deeper depth fun depth =>
      Reader.object do
        let slots ← Reader.members (fields.readMember depth) fields.unset
        return make (← checked (fields.finish slots))
    else if c = '[' then Reader.anchored <| Reader.deeper depth fun depth =>
      Reader.list do
        return make (← fields.readItems (Fields.tooShort name fields.size) depth 0)
    else Reader.refuse s!"struct {name}"

end StackBridge
