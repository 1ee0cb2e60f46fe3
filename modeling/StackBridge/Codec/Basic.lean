/-
Codecs between JSON and the types of the program. A type can be decoded from a value that is
already in memory and read from text; the two routes accept the same documents and differ in the
order in which they meet the members of an object and in the places of their faults.
-/
import StackBridge.Json.Compact
import StackBridge.Json.Reading

namespace StackBridge

def Json.found : Json → Found
  | .null => .nothing
  | .bool b => .boolean b
  | .number (.whole n) => .whole n.val
  | .number (.float x) => .float x
  | .string s => .text s
  | .array _ => .sequence
  | .object _ => .mapping

/-- How the values of a type are written and read as JSON. -/
structure Codec (α : Type) where
  /-- The value as JSON, the members of a structure in the order of its fields. -/
  encode : α → Json
  /-- The value of a JSON value. -/
  decode : Json → Except Mismatch α
  /-- The value of a text in which so many more lists and objects may be opened. -/
  read : Nat → Json.Reader α

namespace Codec

open Json (Reader)

variable {α β : Type}

def text (codec : Codec α) (value : α) : String :=
  (codec.encode value).compact

/-- The value as JSON in normal form. -/
def toJson (codec : Codec α) (value : α) : Json :=
  (codec.encode value).normal

def ofJson (codec : Codec α) (json : Json) : Except Json.Fault α :=
  (codec.decode json.normal).mapError (fun mismatch => ⟨.mismatch mismatch, none⟩)

def ofText (codec : Codec α) (text : String) : Except Json.Fault α :=
  Reader.parse (codec.read Json.maxDepth) text

/-- The complaint that a value is of another kind than the wanted one. -/
def wrongKind (wanted : String) (json : Json) : Except Mismatch α :=
  throw (.wrongType json.found wanted)

/-- Turn the mismatch of a scalar that was just read into a fault of the text. -/
def checked (result : Except Mismatch α) : Reader α :=
  match result with
  | .ok value => return value
  | .error mismatch => Reader.mismatch mismatch

/-- Read a value whose first character says what it is. -/
def readToken (reader : Char → Reader α) : Reader α := do
  match ← Reader.peekToken with
  | none => Reader.failNext .endInValue
  | some c => reader c

def string : Codec String where
  encode := .string
  decode
    | .string s => return s
    | other => wrongKind "a string" other
  read _ := readToken fun c =>
    if c = '"' then do
      Reader.advance
      Reader.string
    else Reader.refuse "a string"

def bool : Codec Bool where
  encode := .bool
  decode
    | .bool b => return b
    | other => wrongKind "a boolean" other
  read _ := readToken fun c =>
    if c = 't' then do
      Reader.advance
      Reader.word ['r', 'u', 'e']
      return true
    else if c = 'f' then do
      Reader.advance
      Reader.word ['a', 'l', 's', 'e']
      return false
    else Reader.refuse "a boolean"

/-- A number that passes a check. -/
def numeric (wanted : String) (encode : α → Json) (check : Number → Except Mismatch α) :
    Codec α where
  encode
  decode
    | .number n => check n
    | other => wrongKind wanted other
  read _ := readToken fun c =>
    if c = '-' then Reader.anchored do
      Reader.advance
      checked (check (← Reader.number true))
    else if c.isDigit then Reader.anchored do
      checked (check (← Reader.number false))
    else Reader.refuse wanted

/-- A float. Whole numbers are accepted too. -/
def float : Codec Float :=
  numeric "f64" (fun x => .number (.float x)) (fun n => return n.toFloat)

/-- A whole number within the range of a word. -/
def word (wanted : String) (encode : α → Whole) (ofInt? : Int → Option α) : Codec α :=
  numeric wanted (fun value => Json.whole (encode value)) fun
    | .whole n =>
        match ofInt? n.val with
        | some value => return value
        | none => throw (.wrongValue (.whole n.val) wanted)
    | .float x => throw (.wrongType (.float x) wanted)

def uint32 : Codec UInt32 :=
  word "u32" Whole.ofUInt32 fun n =>
    if 0 ≤ n && n < 0x100000000 then some (UInt32.ofNat n.toNat) else none

def int64 : Codec Int64 :=
  word "i64" Whole.ofInt64 fun n =>
    if -0x8000000000000000 ≤ n && n < 0x8000000000000000 then some (Int64.ofInt n) else none

/-- Any JSON value, in normal form. -/
def any : Codec Json where
  encode value := value
  decode json := return json.normal
  read depth := return (← Reader.value depth).normal

def option (codec : Codec α) : Codec (Option α) where
  encode
    | none => .null
    | some value => codec.encode value
  decode
    | .null => return none
    | other => some <$> codec.decode other
  read depth := do
    if (← Reader.peekToken) = some 'n' then
      Reader.advance
      Reader.word ['u', 'l', 'l']
      return none
    else some <$> codec.read depth

def list (codec : Codec α) : Codec (List α) where
  encode values := .array (values.map codec.encode)
  decode
    | .array items => items.mapM codec.decode
    | other => wrongKind "a sequence" other
  read depth := readToken fun c =>
    if c = '[' then Reader.anchored <| Reader.deeper depth fun depth =>
      Reader.list (Reader.items (codec.read depth))
    else Reader.refuse "a sequence"

/-- A map from text to values. A name may be repeated; its last value stays. -/
def map (codec : Codec α) : Codec (SortedMap α) where
  encode values := Json.ofMap (values.mapValues codec.encode)
  decode
    | .object members =>
        SortedMap.ofList <$> members.mapM fun member => (member.1, ·) <$> codec.decode member.2
    | other => wrongKind "a map" other
  read depth := readToken fun c =>
    if c = '\x7b' then Reader.anchored <| Reader.deeper depth fun depth =>
      Reader.object <| Reader.members (fun name values => do
        Reader.colon
        return values.insert name (← codec.read depth)) SortedMap.empty
    else Reader.refuse "a map"

/-- The values of one type as those of another. -/
def mapped (codec : Codec α) (make : α → β) (view : β → α) : Codec β where
  encode value := codec.encode (view value)
  decode json := make <$> codec.decode json
  read depth := make <$> codec.read depth

end Codec

end StackBridge
