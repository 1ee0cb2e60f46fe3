/-
How a well-formed document can fail to be a value of a wanted type. The causes are the same for
every document format; the formats differ in two words, which a `Wording` supplies.
-/
import StackBridge.Text.Quoted

namespace StackBridge

/-- What stood in the document. -/
inductive Found where
  | nothing
  | boolean (b : Bool)
  | whole (n : Int)
  /-- A whole number beyond 64 bits, with the name of a type that would hold it. -/
  | wide (n : Int) (holder : String)
  | float (x : Float)
  | text (s : String)
  | sequence
  | mapping
deriving DecidableEq, Repr

/-- Why a document is not a value of the wanted type. -/
inductive Mismatch where
  /-- Another kind of value than `wanted`. -/
  | wrongType (found : Found) (wanted : String)
  /-- The right kind, but none of its allowed values. -/
  | wrongValue (found : Found) (wanted : String)
  | wrongLength (length : Nat) (wanted : String)
  | missingField (name : String)
  | duplicateField (name : String)
  | unknownVariant (name : String) (allowed : List String)
  /-- None of the alternatives of an untagged choice fits. -/
  | noAlternative (choice : String)
deriving DecidableEq, Repr

/-- The words of a format: its name for the value that holds nothing, and its float text. -/
structure Wording where
  nothing : String
  float : Float → String

def Found.describe (words : Wording) : Found → String
  | .nothing => words.nothing
  | .boolean b => s!"boolean `{b}`"
  | .whole n => s!"integer `{n}`"
  | .wide n holder => s!"integer `{n}` as {holder}"
  | .float x => s!"floating point `{words.float x}`"
  | .text s => s!"string {Text.quoted s}"
  | .sequence => "sequence"
  | .mapping => "map"

def describeNames : List String → String
  | [] => "there are no variants"
  | [only] => s!"expected `{only}`"
  | [first, second] => s!"expected `{first}` or `{second}`"
  | names => "expected one of " ++ ", ".intercalate (names.map fun name => s!"`{name}`")

def Mismatch.message (words : Wording) : Mismatch → String
  | .wrongType found wanted => s!"invalid type: {found.describe words}, expected {wanted}"
  | .wrongValue found wanted => s!"invalid value: {found.describe words}, expected {wanted}"
  | .wrongLength length wanted => s!"invalid length {length}, expected {wanted}"
  | .missingField name => s!"missing field `{name}`"
  | .duplicateField name => s!"duplicate field `{name}`"
  | .unknownVariant name allowed => s!"unknown variant `{name}`, {describeNames allowed}"
  | .noAlternative choice => s!"data did not match any variant of untagged enum {choice}"

end StackBridge
