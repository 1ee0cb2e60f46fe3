/-
Reading whole values. Members are kept as they stand, so a value read here is not in normal form
unless its text was.
-/
import StackBridge.Json.Skip

namespace StackBridge.Json

namespace Reader

variable {α : Type}

/-- A value without parts, or else whatever the reader for lists and objects makes of it. -/
def valueOr (listValue objectValue : Reader Json) : Reader Json := do
  match ← peekToken with
  | none => failNext .endInValue
  | some 'n' =>
      advance
      word ['u', 'l', 'l']
      return .null
  | some 't' =>
      advance
      word ['r', 'u', 'e']
      return .bool true
  | some 'f' =>
      advance
      word ['a', 'l', 's', 'e']
      return .bool false
  | some '-' =>
      advance
      return .number (← number true)
  | some '"' =>
      advance
      return .string (← string)
  | some '[' => listValue
  | some '\x7b' => objectValue
  | some c => if c.isDigit then return .number (← number false) else failNext .expectedValue

/-- One value of any kind, its members as they stand. -/
def value : Nat → Reader Json
  | 0 => valueOr (failNext .tooDeep) (failNext .tooDeep)
  | depth + 1 =>
      valueOr
        (return .array (← list (items (value depth))))
        (return .object (← object (members (fun name read => do
          colon
          return (name, ← value depth) :: read) [])).reverse)

/-- Complain about a value that is of another kind than the wanted one. A value without parts is
read first, and its own faults come first; of a list or an object nothing is read. -/
def refuse (wanted : String) : Reader α := anchored do
  match ← peek with
  | some '[' => mismatch (.wrongType .sequence wanted)
  | some '\x7b' => mismatch (.wrongType .mapping wanted)
  | _ =>
      match ← valueOr (failNext .expectedValue) (failNext .expectedValue) with
      | .null => mismatch (.wrongType .nothing wanted)
      | .bool b => mismatch (.wrongType (.boolean b) wanted)
      | .number (.whole n) => mismatch (.wrongType (.whole n.val) wanted)
      | .number (.float x) => mismatch (.wrongType (.float x) wanted)
      | .string s => mismatch (.wrongType (.text s) wanted)
      | .array _ => mismatch (.wrongType .sequence wanted)
      | .object _ => mismatch (.wrongType .mapping wanted)

/-- The end of the text, which only blanks may come before. -/
def atEnd : Reader Unit := do
  match ← peekToken with
  | none => return
  | some _ => failNext .trailingCharacters

def parse (reader : Reader α) (text : String) : Except Fault α :=
  let whole : Reader α := do
    let result ← reader
    atEnd
    return result
  (whole.run (Cursor.start text)).1

end Reader

def parse (text : String) : Except Fault Json :=
  Reader.parse (Reader.value maxDepth) text

end StackBridge.Json
