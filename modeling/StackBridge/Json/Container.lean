/-
Brackets, commas and keys: the parts of lists and objects that do not depend on what they hold.
Lists and objects may stand inside each other only to a certain depth; a reader is told how many
more levels it may open.
-/
import StackBridge.Json.Lexeme

namespace StackBridge.Json

/-- How many lists and objects may be open at once. -/
def maxDepth : Nat := 127

namespace Reader

variable {α β : Type}

def nextItem (isFirst : Bool) : Reader Bool := do
  match ← peekToken with
  | none => failNext .endInList
  | some ']' => return false
  | some c =>
      if isFirst then return true
      if c ≠ ',' then failNext .expectedCommaInList
      advance
      match ← peekToken with
      | none => failNext .endInValue
      | some ']' => failNext .trailingComma
      | some _ => return true

/-- Whether another member follows in an object. If so the cursor is at its opening quote. -/
def nextMember (isFirst : Bool) : Reader Bool := do
  match ← peekToken with
  | none => failNext .endInObject
  | some '\x7d' => return false
  | some c =>
      if isFirst then
        if c = '"' then return true else failNext .keyNotString
      if c ≠ ',' then failNext .expectedCommaInObject
      advance
      match ← peekToken with
      | none => failNext .endInValue
      | some '"' => return true
      | some '\x7d' => failNext .trailingComma
      | some _ => failNext .keyNotString

def closeList : Reader Unit := do
  match ← peekToken with
  | none => failNext .endInList
  | some ']' => advance
  | some ',' =>
      advance
      match ← peekToken with
      | some ']' => failNext .trailingComma
      | _ => failNext .trailingCharacters
  | some _ => failNext .trailingCharacters

def closeObject : Reader Unit := do
  match ← peekToken with
  | none => failNext .endInObject
  | some '\x7d' => advance
  | some ',' => failNext .trailingComma
  | some _ => failNext .trailingCharacters

/-- A list behind its opening bracket that the cursor stands at. -/
def list (body : Reader α) : Reader α := do
  advance
  closedBy body closeList

/-- An object behind its opening bracket that the cursor stands at. -/
def object (body : Reader α) : Reader α := do
  advance
  closedBy body closeObject

/-- Spend one level of depth on what follows. -/
def deeper (depth : Nat) (inner : Nat → Reader α) : Reader α :=
  match depth with
  | 0 => failNext .tooDeep
  | depth + 1 => inner depth

/-- The name of a member, at whose opening quote the cursor stands. -/
def key : Reader String := do
  advance
  string

def colon : Reader Unit := do
  match ← peekToken with
  | none => failNext .endInObject
  | some c => if c = ':' then advance else failNext .expectedColon

/-- The items of a list up to its closing bracket, behind those already read. -/
def itemsFrom (item : Reader α) : Nat → List α → Reader (List α)
  | 0, _ => failNext .endInList
  | steps + 1, read => do
      if ← nextItem read.isEmpty then
        let value ← item
        itemsFrom item steps (value :: read)
      else return read.reverse

def items (item : Reader α) : Reader (List α) := do
  itemsFrom item (← remaining) []

/-- The members of an object up to its closing bracket. Each is read by a reader that depends on
its name and on what the members before it gave. -/
def membersFrom (member : String → β → Reader β) : Nat → Bool → β → Reader β
  | 0, _, _ => failNext .endInObject
  | steps + 1, isFirst, state => do
      if ← nextMember isFirst then
        let name ← key
        let state ← member name state
        membersFrom member steps false state
      else return state

def members (member : String → β → Reader β) (start : β) : Reader β := do
  membersFrom member (← remaining) true start

end Reader

end StackBridge.Json
