/-
Moving past a value that nobody asked for. Its text is still checked, but less closely than that
of a value that is read: numbers may be out of range, surrogates need not come in pairs, and lists
and objects may stand inside each other to any depth.
-/
import StackBridge.Json.Container

namespace StackBridge.Json

/-- The kind of a list or an object whose closing bracket is still due. -/
inductive Bracket where
  | list
  | object
deriving DecidableEq, Repr

def Bracket.closing : Bracket → Char
  | .list => ']'
  | .object => '\x7d'

def Bracket.unfinished : Bracket → Malformed
  | .list => .endInList
  | .object => .endInObject

def Bracket.commaMissing : Bracket → Malformed
  | .list => .expectedCommaInList
  | .object => .expectedCommaInObject

namespace Reader

/-- Past the rest of a string up to its closing quote. -/
def skipStringBody : Nat → Reader Unit
  | 0 => failHere .endInString
  | steps + 1 => do
      match ← peek with
      | none => failHere .endInString
      | some '"' => advance
      | some '\\' =>
          advance
          match ← peek with
          | none => failHere .endInString
          | some 'u' =>
              advance
              let _ ← hexEscape
          | some c =>
              if (escape.simpleEscape? c).isNone then failNext .invalidEscape
              advance
          skipStringBody steps
      | some c =>
          if c.toNat < 0x20 then failHere .controlCharacter
          advance
          skipStringBody steps

def skipString : Reader Unit := do
  skipStringBody (← remaining)

/-- Past the exponent of a number, from its letter on. -/
def skipExponent : Reader Unit := do
  advance
  let sign ← peek
  if sign = some '+' || sign = some '-' then advance
  match ← peek with
  | none => failHere .invalidNumber
  | some c => if !c.isDigit then failNext .invalidNumber
  let _ ← digits

def skipNumber : Reader Unit := do
  match ← peek with
  | none => failHere .invalidNumber
  | some '0' =>
      advance
      match ← peek with
      | none => return
      | some c => if c.isDigit then failNext .invalidNumber
  | some c =>
      if !c.isDigit then failNext .invalidNumber
      let _ ← digits
  match ← peek with
  | some '.' =>
      advance
      if (← digits).isEmpty then failNext .invalidNumber
      match ← peek with
      | some 'e' | some 'E' => skipExponent
      | _ => return
  | some 'e' | some 'E' => skipExponent
  | _ => return

/-- Past the name of a member and its colon. -/
def skipKey : Reader Unit := do
  match ← peekToken with
  | none => failNext .endInObject
  | some '"' =>
      advance
      skipString
      colon
  | some _ => failNext .keyNotString

/-- Whether the bracket closes here (`true`) or another value follows (`false`). Only behind a
value may a comma stand, and behind a comma a value has to follow. -/
def skipSeparator (bracket : Bracket) (behindValue : Bool) : Reader Bool := do
  match ← peekToken with
  | none => failNext bracket.unfinished
  | some c =>
      if behindValue && c = ',' then
        advance
        return false
      else if c = bracket.closing then
        advance
        return true
      else if behindValue then failNext bracket.commaMissing
      else return false

mutual

/-- Past one value. The first argument bounds the number of steps. -/
def skipValue : Nat → Reader Unit
  | 0 => failNext .endInValue
  | steps + 1 => do
      match ← peekToken with
      | none => failNext .endInValue
      | some 'n' =>
          advance
          word ['u', 'l', 'l']
      | some 't' =>
          advance
          word ['r', 'u', 'e']
      | some 'f' =>
          advance
          word ['a', 'l', 's', 'e']
      | some '-' =>
          advance
          skipNumber
      | some '"' =>
          advance
          skipString
      | some '[' =>
          advance
          skipRest steps .list false
      | some '\x7b' =>
          advance
          skipRest steps .object false
      | some c => if c.isDigit then skipNumber else failNext .expectedValue

/-- Past the rest of a list or an object. -/
def skipRest : Nat → Bracket → Bool → Reader Unit
  | 0, bracket, _ => failNext bracket.unfinished
  | steps + 1, bracket, behindValue => do
      if ← skipSeparator bracket behindValue then return
      if bracket = .object then skipKey
      skipValue steps
      skipRest steps bracket true

end

/-- Past one value of any kind. -/
def skip : Reader Unit := do
  let steps ← remaining
  skipValue (2 * steps)

end Reader

end StackBridge.Json
