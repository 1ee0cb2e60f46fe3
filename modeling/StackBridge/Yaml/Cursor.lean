/-
Moving through a YAML text. Besides carriage return and line feed, three characters beyond ASCII
break a line; a carriage return followed by a line feed is one break.
-/
import StackBridge.Yaml.Fault

namespace StackBridge.Yaml

structure Cursor where
  rest : List Char
  mark : Mark
deriving DecidableEq, Repr

def isBreak (c : Char) : Bool :=
  c = '\r' || c = '\n' || c.toNat = 0x85 || c.toNat = 0x2028 || c.toNat = 0x2029

def isBlank (c : Char) : Bool :=
  c = ' ' || c = '\t'

def isNameChar (c : Char) : Bool :=
  ('0' ≤ c && c ≤ '9') || ('A' ≤ c && c ≤ 'Z') || ('a' ≤ c && c ≤ 'z') ||
    c = '_' || c = '-'

/-- Whether a character satisfies a test or the text is at its end. -/
def endOr (test : Char → Bool) : Option Char → Bool
  | none => true
  | some c => test c

def endsLine (c : Option Char) : Bool :=
  endOr isBreak c

def endsWord (c : Option Char) : Bool :=
  endOr (fun c => isBlank c || isBreak c) c

def hexValue? (c : Char) : Option Nat :=
  if '0' ≤ c && c ≤ '9' then some (c.toNat - 48)
  else if 'a' ≤ c && c ≤ 'f' then some (c.toNat - 87)
  else if 'A' ≤ c && c ≤ 'F' then some (c.toNat - 55)
  else none

namespace Cursor

def start (text : String) : Cursor :=
  ⟨text.toList, .start⟩

def at? (cursor : Cursor) (ahead : Nat) : Option Char :=
  (cursor.rest.drop ahead).head?

def next (cursor : Cursor) : Cursor :=
  match cursor.rest with
  | [] => cursor
  | _ :: rest => ⟨rest, ⟨cursor.mark.index + 1, cursor.mark.line, cursor.mark.column + 1⟩⟩

/-- Past a line break, with the characters that the break stands for in a value. -/
def nextLine (cursor : Cursor) : List Char × Cursor :=
  let behind (count : Nat) (rest : List Char) : Cursor :=
    ⟨rest, ⟨cursor.mark.index + count, cursor.mark.line + 1, 0⟩⟩
  match cursor.rest with
  | '\r' :: '\n' :: rest => (['\n'], behind 2 rest)
  | c :: rest =>
      if c = '\r' || c = '\n' || c.toNat = 0x85 then (['\n'], behind 1 rest)
      else if isBreak c then ([c], behind 1 rest)
      else ([], cursor)
  | [] => ([], cursor)

def skipWhile (cursor : Cursor) (test : Char → Bool) : Cursor :=
  let count := (cursor.rest.takeWhile test).length
  ⟨cursor.rest.dropWhile test,
    ⟨cursor.mark.index + count, cursor.mark.line, cursor.mark.column + count⟩⟩

/-- Whether a document marker, three times the same character, stands at the start of this line. -/
def atMarker (cursor : Cursor) (c : Char) : Bool :=
  cursor.mark.column = 0 && cursor.rest.take 3 == [c, c, c] && endsWord (cursor.at? 3)

/-- Whether one of the two document markers stands here. -/
def atDocumentMarker (cursor : Cursor) : Bool :=
  cursor.atMarker '-' || cursor.atMarker '.'

end Cursor

/-- A lexer moves the cursor and answers what it found, or complains about the text. -/
abbrev Lexer (α : Type) := StateT Cursor (Except Malformed) α

namespace Lexer

variable {α : Type}

def peek (ahead : Nat := 0) : Lexer (Option Char) := do
  return (← get).at? ahead

def advance : Lexer Unit :=
  modify Cursor.next

/-- Move past a line break, if one stands here, and answer what it stands for. -/
def lineBreak : Lexer (List Char) :=
  modifyGet Cursor.nextLine

def skipWhile (test : Char → Bool) : Lexer Unit :=
  modify (·.skipWhile test)

/-- Move past the characters of one line that satisfy a test and answer them. -/
def takeWhile (test : Char → Bool) : Lexer (List Char) := do
  let found := (← get).rest.takeWhile test
  skipWhile test
  return found

/-- Move past a comment, if one stands here. -/
def skipComment : Lexer Unit := do
  if (← peek) = some '#' then skipWhile (fun c => !isBreak c)

def here : Lexer Mark := do
  return (← get).mark

def failAt (mark : Mark) (problem : Problem) (activity : Option (Activity × Mark)) : Lexer α :=
  throw ⟨problem, mark, activity⟩

/-- Complain about the text here, while doing something that began elsewhere. -/
def fail (problem : Problem) (activity : Activity) (since : Mark) : Lexer α := do
  failAt (← here) problem (some (activity, since))

/-- An upper bound for the number of steps that a lexer can still make. -/
def remaining : Lexer Nat := do
  return (← get).rest.length + 1

end Lexer

end StackBridge.Yaml
