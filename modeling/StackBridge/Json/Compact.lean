/-
The compact text of a JSON value: no blanks, members in the order of the value.
-/
import StackBridge.Json.Basic

namespace StackBridge.Json

/-- Floats are written with their shortest digits, in full from five places after the point to
sixteen before it, otherwise with a signed exponent. -/
def floatLayout : Decimal.Layout where
  positional point := -5 < point && point ≤ 16
  plusSign := true
  nan := "null"
  infinity := "null"

def hexDigit (n : Nat) : Char :=
  if n < 10 then Char.ofNat (48 + n) else Char.ofNat (87 + n)

/-- One character of a string: quotes, backslashes and control characters are escaped, all else
stands as it is. -/
def escapeChar (c : Char) : List Char :=
  if c = '"' then ['\\', '"']
  else if c = '\\' then ['\\', '\\']
  else if c.toNat = 8 then ['\\', 'b']
  else if c.toNat = 12 then ['\\', 'f']
  else if c = '\n' then ['\\', 'n']
  else if c = '\r' then ['\\', 'r']
  else if c = '\t' then ['\\', 't']
  else if c.toNat < 32 then ['\\', 'u', '0', '0', hexDigit (c.toNat / 16), hexDigit (c.toNat % 16)]
  else [c]

def stringChars (s : String) : List Char :=
  '"' :: s.toList.flatMap escapeChar ++ ['"']

def intChars (n : Int) : List Char :=
  (if n < 0 then ['-'] else []) ++ Decimal.natChars n.natAbs

def numberChars : Number → List Char
  | .whole n => intChars n.val
  | .float x => floatLayout.chars x

mutual

/-- The compact text of a value. -/
def chars : Json → List Char
  | .null => ['n', 'u', 'l', 'l']
  | .bool true => ['t', 'r', 'u', 'e']
  | .bool false => ['f', 'a', 'l', 's', 'e']
  | .number n => numberChars n
  | .string s => stringChars s
  | .array [] => ['[', ']']
  | .array (item :: rest) => '[' :: chars item ++ charsItems rest ++ [']']
  | .object [] => ['\x7b', '\x7d']
  | .object (member :: rest) =>
      '\x7b' :: stringChars member.1 ++ ':' :: chars member.2 ++ charsMembers rest ++ ['\x7d']

/-- The items after the first, each behind a comma. -/
def charsItems : List Json → List Char
  | [] => []
  | item :: rest => ',' :: chars item ++ charsItems rest

def charsMembers : List (String × Json) → List Char
  | [] => []
  | member :: rest => ',' :: stringChars member.1 ++ ':' :: chars member.2 ++ charsMembers rest

end

def compact (value : Json) : String :=
  String.ofList (chars value)

end StackBridge.Json
