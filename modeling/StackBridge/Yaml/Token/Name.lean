/-
Tokens that are names: anchors, aliases, tags and directives.
-/
import StackBridge.Yaml.Token

namespace StackBridge.Yaml.Lexer

def anchor (isAlias : Bool) : Lexer Token := do
  let start ← here
  advance
  let name ← takeWhile isNameChar
  let stop ← here
  let next ← peek
  let ends := endsWord next || next.any fun c =>
    c = '?' || c = ':' || c = ',' || c = ']' || c = '\x7d' || c = '%' || c = '@' || c = '\x60'
  if name.isEmpty || !ends then
    fail .nameMissing (if isAlias then .scanningAlias else .scanningAnchor) start
  let name := String.ofList name
  return ⟨if isAlias then .aliased name else .anchor name, start, stop⟩

/-- The bytes that a leading octet announces, itself included. -/
def octetCount (octet : Nat) : Nat :=
  if octet < 0x80 then 1
  else if octet / 32 = 6 then 2
  else if octet / 16 = 14 then 3
  else if octet / 8 = 30 then 4
  else 0

/-- One octet that is written as a percent sign and two hexadecimal digits. -/
def escapedOctet (activity : Activity) (start : Mark) : Lexer UInt8 := do
  match (← get).rest with
  | '%' :: a :: b :: _ =>
      match hexValue? a, hexValue? b with
      | some high, some low =>
          advance
          advance
          advance
          return UInt8.ofNat (high * 16 + low)
      | _, _ => fail .octetMissing activity start
  | _ => fail .octetMissing activity start

/-- The octets behind a leading one. -/
def trailingOctets (activity : Activity) (start : Mark) : Nat → Lexer (List UInt8)
  | 0 => return []
  | count + 1 => do
      let octet ← escapedOctet activity start
      if octet.toNat / 64 ≠ 2 then
        failAt (← markBeforeEscape) .octetTrailing (some (activity, start))
      return octet :: (← trailingOctets activity start count)
where
  /-- The place of the escape that was just read. -/
  markBeforeEscape : Lexer Mark := do
    let mark ← here
    return ⟨mark.index - 3, mark.line, mark.column - 3⟩

def escapedCharacter (activity : Activity) (start : Mark) : Lexer (List UInt8) := do
  let before ← here
  let octet ← escapedOctet activity start
  let count := octetCount octet.toNat
  if count = 0 then failAt before .octetLeading (some (activity, start))
  return octet :: (← trailingOctets activity start (count - 1))

/-- Whether a character can be part of a tag. Between angle brackets three more can. -/
def isTagChar (verbatim : Bool) (c : Char) : Bool :=
  isNameChar c || ";/?:@&=+$.%!~*'()".toList.contains c ||
    (verbatim && (c = ',' || c = '[' || c = ']'))

/-- The bytes of a tag up to the first character that cannot be part of it. -/
def tagBytes (verbatim : Bool) (activity : Activity) (start : Mark) : Nat → Lexer (List UInt8)
  | 0 => return []
  | steps + 1 => do
      match ← peek with
      | some '%' => do
          let octets ← escapedCharacter activity start
          return octets ++ (← tagBytes verbatim activity start steps)
      | some c =>
          if isTagChar verbatim c then
            advance
            return c.toString.toUTF8.toList ++ (← tagBytes verbatim activity start steps)
          else return []
      | none => return []

/-- The text of the bytes of a tag, which end before the first zero. Bytes that are not UTF-8 leave
the one character that no tag with a text has. -/
def textOfTag (bytes : List UInt8) : String :=
  (String.fromUTF8? ⟨(bytes.takeWhile (· ≠ 0)).toArray⟩).getD "\x00"

/-- The text of a tag behind what has been read of it. -/
def tagText (verbatim : Bool) (activity : Activity) (start : Mark) (head : List Char) :
    Lexer String := do
  let bytes ← tagBytes verbatim activity start (← remaining)
  if bytes.isEmpty && head.isEmpty then fail .tagUriMissing activity start
  let written := (String.ofList (head.drop 1)).toUTF8.toList ++ bytes
  return textOfTag written

/-- The handle of a tag: an exclamation mark, a name and perhaps another mark. -/
def tagHandle (directive : Bool) (start : Mark) : Lexer (List Char) := do
  if (← peek) ≠ some '!' then
    fail .tagBangMissing (if directive then .scanningTagHandle else .scanningTag) start
  advance
  let name ← takeWhile isNameChar
  if (← peek) = some '!' then
    advance
    return '!' :: name ++ ['!']
  if directive && !name.isEmpty then fail .tagBangMissing .parsingTagHandle start
  return '!' :: name

/-- A tag between angle brackets, which stands for itself. -/
def verbatimTag (start : Mark) : Lexer (String × String) := do
  advance
  advance
  let suffix ← tagText true .parsingTag start []
  if (← peek) ≠ some '>' then fail .tagAngleMissing .scanningTag start
  advance
  return ("", suffix)

/-- A tag with a handle, or a local one. The single exclamation mark is a tag too. -/
def shorthandTag (start : Mark) : Lexer (String × String) := do
  let handle ← tagHandle false start
  if 1 < handle.length && handle.getLast? = some '!' then
    let suffix ← tagText false .parsingTag start []
    return (String.ofList handle, suffix)
  let suffix ← tagText false .parsingTag start handle
  return if suffix = "" then ("", "!") else ("!", suffix)

def tag (inFlow : Bool) : Lexer Token := do
  let start ← here
  let (handle, suffix) ←
    if (← peek 1) = some '<' then verbatimTag start else shorthandTag start
  let next ← peek
  if !(endsWord next || (inFlow && next = some ',')) then
    fail .blankOrBreakMissing .scanningTag start
  return ⟨.tag handle suffix, start, ← here⟩

def versionNumber (start : Mark) : Lexer Nat := do
  let before ← here
  let digits ← takeWhile Char.isDigit
  if 9 < digits.length then
    failAt ⟨before.index + 9, before.line, before.column + 9⟩ .versionTooLong
      (some (.scanningVersion, start))
  if digits.isEmpty then fail .versionMissing .scanningVersion start
  return digits.foldl (fun n c => n * 10 + (c.toNat - 48)) 0

def versionDirective (start : Mark) : Lexer TokenKind := do
  skipWhile isBlank
  let major ← versionNumber start
  if (← peek) ≠ some '.' then fail .versionDigitOrDotMissing .scanningVersion start
  advance
  let minor ← versionNumber start
  return .versionDirective major minor

def tagDirective (start : Mark) : Lexer TokenKind := do
  skipWhile isBlank
  let handle ← tagHandle true start
  if !(← peek).any isBlank then fail .blankMissing .scanningTagDirective start
  skipWhile isBlank
  let expansion ← tagText true .parsingTagUri start []
  if !endsWord (← peek) then fail .blankOrBreakMissing .scanningTagDirective start
  return .tagDirective (String.ofList handle) expansion

/-- A directive with the rest of its line. -/
def directive : Lexer Token := do
  let start ← here
  advance
  let name ← takeWhile isNameChar
  if name.isEmpty then fail .directiveNameMissing .scanningDirective start
  if !endsWord (← peek) then fail .directiveNameCharacter .scanningDirective start
  let kind ←
    if name == "YAML".toList then versionDirective start
    else if name == "TAG".toList then tagDirective start
    else fail .directiveUnknown .scanningDirective start
  let stop ← here
  skipWhile isBlank
  skipComment
  if !endsLine (← peek) then fail .commentOrBreakMissing .scanningDirective start
  let _ ← lineBreak
  return ⟨kind, start, stop⟩

end StackBridge.Yaml.Lexer
