/-
How a text can fail to be a YAML document of the wanted type. Faults of the text carry a problem,
and often what was going on when it was met; mismatches carry the path of the value.
-/
import StackBridge.Mismatch
import StackBridge.Yaml.Value

namespace StackBridge.Yaml

/-- A place in a text: how many characters stand before it, its line and its column, all from zero.
A character that no text may hold is found before lines are told apart, and counted in bytes. -/
structure Mark where
  index : Nat
  line : Nat
  column : Nat
deriving DecidableEq, Repr, Inhabited

def Mark.start : Mark := ⟨0, 0, 0⟩

def Mark.isStart (mark : Mark) : Bool :=
  mark.line = 0 && mark.column = 0

/-- A mark in words. Lines and columns are shown from one. -/
def Mark.describe (mark : Mark) : String :=
  if mark.isStart then s!"position {mark.index}"
  else s!"line {mark.line + 1} column {mark.column + 1}"

/-- What is wrong with a text. -/
inductive Problem where
  | controlCharacter
  | colonMissing
  | tokenCannotStart
  | entryNotAllowed
  | keyNotAllowed
  | valueNotAllowed
  | directiveUnknown
  | directiveNameMissing
  | directiveNameCharacter
  | versionDigitOrDotMissing
  | versionTooLong
  | versionMissing
  | blankMissing
  | blankOrBreakMissing
  | commentOrBreakMissing
  | nameMissing
  | tagBangMissing
  | tagAngleMissing
  | tagUriMissing
  | octetMissing
  | octetLeading
  | octetTrailing
  | indentationZero
  | tabInIndentation
  | documentMarkerInScalar
  | endInScalar
  | escapeUnknown
  | escapeDigitMissing
  | escapeInvalid
  | colonUnexpected
  | tabBreaksIndentation
  | documentStartMissing
  | tagHandleUndefined
  | contentMissing
  | dashMissing
  | keyMissing
  | commaOrBracketMissing
  | commaOrBraceMissing
  | versionRepeated
  | versionIncompatible
  | tagDirectiveRepeated
deriving DecidableEq, Repr

def Problem.message : Problem → String
  | .controlCharacter => "control characters are not allowed"
  | .colonMissing => "could not find expected ':'"
  | .tokenCannotStart => "found character that cannot start any token"
  | .entryNotAllowed => "block sequence entries are not allowed in this context"
  | .keyNotAllowed => "mapping keys are not allowed in this context"
  | .valueNotAllowed => "mapping values are not allowed in this context"
  | .directiveUnknown => "found unknown directive name"
  | .directiveNameMissing => "could not find expected directive name"
  | .directiveNameCharacter => "found unexpected non-alphabetical character"
  | .versionDigitOrDotMissing => "did not find expected digit or '.' character"
  | .versionTooLong => "found extremely long version number"
  | .versionMissing => "did not find expected version number"
  | .blankMissing => "did not find expected whitespace"
  | .blankOrBreakMissing => "did not find expected whitespace or line break"
  | .commentOrBreakMissing => "did not find expected comment or line break"
  | .nameMissing => "did not find expected alphabetic or numeric character"
  | .tagBangMissing => "did not find expected '!'"
  | .tagAngleMissing => "did not find the expected '>'"
  | .tagUriMissing => "did not find expected tag URI"
  | .octetMissing => "did not find URI escaped octet"
  | .octetLeading => "found an incorrect leading UTF-8 octet"
  | .octetTrailing => "found an incorrect trailing UTF-8 octet"
  | .indentationZero => "found an indentation indicator equal to 0"
  | .tabInIndentation => "found a tab character where an indentation space is expected"
  | .documentMarkerInScalar => "found unexpected document indicator"
  | .endInScalar => "found unexpected end of stream"
  | .escapeUnknown => "found unknown escape character"
  | .escapeDigitMissing => "did not find expected hexdecimal number"
  | .escapeInvalid => "found invalid Unicode character escape code"
  | .colonUnexpected => "found unexpected ':'"
  | .tabBreaksIndentation => "found a tab character that violates indentation"
  | .documentStartMissing => "did not find expected <document start>"
  | .tagHandleUndefined => "found undefined tag handle"
  | .contentMissing => "did not find expected node content"
  | .dashMissing => "did not find expected '-' indicator"
  | .keyMissing => "did not find expected key"
  | .commaOrBracketMissing => "did not find expected ',' or ']'"
  | .commaOrBraceMissing => "did not find expected ',' or '\x7d'"
  | .versionRepeated => "found duplicate %YAML directive"
  | .versionIncompatible => "found incompatible YAML document"
  | .tagDirectiveRepeated => "found duplicate %TAG directive"

/-- What was going on when a problem was met. -/
inductive Activity where
  | scanningToken
  | scanningSimpleKey
  | scanningDirective
  | scanningVersion
  | scanningTagDirective
  | scanningTagHandle
  | parsingTagHandle
  | parsingTagUri
  | scanningAnchor
  | scanningAlias
  | scanningTag
  | parsingTag
  | scanningBlockScalar
  | scanningQuoted
  | parsingQuoted
  | scanningPlain
  | parsingNode
  | parsingBlockNode
  | parsingFlowNode
  | parsingBlockCollection
  | parsingBlockMapping
  | parsingFlowSequence
  | parsingFlowMapping
deriving DecidableEq, Repr

def Activity.message : Activity → String
  | .scanningToken => "while scanning for the next token"
  | .scanningSimpleKey => "while scanning a simple key"
  | .scanningDirective => "while scanning a directive"
  | .scanningVersion => "while scanning a %YAML directive"
  | .scanningTagDirective => "while scanning a %TAG directive"
  | .scanningTagHandle => "while scanning a tag directive"
  | .parsingTagHandle => "while parsing a tag directive"
  | .parsingTagUri => "while parsing a %TAG directive"
  | .scanningAnchor => "while scanning an anchor"
  | .scanningAlias => "while scanning an alias"
  | .scanningTag => "while scanning a tag"
  | .parsingTag => "while parsing a tag"
  | .scanningBlockScalar => "while scanning a block scalar"
  | .scanningQuoted => "while scanning a quoted scalar"
  | .parsingQuoted => "while parsing a quoted scalar"
  | .scanningPlain => "while scanning a plain scalar"
  | .parsingNode => "while parsing a node"
  | .parsingBlockNode => "while parsing a block node"
  | .parsingFlowNode => "while parsing a flow node"
  | .parsingBlockCollection => "while parsing a block collection"
  | .parsingBlockMapping => "while parsing a block mapping"
  | .parsingFlowSequence => "while parsing a flow sequence"
  | .parsingFlowMapping => "while parsing a flow mapping"

/-- A text that is not YAML. -/
structure Malformed where
  problem : Problem
  mark : Mark
  /-- What was going on, and where it began. -/
  activity : Option (Activity × Mark)
deriving DecidableEq, Repr

/-- A malformed text in words. The second place is left out when it is the first one again. -/
def Malformed.message (m : Malformed) : String :=
  let place :=
    if !m.mark.isStart then s!" at {m.mark.describe}"
    else if m.mark.index ≠ 0 then s!" at position {m.mark.index}"
    else ""
  let context :=
    match m.activity with
    | none => ""
    | some (activity, mark) =>
        let again := mark.line = m.mark.line && mark.column = m.mark.column
        s!", {activity.message}" ++
          (if mark.isStart || again then "" else s!" at {mark.describe}")
  m.problem.message ++ place ++ context

/-- Where a value is in its document, as the way to it from the outside. -/
inductive Path where
  | root
  | item (parent : Path) (index : Nat)
  | member (parent : Path) (key : String)
  | aliased (parent : Path)
  /-- Below a key that is not a text. -/
  | unknown (parent : Path)
deriving DecidableEq, Repr

/-- A path in words: keys behind points and positions in brackets. -/
def Path.describe : Path → String
  | .root => "."
  | .item parent index => parent.describe ++ s!"[{index}]"
  | .member .root key => key
  | .member parent key => parent.describe ++ "." ++ key
  | .aliased parent => parent.describe
  | .unknown .root => "?"
  | .unknown parent => parent.describe ++ ".?"

/-- The words of YAML: nothing is the unit value, and floats are written out in full. -/
def wording : Wording where
  nothing := "unit value"
  float := Decimal.Layout.render ⟨fun _ => true, false, "NaN", "inf"⟩

/-- Why a value could not be taken. -/
inductive Cause where
  | mismatch (m : Mismatch)
  /-- A mapping has the key twice. -/
  | duplicateEntry (key : Value)
  /-- A tagged value where only untagged ones can be kept. -/
  | taggedValue
deriving DecidableEq, Repr

def describeRepeatedKey : Value → String
  | .null => "with null key"
  | .bool b => s!"with key `{b}`"
  | .number n => s!"with key {numberText n}"
  | .string s => s!"with key {Text.quoted s}"
  | _ => "in YAML map"

def Cause.message : Cause → String
  | .mismatch m => m.message wording
  | .duplicateEntry key => "duplicate entry " ++ describeRepeatedKey key
  | .taggedValue => "untagged and internally tagged enums do not support enum input"

/-- Why a text could not be read, or a value not be written. -/
inductive Fault where
  | malformed (m : Malformed)
  | mismatch (cause : Cause) (position : Option (Mark × Path))
  | unknownAnchor (mark : Mark)
  | tooDeep (mark : Mark)
  | tooManyRepeats
  | endOfStream
  | moreThanOneDocument
  /-- The parts of a value do not form a node. -/
  | nodeExpected
  /-- The parts of a value do not form a document. -/
  | documentExpected
deriving DecidableEq, Repr

/-- A message with the place it belongs to, which is left out at the very start. -/
def messageAt (message : String) (mark : Mark) : String :=
  if mark.isStart then message else s!"{message} at {mark.describe}"

def Fault.message : Fault → String
  | .malformed m => m.message
  | .mismatch cause none => cause.message
  | .mismatch cause (some (mark, path)) =>
      let words := path.describe
      messageAt ((if words = "." then "" else words ++ ": ") ++ cause.message) mark
  | .unknownAnchor mark => messageAt "unknown anchor" mark
  | .tooDeep mark => messageAt "recursion limit exceeded" mark
  | .tooManyRepeats => "repetition limit exceeded"
  | .endOfStream => "EOF while parsing a value"
  | .moreThanOneDocument =>
      "deserializing from YAML containing more than one document is not supported"
  | .nodeExpected => "expected SCALAR, SEQUENCE-START, MAPPING-START, or ALIAS"
  | .documentExpected => "expected DOCUMENT-START or STREAM-END"

/-- A mismatch with its position, unless it has one. -/
def Fault.at (position : Mark × Path) : Fault → Fault
  | .mismatch cause none => .mismatch cause (some position)
  | other => other

end StackBridge.Yaml
