/-
From tokens to events. Where the grammar asks for a node and none stands, the node is an empty
plain scalar. The events before a fault are kept, since a reader can already refuse what they say.
-/
import StackBridge.SortedMap
import StackBridge.Yaml.Event
import StackBridge.Yaml.Token.Scan

namespace StackBridge.Yaml

/-- The state of a parser. -/
structure ParserState where
  tokens : List Token
  /-- Why no further tokens follow. -/
  tokenFault : Option Malformed
  /-- The meaning of tag handles. -/
  handles : List (String × String) := []
  anchors : SortedMap Nat := .empty
  events : Array Event := #[]

/-- A parser takes tokens and appends events, which stay when it fails. -/
abbrev Parser := EStateM Fault ParserState

namespace Parser

def peek : Parser Token := do
  let state ← get
  match state.tokens, state.tokenFault with
  | token :: _, _ => return token
  | [], some fault => throw (.malformed fault)
  | [], none => throw .endOfStream

def skip : Parser Unit :=
  modify fun state => { state with tokens := state.tokens.tail }

/-- Complain about a place, while doing something that began elsewhere. -/
def fail {α : Type} (mark : Mark) (problem : Problem) (activity : Option (Activity × Mark)) :
    Parser α :=
  throw (.malformed ⟨problem, mark, activity⟩)

def emit (mark : Mark) (kind : EventKind) : Parser Unit :=
  modify fun state => { state with events := state.events.push ⟨kind, mark⟩ }

def emptyScalar (mark : Mark) : Parser Unit :=
  emit mark (.scalar .none "" .plain)

/-- Number an anchor. A number can be given twice when a name was, and then means the later node. -/
def numberAnchor (name : Option String) : Parser (Option Nat) := do
  match name with
  | none => return none
  | some name =>
      let number := (← get).anchors.entries.length
      modify fun state => { state with anchors := state.anchors.insert name number }
      return some number

/-- An alias of an anchor that was set before. -/
def aliasEvent (mark : Mark) (name : String) : Parser Unit := do
  match (← get).anchors.get? name with
  | some number => emit mark (.aliased number)
  | none => throw (.unknownAnchor mark)

/-- The tag that a handle and a suffix stand for. -/
def resolveTag (start mark : Mark) (handle suffix : String) : Parser String := do
  if handle = "" then return suffix
  match (← get).handles.lookup handle with
  | some expansion => return expansion ++ suffix
  | none => fail mark .tagHandleUndefined (some (.parsingNode, start))

/-- An anchor and a tag as they are written. -/
structure WrittenProperties where
  anchor : Option String := none
  /-- The handle and the suffix of a tag with its place. -/
  tag : Option (Mark × String × String) := none

/-- An anchor and a tag, in either order and each at most once. -/
def writtenProperties : Parser WrittenProperties := do
  let first ← peek
  match first.kind with
  | .anchor name =>
      skip
      let second ← peek
      match second.kind with
      | .tag handle suffix =>
          skip
          return ⟨some name, some (second.start, handle, suffix)⟩
      | _ => return ⟨some name, none⟩
  | .tag handle suffix =>
      skip
      let second ← peek
      match second.kind with
      | .anchor name =>
          skip
          return ⟨some name, some (first.start, handle, suffix)⟩
      | _ => return ⟨none, some (first.start, handle, suffix)⟩
  | _ => return {}

/-- A node, or an empty scalar if the token here shows that there is none. -/
def nodeUnless (ends : TokenKind → Bool) (mark : Token → Mark) (node : Parser Unit) :
    Parser Unit := do
  let token ← peek
  if ends token.kind then emptyScalar (mark token) else node

/-- Whether a block sequence goes on without content for its entry. -/
def endsBlockEntry (kind : TokenKind) : Bool :=
  kind = .blockEntry || kind = .blockEnd

/-- Whether a block mapping goes on without content for a key or a value. -/
def endsBlockPair (kind : TokenKind) : Bool :=
  kind = .key || kind = .value || kind = .blockEnd

/-- Whether a flow sequence goes on without content. -/
def endsFlowEntry (kind : TokenKind) : Bool :=
  kind = .flowEntry || kind = .flowSequenceEnd

/-- Whether a flow mapping goes on without content. -/
def endsFlowPair (kind : TokenKind) : Bool :=
  kind = .flowEntry || kind = .flowMappingEnd

mutual

/-- A node. Block collections can stand only outside of brackets, and a sequence without
indentation of its own only as a part of a block mapping. -/
def node (block indentless : Bool) : Nat → Parser Unit
  | 0 => throw .endOfStream
  | steps + 1 => do
      let start := (← peek).start
      match (← peek).kind with
      | .aliased name =>
          aliasEvent start name
          skip
      | _ =>
          let written ← writtenProperties
          let tag ← written.tag.mapM fun (mark, handle, suffix) =>
            resolveTag start mark handle suffix
          let properties : Parser Properties := return ⟨tag, ← numberAnchor written.anchor⟩
          let token ← peek
          match token.kind, block, indentless with
          | .blockEntry, _, true =>
              emit start (.sequenceStart (← properties))
              indentlessEntries steps
          | .scalar text style, _, _ =>
              emit start (.scalar (← properties) text style)
              skip
          | .flowSequenceStart, _, _ =>
              emit start (.sequenceStart (← properties))
              skip
              flowEntries token.start true steps
          | .flowMappingStart, _, _ =>
              emit start (.mappingStart (← properties))
              skip
              flowPairs token.start true steps
          | .blockSequenceStart, true, _ =>
              emit start (.sequenceStart (← properties))
              skip
              blockEntries token.start steps
          | .blockMappingStart, true, _ =>
              emit start (.mappingStart (← properties))
              skip
              blockPairs token.start steps
          | _, _, _ =>
              if written.anchor.isSome || tag.isSome then
                emit start (.scalar (← properties) "" .plain)
              else
                fail token.start .contentMissing
                  (some (if block then .parsingBlockNode else .parsingFlowNode, start))

/-- The entries of a block sequence, with its end. -/
def blockEntries (opened : Mark) : Nat → Parser Unit
  | 0 => throw .endOfStream
  | steps + 1 => do
      let token ← peek
      match token.kind with
      | .blockEntry =>
          skip
          nodeUnless endsBlockEntry (fun _ => token.stop) (node true false steps)
          blockEntries opened steps
      | .blockEnd =>
          emit token.start .sequenceEnd
          skip
      | _ => fail token.start .dashMissing (some (.parsingBlockCollection, opened))

/-- The entries of a sequence without indentation of its own, with its end. -/
def indentlessEntries : Nat → Parser Unit
  | 0 => throw .endOfStream
  | steps + 1 => do
      let token ← peek
      match token.kind with
      | .blockEntry =>
          skip
          nodeUnless (fun kind => kind = .blockEntry || endsBlockPair kind) (fun _ => token.stop)
            (node true false steps)
          indentlessEntries steps
      | _ => emit token.start .sequenceEnd

/-- The keys and values of a block mapping, with its end. -/
def blockPairs (opened : Mark) : Nat → Parser Unit
  | 0 => throw .endOfStream
  | steps + 1 => do
      let token ← peek
      match token.kind with
      | .key =>
          skip
          nodeUnless endsBlockPair (fun _ => token.stop) (node true true steps)
          blockValue steps
          blockPairs opened steps
      | .blockEnd =>
          emit token.start .mappingEnd
          skip
      | _ => fail token.start .keyMissing (some (.parsingBlockMapping, opened))

/-- The value behind a key of a block mapping. -/
def blockValue : Nat → Parser Unit
  | 0 => throw .endOfStream
  | steps + 1 => do
      let token ← peek
      match token.kind with
      | .value =>
          skip
          nodeUnless endsBlockPair (fun _ => token.stop) (node true true steps)
      | _ => emptyScalar token.start

/-- The entries of a flow sequence, with its end. An entry can be a single pair. -/
def flowEntries (opened : Mark) (first : Bool) : Nat → Parser Unit
  | 0 => throw .endOfStream
  | steps + 1 => do
      if !first && (← peek).kind ≠ .flowSequenceEnd then
        let token ← peek
        if token.kind = .flowEntry then skip
        else fail token.start .commaOrBracketMissing (some (.parsingFlowSequence, opened))
      let token ← peek
      match token.kind with
      | .flowSequenceEnd =>
          emit token.start .sequenceEnd
          skip
      | .key =>
          emit token.start (.mappingStart .none)
          skip
          singlePair steps
          flowEntries opened false steps
      | _ =>
          node false false steps
          flowEntries opened false steps

/-- The only pair of a mapping within a flow sequence. A key that is missing takes the token that
shows it along. -/
def singlePair : Nat → Parser Unit
  | 0 => throw .endOfStream
  | steps + 1 => do
      let token ← peek
      if token.kind = .value || endsFlowEntry token.kind then
        emptyScalar token.stop
        skip
      else node false false steps
      flowValue endsFlowEntry steps
      emit (← peek).start .mappingEnd

def flowValue (ends : TokenKind → Bool) : Nat → Parser Unit
  | 0 => throw .endOfStream
  | steps + 1 => do
      let token ← peek
      match token.kind with
      | .value =>
          skip
          nodeUnless ends (·.start) (node false false steps)
      | _ => emptyScalar token.start

/-- The pairs of a flow mapping, with its end. -/
def flowPairs (opened : Mark) (first : Bool) : Nat → Parser Unit
  | 0 => throw .endOfStream
  | steps + 1 => do
      if !first && (← peek).kind ≠ .flowMappingEnd then
        let token ← peek
        if token.kind = .flowEntry then skip
        else fail token.start .commaOrBraceMissing (some (.parsingFlowMapping, opened))
      let token ← peek
      match token.kind with
      | .flowMappingEnd =>
          emit token.start .mappingEnd
          skip
      | .key =>
          skip
          nodeUnless (fun kind => kind = .value || endsFlowPair kind) (·.start)
            (node false false steps)
          flowValue endsFlowPair steps
          flowPairs opened false steps
      | _ =>
          node false false steps
          emptyScalar (← peek).start
          flowPairs opened false steps

end

/-- The handles that need no directive. -/
def defaultHandles : List (String × String) :=
  [("!", "!"), ("!!", "tag:yaml.org,2002:")]

/-- The directives before a document. A document that is not of version 1.1 or 1.2 is refused. -/
def directives (version : Bool) (handles : List (String × String)) : Nat → Parser Unit
  | 0 => throw .endOfStream
  | steps + 1 => do
      let token ← peek
      match token.kind with
      | .versionDirective major minor =>
          if version then fail token.start .versionRepeated none
          if major ≠ 1 || (minor ≠ 1 && minor ≠ 2) then
            fail token.start .versionIncompatible none
          skip
          directives true handles steps
      | .tagDirective handle expansion =>
          if (handles.lookup handle).isSome then fail token.start .tagDirectiveRepeated none
          skip
          directives version (handles ++ [(handle, expansion)]) steps
      | _ => modify fun state => { state with handles := handles ++ defaultHandles }

/-- Whether a token stands between documents and not in one. -/
def isBetween : TokenKind → Bool
  | .versionDirective .. | .tagDirective .. | .documentStart | .documentEnd | .streamEnd => true
  | _ => false

/-- The first document. The answer is the end of the text if there is no document in it. -/
def document (steps : Nat) : Parser (Option Mark) := do
  skip
  let token ← peek
  if token.kind = .streamEnd then return some token.start
  directives false [] steps
  match token.kind with
  | .versionDirective .. | .tagDirective .. | .documentStart =>
      let marker ← peek
      if marker.kind ≠ .documentStart then fail marker.start .documentStartMissing none
      skip
      nodeUnless isBetween (·.start) (node true false steps)
  | _ => node true false steps
  if (← peek).kind = .documentEnd then skip
  return none

end Parser

/-- The events of the first document of a text. -/
def eventsOf (text : String) : EventRun :=
  let (tokens, tokenFault) := tokensOf text
  match Parser.document (4 * tokens.length + 8) { tokens, tokenFault } with
  | .ok voidMark state =>
      let behind := state.tokens.dropWhile (·.kind = .documentEnd)
      ⟨state.events.toList, none, behind.head?.any (·.kind = .streamEnd) = false, voidMark⟩
  | .error fault state => ⟨state.events.toList, some fault, false, none⟩

end StackBridge.Yaml
