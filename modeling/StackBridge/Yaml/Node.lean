/-
YAML documents as trees. A text that breaks off within a document still has the tree of what came
before, with a mark at the place where the rest is missing.
-/
import StackBridge.Yaml.Grammar

namespace StackBridge.Yaml

/-- A node of a document. -/
inductive Node where
  | scalar (mark : Mark) (properties : Properties) (text : String) (style : ScalarStyle)
  | sequence (mark : Mark) (properties : Properties) (items : List Node)
  | mapping (mark : Mark) (properties : Properties) (entries : List (Node × Node))
  | aliased (mark : Mark) (anchor : Nat)
  /-- The text holds no document. -/
  | void (mark : Mark)
  /-- The text breaks off here. -/
  | cut
deriving Repr, Inhabited

namespace Node

mutual

/-- The node that comes first in a list of events, and the events behind it. -/
def ofEvents : Nat → List Event → Node × List Event
  | 0, events => (.cut, events)
  | _, [] => (.cut, [])
  | steps + 1, event :: rest =>
      match event.kind with
      | .scalar properties text style => (.scalar event.mark properties text style, rest)
      | .aliased anchor => (.aliased event.mark anchor, rest)
      | .sequenceStart properties =>
          let (items, rest) := itemsOfEvents steps rest
          (.sequence event.mark properties items, rest)
      | .mappingStart properties =>
          let (entries, rest) := entriesOfEvents steps rest
          (.mapping event.mark properties entries, rest)
      | .sequenceEnd | .mappingEnd => (.cut, rest)

def itemsOfEvents : Nat → List Event → List Node × List Event
  | 0, events => ([.cut], events)
  | _, [] => ([.cut], [])
  | steps + 1, event :: rest =>
      if event.kind = .sequenceEnd then ([], rest)
      else
        let (item, rest) := ofEvents steps (event :: rest)
        let (items, rest) := itemsOfEvents steps rest
        (item :: items, rest)

def entriesOfEvents : Nat → List Event → List (Node × Node) × List Event
  | 0, events => ([(.cut, .cut)], events)
  | _, [] => ([(.cut, .cut)], [])
  | steps + 1, event :: rest =>
      if event.kind = .mappingEnd then ([], rest)
      else
        let (key, rest) := ofEvents steps (event :: rest)
        let (value, rest) := ofEvents steps rest
        let (entries, rest) := entriesOfEvents steps rest
        ((key, value) :: entries, rest)

end

/-- A node under its number, if it has one. -/
def numbered (properties : Properties) (node : Node) : List (Nat × Node) :=
  match properties.anchor with
  | some number => [(number, node)]
  | none => []

mutual

/-- The nodes that have a number, in the order in which they begin. -/
def anchored : Node → List (Nat × Node)
  | .scalar mark properties text style =>
      numbered properties (.scalar mark properties text style)
  | .sequence mark properties items =>
      numbered properties (.sequence mark properties items) ++ anchoredItems items
  | .mapping mark properties entries =>
      numbered properties (.mapping mark properties entries) ++ anchoredEntries entries
  | .aliased .. | .void _ | .cut => []

def anchoredItems : List Node → List (Nat × Node)
  | [] => []
  | item :: rest => item.anchored ++ anchoredItems rest

def anchoredEntries : List (Node × Node) → List (Nat × Node)
  | [] => []
  | (key, value) :: rest => key.anchored ++ value.anchored ++ anchoredEntries rest

end

mutual

/-- Whether the text breaks off within the node. -/
def isCut : Node → Bool
  | .cut => true
  | .sequence _ _ items => areItemsCut items
  | .mapping _ _ entries => areEntriesCut entries
  | .scalar .. | .aliased .. | .void _ => false

def areItemsCut : List Node → Bool
  | [] => false
  | item :: rest => item.isCut || areItemsCut rest

def areEntriesCut : List (Node × Node) → Bool
  | [] => false
  | (key, value) :: rest => key.isCut || value.isCut || areEntriesCut rest

end

end Node

/-- The first document of a text. -/
structure Document where
  root : Node
  /-- The number of events, which limits how often aliases are followed. -/
  size : Nat
  /-- The nodes that aliases refer to. -/
  anchors : List (Nat × Node)
  /-- Why the document breaks off. -/
  fault : Option Fault
  /-- Something follows behind the document. -/
  moreFollows : Bool

namespace Document

def ofText (text : String) : Document :=
  let run := eventsOf text
  let root :=
    match run.voidMark with
    | some mark => .void mark
    | none => (Node.ofEvents (2 * run.events.length + 2) run.events).1
  ⟨root, max run.events.length 1, root.anchored, run.fault, run.moreFollows⟩

/-- The node that an alias stands for: the last one with its number. -/
def target (document : Document) (anchor : Nat) : Node :=
  match document.anchors.reverse.lookup anchor with
  | some node => node
  | none => .cut

/-- The fault of reading beyond the place where the document breaks off. -/
def cutFault (document : Document) : Fault :=
  document.fault.getD .endOfStream

end Document

end StackBridge.Yaml
