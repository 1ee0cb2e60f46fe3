/-
The events of a YAML document: its nodes from left to right, collections as a start and an end.
Names are resolved: a tag stands in full, and anchors are numbered.
-/
import StackBridge.Yaml.Token

namespace StackBridge.Yaml

/-- What can stand before a node. -/
structure Properties where
  tag : Option String
  /-- The number by which aliases refer to the node. -/
  anchor : Option Nat
deriving DecidableEq, Repr

def Properties.none : Properties := ⟨.none, .none⟩

/-- The kinds of events. -/
inductive EventKind where
  | scalar (properties : Properties) (text : String) (style : ScalarStyle)
  | sequenceStart (properties : Properties)
  | sequenceEnd
  | mappingStart (properties : Properties)
  | mappingEnd
  /-- The node with that number, once more. -/
  | aliased (anchor : Nat)
deriving DecidableEq, Repr

/-- An event with the place where its text begins. -/
structure Event where
  kind : EventKind
  mark : Mark
deriving DecidableEq, Repr

/-- The events of a text's first document. -/
structure EventRun where
  events : List Event
  /-- Why the events end before the document does. -/
  fault : Option Fault
  /-- Something follows behind the first document. -/
  moreFollows : Bool
  /-- The end of the text, if there is no document in it. -/
  voidMark : Option Mark
deriving Repr

end StackBridge.Yaml
