/-
Values from the nodes of a document. Of all that is wrong with a document the first thing counts, as
it is met from left to right. What is said about a value carries its place and its path.
-/
import StackBridge.Yaml.Node
import StackBridge.Yaml.Scalar

namespace StackBridge.Yaml

/-- Reading counts how often aliases are followed. -/
abbrev Taking (α : Type) := StateT Nat (Except Fault) α

namespace Taking

variable {α : Type}

/-- Give what is said about a value its position, unless it has one. -/
def placedAt (mark : Mark) (path : Path) (taking : Taking α) : Taking α :=
  fun followed => (taking followed).mapError (Fault.at (mark, path))

def refuse (cause : Cause) : Taking α :=
  throw (.mismatch cause none)

end Taking

/-- The path of a value below a key. -/
def Path.under (path : Path) : Node → Path
  | .scalar _ _ text _ => .member path text
  | _ => .unknown path

/-- How free values are taken. -/
structure ValueRules where
  /-- What is asked for, in messages. -/
  wanted : String
  /-- Whether tagged values are kept, and not refused. -/
  keepsTags : Bool
  /-- Whether a mapping with a repeated key is refused as soon as it is met. -/
  uniqueKeys : Bool

/-- The rules for values that can be of any kind. -/
def ValueRules.free : ValueRules := ⟨"any YAML value", true, true⟩

/-- The rules for values that are put aside before they are looked at. -/
def ValueRules.aside : ValueRules := ⟨"any value", false, false⟩

/-- The value of a scalar. Numbers beyond 64 bits are not kept. -/
def Meaning.value (wanted : String) : Meaning → Taking Value
  | .null => return .null
  | .bool b => return .bool b
  | .number n => return .number n
  | .wide n holder => Taking.refuse (.mismatch (.wrongType (.wide n holder) wanted))
  | .text s => return .string s

/-- The tag of the document's own that a node has, with the place of the node. -/
def Node.localTag? : Node → Option (Mark × String)
  | .scalar mark properties .. | .sequence mark properties _ | .mapping mark properties _ =>
      (properties.tag.bind Yaml.localTag?).map (mark, ·)
  | .aliased .. | .void _ | .cut => none

/-- The most levels that collections may have. -/
def maxDepth : Nat := 128

/-- How often aliases may be followed for each event of a document. -/
def maxFollowed : Nat := 100

namespace Document

/-- The node that stands at a path: an alias leads to the node that it repeats. -/
def settle (document : Document) (path : Path) : Node → Taking (Path × Node)
  | .aliased _ anchor => do
      let followed := (← get) + 1
      set followed
      if maxFollowed * document.size < followed then throw .tooManyRepeats
      return (.aliased path, document.target anchor)
  | node => return (path, node)

/-- Refuse a node because it is of another kind than the wanted one. -/
def refuseNode {α : Type} (document : Document) (wanted : String) (path : Path) :
    Node → Taking α
  | .scalar mark properties text style =>
      Taking.placedAt mark path <|
        match scalarMeaning properties.tag text style with
        | .ok meaning => Taking.refuse (.mismatch (.wrongType meaning.found wanted))
        | .error cause => Taking.refuse cause
  | .sequence mark .. =>
      Taking.placedAt mark path (Taking.refuse (.mismatch (.wrongType .sequence wanted)))
  | .mapping mark .. =>
      Taking.placedAt mark path (Taking.refuse (.mismatch (.wrongType .mapping wanted)))
  | .void _ => throw .endOfStream
  | .aliased .. | .cut => throw document.cutFault

/-- A reader of free values that is told whether the tag of the node has been taken already. -/
abbrev ValueReader := Bool → Path → Node → Taking Value

/-- The entries of a mapping, behind those that came before. The tags of keys belong to the mapping
if it has one itself. -/
def takeEntries (rules : ValueRules) (inner : ValueReader) (tagTaken : Bool) (path : Path) :
    List (Value × Value) → List (Node × Node) → Taking (List (Value × Value))
  | before, [] => return before
  | before, (keyNode, valueNode) :: rest => do
      let key ← inner tagTaken path keyNode
      match Value.sameKey? key before, rules.uniqueKeys with
      | some earlier, true => Taking.refuse (.duplicateEntry earlier)
      | _, _ => pure ()
      let value ← inner false (path.under keyNode) valueNode
      takeEntries rules inner tagTaken path (before ++ [(key, value)]) rest

/-- The value of a node whose tag, if it has one, is `tagTaken` or does not count. Without an inner
reader no further level is allowed. -/
def takeContents (document : Document) (rules : ValueRules) (inner : Option ValueReader)
    (tagTaken : Bool) (path : Path) : Node → Taking Value
  | .scalar mark properties text style =>
      Taking.placedAt mark path <|
        match scalarMeaning (if tagTaken then none else properties.tag) text style with
        | .ok meaning => meaning.value rules.wanted
        | .error cause => Taking.refuse cause
  | .sequence mark _ items =>
      match inner with
      | none => throw (.tooDeep mark)
      | some inner =>
          Taking.placedAt mark path <| Value.sequence <$> items.zipIdx.mapM fun (item, index) =>
            inner false (.item path index) item
  | .mapping mark _ entries =>
      match inner with
      | none => throw (.tooDeep mark)
      | some inner =>
          Taking.placedAt mark path <|
            Value.mapping <$> takeEntries rules inner tagTaken path [] entries
  | .void _ => return .null
  | .aliased .. | .cut => throw document.cutFault

/-- The value of a node, given a reader for the level below. -/
def takeLevel (document : Document) (rules : ValueRules) (inner : Option ValueReader) :
    ValueReader := fun tagTaken path node => do
  let repeated := match node with
    | .aliased .. => true
    | _ => false
  let tagTaken := tagTaken && !repeated
  let (path, node) ← document.settle path node
  match if tagTaken then none else node.localTag? with
  | none => document.takeContents rules inner tagTaken path node
  | some (mark, tag) =>
      if rules.keepsTags then
        Value.tagged tag <$> document.takeContents rules inner true path node
      else Taking.placedAt mark path (Taking.refuse .taggedValue)

/-- The value of a node that may hold that many levels of collections. -/
def valueReader (document : Document) (rules : ValueRules) : Nat → ValueReader
  | 0 => document.takeLevel rules none
  | depth + 1 => document.takeLevel rules (some (document.valueReader rules depth))

def takeValue (document : Document) (rules : ValueRules) (depth : Nat) (path : Path)
    (node : Node) : Taking Value :=
  document.valueReader rules depth false path node

/-- The text of a scalar, whatever it means. -/
def takeText (document : Document) (wanted : String) (path : Path) (node : Node) :
    Taking String := do
  let (path, node) ← document.settle path node
  match node with
  | .scalar _ _ text _ => return text
  | node => document.refuseNode wanted path node

/-- The text of a scalar, unless it means nothing. -/
def takeOptionalText (document : Document) (wanted : String) (path : Path) (node : Node) :
    Taking (Option String) := do
  let (path, node) ← document.settle path node
  match node with
  | .scalar _ properties text .plain =>
      match properties.tag with
      | none => return if text = "" || isNullWord text then none else some text
      | some tag =>
          if tag = coreTag "null" then
            if isNullWord text then return none
            else Taking.refuse (.mismatch (.wrongValue (.text text) "null"))
          else return some text
  | .void _ => return none
  | node => some <$> document.takeText wanted path node

/-- A mapping, by what `body` makes of its entries. Nothing counts as a mapping without entries. -/
def takeMapping {α : Type} (document : Document) (wanted : String) (depth : Nat) (path : Path)
    (node : Node) (body : Nat → Path → List (Node × Node) → Taking α) : Taking α := do
  let (path, node) ← document.settle path node
  match node with
  | .mapping mark _ entries =>
      match depth with
      | 0 => throw (.tooDeep mark)
      | depth + 1 => Taking.placedAt mark path (body depth path entries)
  | .void mark | .scalar mark _ "" .plain => Taking.placedAt mark path (body depth path [])
  | node => document.refuseNode wanted path node

/-- A node that does not count. It has to be complete. -/
def passOver (document : Document) (node : Node) : Taking Unit :=
  if node.isCut then throw document.cutFault else return

end Document

def read {α : Type} (text : String) (taking : Document → Taking α) : Except Fault α := do
  let document := Document.ofText text
  let (value, _) ← (taking document).run 0
  match document.fault with
  | some fault => throw fault
  | none => if document.moreFollows then throw .moreThanOneDocument else return value

def Value.ofText (text : String) : Except Fault Value :=
  read text fun document => document.takeValue .free maxDepth .root document.root

end StackBridge.Yaml
