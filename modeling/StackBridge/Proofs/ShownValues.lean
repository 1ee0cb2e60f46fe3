/-
Reading a value from the tree that shows it. What is shown is read back if no level is too deep, no
key of a mapping is repeated, and no tag is taken for another or passed over.
-/
import StackBridge.Proofs.DocumentReading
import StackBridge.Proofs.FloatTexts

namespace StackBridge.Yaml

/-- The tag of a node that shows a value with a tag. -/
def fullTag (name : String) : String :=
  String.ofList (markedTag name)

namespace Value

mutual

/-- How many levels of collections a value has. -/
def depth : Value → Nat
  | .null | .bool _ | .number _ | .string _ => 0
  | .sequence items => depthOfItems items + 1
  | .mapping entries => depthOfEntries entries + 1
  | .tagged _ value => value.depth

def depthOfItems : List Value → Nat
  | [] => 0
  | item :: rest => max item.depth (depthOfItems rest)

def depthOfEntries : List (Value × Value) → Nat
  | [] => 0
  | (key, value) :: rest => max (max key.depth value.depth) (depthOfEntries rest)

end

mutual

/-- Whether all tags within a value are of some names and stand where they are read: not directly
behind another tag, and not at a key of a mapping that has a tag itself. -/
def TagsWithin (names : String → Prop) (tagTaken : Bool) : Value → Prop
  | .null | .bool _ | .number _ | .string _ => True
  | .sequence items => TagsWithinItems names items
  | .mapping entries => TagsWithinEntries names tagTaken entries
  | .tagged name value => tagTaken = false ∧ names name ∧ value.TagsWithin names true

def TagsWithinItems (names : String → Prop) : List Value → Prop
  | [] => True
  | item :: rest => item.TagsWithin names false ∧ TagsWithinItems names rest

def TagsWithinEntries (names : String → Prop) (tagTaken : Bool) : List (Value × Value) → Prop
  | [] => True
  | (key, value) :: rest =>
      key.TagsWithin names tagTaken ∧ value.TagsWithin names false ∧
        TagsWithinEntries names tagTaken rest

end

mutual

/-- Tags that are of some names are of all that go beyond them. -/
theorem TagsWithin.imp {names others : String → Prop} (hothers : ∀ name, names name → others name) :
    {value : Value} → {tagTaken : Bool} → value.TagsWithin names tagTaken →
      value.TagsWithin others tagTaken
  | .null, _, _ | .bool _, _, _ | .number _, _, _ | .string _, _, _ => trivial
  | .sequence _, _, hitems => TagsWithinItems.imp hothers hitems
  | .mapping _, _, hentries => TagsWithinEntries.imp hothers hentries
  | .tagged name _, _, htagged =>
      ⟨htagged.1, hothers name htagged.2.1, TagsWithin.imp hothers htagged.2.2⟩

theorem TagsWithinItems.imp {names others : String → Prop}
    (hothers : ∀ name, names name → others name) :
    {items : List Value} → TagsWithinItems names items → TagsWithinItems others items
  | [], _ => trivial
  | _ :: _, hitems =>
      ⟨TagsWithin.imp hothers hitems.1, TagsWithinItems.imp hothers hitems.2⟩

theorem TagsWithinEntries.imp {names others : String → Prop}
    (hothers : ∀ name, names name → others name) :
    {entries : List (Value × Value)} → {tagTaken : Bool} →
      TagsWithinEntries names tagTaken entries → TagsWithinEntries others tagTaken entries
  | [], _, _ => trivial
  | _ :: _, _, hentries =>
      ⟨TagsWithin.imp hothers hentries.1, TagsWithin.imp hothers hentries.2.1,
        TagsWithinEntries.imp hothers hentries.2.2⟩

end

mutual

/-- Whether a node with a given tag shows a value. -/
def Shows (tag : Option String) : Value → Node → Prop
  | .null, node => ∃ mark, node = .scalar mark ⟨tag, none⟩ "null" .plain
  | .bool b, node => ∃ mark, node = .scalar mark ⟨tag, none⟩ (toString b) .plain
  | .number n, node => ∃ mark, node = .scalar mark ⟨tag, none⟩ (numberText n) .plain
  | .string s, node => ∃ mark, node = .scalar mark ⟨tag, none⟩ s (styleOf s)
  | .sequence items, node =>
      ∃ mark nodes, node = .sequence mark ⟨tag, none⟩ nodes ∧ ShowsItems items nodes
  | .mapping entries, node =>
      ∃ mark nodes, node = .mapping mark ⟨tag, none⟩ nodes ∧ ShowsEntries entries nodes
  | .tagged name value, node => Shows (some (fullTag name)) value node

def ShowsItems : List Value → List Node → Prop
  | [], nodes => nodes = []
  | item :: rest, nodes =>
      ∃ first others, nodes = first :: others ∧ Shows none item first ∧ ShowsItems rest others

def ShowsEntries : List (Value × Value) → List (Node × Node) → Prop
  | [], nodes => nodes = []
  | (key, value) :: rest, nodes =>
      ∃ keyNode valueNode others, nodes = (keyNode, valueNode) :: others ∧
        Shows none key keyNode ∧ Shows none value valueNode ∧ ShowsEntries rest others

end

end Value

namespace Taking

variable {α β : Type} {taking : Taking α} {value : α}

/-- Whether a reader yields a value and follows no alias. -/
def Yields (taking : Taking α) (value : α) : Prop :=
  ∀ followed, taking.run followed = .ok (value, followed)

theorem yields_pure (value : α) : (pure value : Taking α).Yields value :=
  fun _ => rfl

theorem Yields.bind {next : α → Taking β} {last : β} (hvalue : taking.Yields value)
    (hlast : (next value).Yields last) : (taking >>= next).Yields last := by
  intro followed
  rw [StateT.run_bind, hvalue followed]
  exact hlast followed

theorem Yields.map (hvalue : taking.Yields value) (change : α → β) :
    (change <$> taking).Yields (change value) := by
  intro followed
  rw [StateT.run_map, hvalue followed]
  rfl

theorem Yields.placedAt (hvalue : taking.Yields value) (mark : Mark) (path : Path) :
    (Taking.placedAt mark path taking).Yields value := by
  intro followed
  change (taking.run followed).mapError _ = _
  rw [hvalue followed]
  rfl

theorem yields_mapM {read : α → Taking β} {items : List α} {values : List β}
    (hitems : List.Forall₂ (fun item value => (read item).Yields value) items values) :
    (items.mapM read).Yields values := by
  induction hitems with
  | nil => exact yields_pure []
  | cons hitem hrest ih =>
      rw [List.mapM_cons]
      exact hitem.bind (ih.bind (yields_pure _))

theorem yields_foldlM_cons {step : β → α → Taking β} {item : α} {rest : List α}
    {start next last : β} (hnext : (step start item).Yields next)
    (hlast : (rest.foldlM step next).Yields last) :
    ((item :: rest).foldlM step start).Yields last := by
  rw [List.foldlM_cons]
  exact hnext.bind hlast

end Taking

/-- What stands before a node that is a scalar or a collection. -/
def Node.properties? : Node → Option Properties
  | .scalar _ properties .. | .sequence _ properties _ | .mapping _ properties _ => some properties
  | .aliased .. | .void _ | .cut => none

theorem Value.Shows.properties {names : String → Prop} {tag : Option String} {value : Value}
    {node : Node} (hshows : value.Shows tag node) (htags : value.TagsWithin names true) :
    node.properties? = some ⟨tag, none⟩ := by
  cases value with
  | tagged name value => exact absurd htags.1 (by decide)
  | sequence items =>
      obtain ⟨mark, nodes, rfl, -⟩ := hshows
      rfl
  | mapping entries =>
      obtain ⟨mark, nodes, rfl, -⟩ := hshows
      rfl
  | _ =>
      obtain ⟨mark, rfl⟩ := hshows
      rfl

namespace Document

variable {document : Document} {rules : ValueRules} {path : Path} {node : Node}

/-- The reader for the level below, if that many more levels are allowed. -/
def below (document : Document) (rules : ValueRules) : Nat → Option ValueReader
  | 0 => none
  | depth + 1 => some (document.valueReader rules depth)

theorem valueReader_eq (rules : ValueRules) (depth : Nat) :
    document.valueReader rules depth = document.takeLevel rules (document.below rules depth) := by
  cases depth <;> rfl

/-- A node whose tag was taken is read by its contents. -/
theorem takeLevel_of_taken {properties : Properties} (inner : Option ValueReader)
    (hnode : node.properties? = some properties) :
    document.takeLevel rules inner true path node =
      document.takeContents rules inner true path node := by
  cases node <;> cases hnode <;> rfl

/-- And so is a node without a tag. -/
theorem takeLevel_of_untagged {anchor : Option Nat} (inner : Option ValueReader)
    (hnode : node.properties? = some ⟨none, anchor⟩) :
    document.takeLevel rules inner false path node =
      document.takeContents rules inner false path node := by
  cases node <;> cases hnode <;> rfl

/-- A node with a tag of the document's own is read as what it is tagged with. -/
theorem takeLevel_of_tagged {tag name : String} {anchor : Option Nat} (inner : Option ValueReader)
    (hnode : node.properties? = some ⟨some tag, anchor⟩) (hname : localTag? tag = some name)
    (hkeeps : rules.keepsTags = true) :
    document.takeLevel rules inner false path node =
      Value.tagged name <$> document.takeContents rules inner true path node := by
  cases node <;> cases hnode <;>
    simp [takeLevel, settle, Node.localTag?, hname, hkeeps]

theorem valueReader_of_contents {depth : Nat} {tag : Option String} {tagTaken : Bool}
    (hnode : node.properties? = some ⟨tag, none⟩) (htag : tag = none ∨ tagTaken = true) :
    document.valueReader rules depth tagTaken path node =
      document.takeContents rules (document.below rules depth) tagTaken path node := by
  rw [valueReader_eq]
  cases tagTaken with
  | true => exact takeLevel_of_taken _ hnode
  | false =>
      obtain rfl : tag = none := htag.resolve_right (by decide)
      exact takeLevel_of_untagged _ hnode

theorem yields_scalar {inner : Option ValueReader} {mark : Mark} {tag : Option String}
    {text : String} {style : ScalarStyle} {value : Value} {tagTaken : Bool} (meaning : Meaning)
    (hmeaning : scalarMeaning none text style = .ok meaning)
    (hvalue : meaning.value rules.wanted = pure value) (htag : tag = none ∨ tagTaken = true) :
    (document.takeContents rules inner tagTaken path
      (.scalar mark ⟨tag, none⟩ text style)).Yields value := by
  have hnone : (if tagTaken then none else tag) = none := by
    rcases htag with rfl | rfl <;> simp
  unfold takeContents
  simp only [hnone, hmeaning, hvalue]
  exact (Taking.yields_pure value).placedAt mark path

mutual

/-- A value is read from the node that shows it. Behind a tag it is read like one whose tag was
taken. -/
theorem yields_of_shows {names : String → Prop}
    (hnames : ∀ name, names name → rules.keepsTags = true ∧ localTag? (fullTag name) = some name) :
    (value : Value) → (depth : Nat) → (tagTaken : Bool) → (path : Path) → {tag : Option String} →
      {node : Node} → value.Shows tag node → value.TagsWithin names tagTaken →
      value.repeatedKey? = none → value.depth ≤ depth → tag = none ∨ tagTaken = true →
      (document.valueReader rules depth tagTaken path node).Yields value
  | .null, _, _, _, _, _, hshows, _, _, _, htag => by
      obtain ⟨mark, rfl⟩ := hshows
      rw [valueReader_of_contents rfl htag]
      exact yields_scalar .null rfl rfl htag
  | .bool b, _, _, _, _, _, hshows, _, _, _, htag => by
      obtain ⟨mark, rfl⟩ := hshows
      rw [valueReader_of_contents rfl htag]
      exact yields_scalar (.bool b) (by cases b <;> rfl) rfl htag
  | .number n, _, _, _, _, _, hshows, _, _, _, htag => by
      obtain ⟨mark, rfl⟩ := hshows
      rw [valueReader_of_contents rfl htag]
      exact yields_scalar (.number n) (congrArg Except.ok (plainMeaning_number n)) rfl htag
  | .string s, _, _, _, _, _, hshows, _, _, _, htag => by
      obtain ⟨mark, rfl⟩ := hshows
      rw [valueReader_of_contents rfl htag]
      exact yields_scalar (.text s) (scalarMeaning_styleOf s) rfl htag
  | .sequence items, depth + 1, _, path, _, _, hshows, htags, hunique, hdepth, htag => by
      obtain ⟨mark, nodes, rfl, hitems⟩ := hshows
      rw [valueReader_of_contents rfl htag]
      have hread := yields_items hnames items 0 depth path hitems htags hunique
        (Nat.le_of_succ_le_succ hdepth)
      exact ((Taking.yields_mapM hread).map Value.sequence).placedAt mark path
  | .mapping entries, depth + 1, tagTaken, path, _, _, hshows, htags, hunique, hdepth, htag => by
      obtain ⟨mark, nodes, rfl, hentries⟩ := hshows
      rw [valueReader_of_contents rfl htag]
      have hread := yields_entries hnames entries [] depth tagTaken path hentries htags hunique
        (Nat.le_of_succ_le_succ hdepth)
      exact (hread.map Value.mapping).placedAt mark path
  | .tagged name value, depth, _, path, tag, node, hshows, htags, hunique, hdepth, htag => by
      obtain ⟨rfl, hname, htags⟩ := htags
      have hshows : value.Shows (some (fullTag name)) node := hshows
      have hnode := hshows.properties htags
      have hvalue := yields_of_shows hnames value depth true path hshows htags hunique hdepth
        (Or.inr rfl)
      rw [valueReader_eq, takeLevel_of_taken _ hnode] at hvalue
      rw [valueReader_eq, takeLevel_of_tagged _ hnode (hnames name hname).2 (hnames name hname).1]
      exact hvalue.map (Value.tagged name)

/-- Items are read from the nodes that show them. -/
theorem yields_items {names : String → Prop}
    (hnames : ∀ name, names name → rules.keepsTags = true ∧ localTag? (fullTag name) = some name) :
    (items : List Value) → (index depth : Nat) → (path : Path) → {nodes : List Node} →
      Value.ShowsItems items nodes → Value.TagsWithinItems names items →
      Value.repeatedKeyOfItems? items = none → Value.depthOfItems items ≤ depth →
      List.Forall₂ (fun item value => (document.valueReader rules depth false
        (.item path item.2) item.1).Yields value) (nodes.zipIdx index) items
  | [], index, depth, path, nodes, hshows, _, _, _ => by
      obtain rfl := hshows
      exact .nil
  | item :: rest, index, depth, path, nodes, hshows, htags, hunique, hdepth => by
      obtain ⟨first, others, rfl, hfirst, hothers⟩ := hshows
      obtain ⟨hunique, huniques⟩ := Option.or_eq_none_iff.1 hunique
      have hdepths := Nat.max_le.1 hdepth
      exact .cons (yields_of_shows hnames item depth false _ hfirst htags.1 hunique hdepths.1
          (Or.inl rfl))
        (yields_items hnames rest (index + 1) depth path hothers htags.2 huniques hdepths.2)

theorem yields_entries {names : String → Prop}
    (hnames : ∀ name, names name → rules.keepsTags = true ∧ localTag? (fullTag name) = some name) :
    (entries before : List (Value × Value)) → (depth : Nat) → (tagTaken : Bool) → (path : Path) →
      {nodes : List (Node × Node)} → Value.ShowsEntries entries nodes →
      Value.TagsWithinEntries names tagTaken entries →
      Value.repeatedKeyOfEntries? before entries = none → Value.depthOfEntries entries ≤ depth →
      (takeEntries rules (document.valueReader rules depth) tagTaken path before nodes).Yields
        (before ++ entries)
  | [], before, depth, tagTaken, path, nodes, hshows, _, _, _ => by
      obtain rfl := hshows
      rw [List.append_nil]
      exact Taking.yields_pure before
  | (key, value) :: rest, before, depth, tagTaken, path, nodes, hshows, htags, hunique, hdepth => by
      obtain ⟨keyNode, valueNode, others, rfl, hkey, hvalue, hothers⟩ := hshows
      obtain ⟨hkeyUnique, hunique⟩ := Option.or_eq_none_iff.1 hunique
      obtain ⟨hnew, hunique⟩ := Option.or_eq_none_iff.1 hunique
      obtain ⟨hvalueUnique, hunique⟩ := Option.or_eq_none_iff.1 hunique
      obtain ⟨hfirst, hdepths⟩ := Nat.max_le.1 hdepth
      have hfirst := Nat.max_le.1 hfirst
      have hrest := yields_entries hnames rest
        (before ++ [(key, value)]) depth tagTaken path hothers
        htags.2.2 hunique hdepths
      rw [List.append_assoc] at hrest
      unfold takeEntries
      refine (yields_of_shows hnames key depth tagTaken path hkey htags.1 hkeyUnique hfirst.1
        (Or.inl rfl)).bind ?_
      simp only [hnew]
      exact (yields_of_shows hnames value depth false _ hvalue htags.2.1 hvalueUnique hfirst.2
        (Or.inl rfl)).bind hrest

end

end Document

/-- What a value needs to be read back, with tags of some names and that many levels. -/
structure Value.Readable (names : String → Prop) (depth : Nat) (value : Value) : Prop where
  tags : value.TagsWithin names false
  unique : value.repeatedKey? = none
  depth : value.depth ≤ depth

/-- Whether a tag is read back by its own name: it has text, and no mark that would be taken off. -/
def TagReadsBack (name : String) : Prop :=
  localTag? (fullTag name) = some name

namespace Document

variable {document : Document} {node : Node} {value : Value} {depth : Nat}

theorem yields_free (hvalue : value.Readable TagReadsBack depth) (path : Path)
    (hshows : value.Shows none node) : (document.takeValue .free depth path node).Yields value :=
  yields_of_shows (fun _ hname => ⟨rfl, hname⟩) value depth false path hshows hvalue.tags
    hvalue.unique hvalue.depth (Or.inl rfl)

/-- What is put aside is read back if it has no tags. -/
theorem yields_aside (hvalue : value.Readable (fun _ => False) depth) (path : Path)
    (hshows : value.Shows none node) : (document.takeValue .aside depth path node).Yields value :=
  yields_of_shows (fun _ hname => hname.elim) value depth false path hshows hvalue.tags
    hvalue.unique hvalue.depth (Or.inl rfl)

end Document

end StackBridge.Yaml
