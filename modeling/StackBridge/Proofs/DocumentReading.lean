/-
What is read from the nodes of a document. The keys of a mapping are known by their texts, and of
several entries with one key the last counts. Where a mapping is read entry by entry into slots, a
slot is filled from the one entry with its key.
-/
import StackBridge.Proofs.Records
import StackBridge.Yaml.Reading

namespace StackBridge.Yaml

variable {α β σ : Type}

namespace Taking

/-- Whether a reader gives a value, however often aliases were followed before. -/
def Answers (taking : Taking α) (value : α) : Prop :=
  ∃ before after, taking.run before = .ok (value, after)

variable {taking : Taking α} {value : α}

theorem Answers.bind {next : α → Taking β} {last : β} (hlast : (taking >>= next).Answers last) :
    ∃ found, taking.Answers found ∧ (next found).Answers last := by
  obtain ⟨before, after, hrun⟩ := hlast
  rw [StateT.run_bind] at hrun
  obtain ⟨⟨found, between⟩, hfound, hnext⟩ := bind_eq_ok_iff.1 hrun
  exact ⟨found, ⟨before, between, hfound⟩, between, after, hnext⟩

theorem Answers.of_pure {found : α} (hvalue : (pure found : Taking α).Answers value) :
    value = found := by
  obtain ⟨before, after, hrun⟩ := hvalue
  cases hrun
  rfl

theorem Answers.of_map {change : α → β} {last : β} (hlast : (change <$> taking).Answers last) :
    ∃ found, taking.Answers found ∧ change found = last := by
  rw [map_eq_pure_bind] at hlast
  obtain ⟨found, hfound, hchange⟩ := hlast.bind
  exact ⟨found, hfound, hchange.of_pure.symm⟩

theorem not_answers_throw (fault : Fault) : ¬ (throw fault : Taking α).Answers value := by
  rintro ⟨before, after, hrun⟩
  cases hrun

theorem not_answers_refuse (cause : Cause) : ¬ (refuse cause : Taking α).Answers value :=
  not_answers_throw _

theorem run_placedAt_eq_ok_iff {mark : Mark} {path : Path} {before : Nat} {result : α × Nat} :
    (placedAt mark path taking).run before = .ok result ↔ taking.run before = .ok result := by
  change (taking before).mapError _ = _ ↔ taking before = _
  cases taking before with
  | error fault => simp [Except.mapError]
  | ok found => exact Iff.rfl

theorem Answers.of_placedAt {mark : Mark} {path : Path}
    (hvalue : (placedAt mark path taking).Answers value) : taking.Answers value := by
  obtain ⟨before, after, hrun⟩ := hvalue
  exact ⟨before, after, run_placedAt_eq_ok_iff.1 hrun⟩

end Taking

/-- A text is read if its document is and nothing is wrong with what follows. -/
theorem read_eq_ok_iff {text : String} {taking : Document → Taking α} {value : α} :
    read text taking = .ok value ↔
      (∃ followed, (taking (Document.ofText text)).run 0 = .ok (value, followed)) ∧
        (Document.ofText text).fault = none ∧ (Document.ofText text).moreFollows = false := by
  constructor
  · intro hvalue
    obtain ⟨⟨found, followed⟩, hfound, hrest⟩ := bind_eq_ok_iff.1 hvalue
    simp only at hrest
    split at hrest
    · cases hrest
    · rename_i hfault
      split at hrest
      · cases hrest
      · rename_i hmore
        cases hrest
        exact ⟨⟨followed, hfound⟩, hfault, Bool.eq_false_iff.2 hmore⟩
  · rintro ⟨⟨followed, hfound⟩, hfault, hmore⟩
    refine bind_eq_ok_iff.2 ⟨(value, followed), hfound, ?_⟩
    simp only [hfault, hmore, Bool.false_eq_true, if_false]
    rfl

/-- What is read from a text is what the reader makes of its document. -/
theorem answers_of_read {text : String} {taking : Document → Taking α} {value : α}
    (hvalue : read text taking = .ok value) : (taking (Document.ofText text)).Answers value := by
  obtain ⟨⟨followed, hrun⟩, -⟩ := read_eq_ok_iff.1 hvalue
  exact ⟨0, followed, hrun⟩

namespace Document

variable (document : Document)

/-- The node itself, or the one that it repeats. -/
def resolve : Node → Node
  | .aliased _ anchor => document.target anchor
  | node => node

def text? (node : Node) : Option String :=
  match document.resolve node with
  | .scalar _ _ text _ => some text
  | _ => none

def entries (node : Node) : List (Node × Node) :=
  match document.resolve node with
  | .mapping _ _ entries => entries
  | _ => []

/-- The entries whose keys are texts, by their keys. -/
def named (entries : List (Node × Node)) : List (String × Node) :=
  entries.filterMap fun entry => (document.text? entry.1).map (·, entry.2)

/-- The value of a key of a mapping. If the key is repeated its last value counts. -/
def member? (node : Node) (name : String) : Option Node :=
  (document.named (document.entries node)).reverse.lookup name

/-- Whether all keys of a mapping are texts. -/
def TextKeys (node : Node) : Prop :=
  ∀ entry ∈ document.entries node, (document.text? entry.1).isSome

/-- Whether a node stands for a value. -/
def Denotes (node : Node) (value : Value) : Prop :=
  ∃ depth tagTaken path, (document.valueReader .free depth tagTaken path node).Answers value

variable {document}

theorem named_cons {entry : Node × Node} {name : String}
    (hname : document.text? entry.1 = some name) (rest : List (Node × Node)) :
    document.named (entry :: rest) = (name, entry.2) :: document.named rest := by
  rw [named, List.filterMap_cons, hname]
  rfl

open Taking

/-- An alias is followed once. -/
theorem resolve_of_settle {path after : Path} {node found : Node}
    (hfound : (document.settle path node).Answers (after, found)) :
    found = document.resolve node := by
  cases node with
  | aliased mark anchor =>
      obtain ⟨followed, -, hrest⟩ := hfound.bind
      obtain ⟨-, -, hrest⟩ := hrest.bind
      simp only at hrest
      split at hrest
      · obtain ⟨unused, hmany, -⟩ := hrest.bind
        exact absurd hmany (not_answers_throw _)
      · cases hrest.of_pure
        rfl
  | _ =>
      cases hfound.of_pure
      rfl

theorem not_answers_refuseNode (wanted : String) (path : Path) (node : Node) (value : α) :
    ¬ (document.refuseNode wanted path node : Taking α).Answers value := by
  intro hvalue
  cases node with
  | scalar mark properties text style =>
      have hrefused := hvalue.of_placedAt
      cases hmeaning : scalarMeaning properties.tag text style <;> rw [hmeaning] at hrefused <;>
        exact not_answers_refuse _ hrefused
  | sequence mark properties items => exact not_answers_refuse _ hvalue.of_placedAt
  | mapping mark properties entries => exact not_answers_refuse _ hvalue.of_placedAt
  | _ => exact not_answers_throw _ hvalue

theorem text?_of_takeText {wanted : String} {path : Path} {node : Node} {text : String}
    (htext : (document.takeText wanted path node).Answers text) :
    document.text? node = some text := by
  obtain ⟨⟨after, found⟩, hfound, htaken⟩ := htext.bind
  rw [text?, ← resolve_of_settle hfound]
  cases found with
  | scalar mark properties words style => exact congrArg some htaken.of_pure.symm
  | _ => exact absurd htaken (not_answers_refuseNode _ _ _ _)

/-- What is made of a mapping is made of its entries. -/
theorem body_of_takeMapping {wanted : String} {depth : Nat} {path : Path} {node : Node}
    {body : Nat → Path → List (Node × Node) → Taking α} {value : α}
    (hvalue : (document.takeMapping wanted depth path node body).Answers value) :
    ∃ depth path, (body depth path (document.entries node)).Answers value := by
  obtain ⟨⟨after, found⟩, hfound, htaken⟩ := hvalue.bind
  rw [entries, ← resolve_of_settle hfound]
  simp only at htaken
  split at htaken
  · cases depth with
    | zero => exact absurd htaken (not_answers_throw _)
    | succ depth => exact ⟨depth, after, htaken.of_placedAt⟩
  · exact ⟨depth, after, htaken.of_placedAt⟩
  · exact ⟨depth, after, htaken.of_placedAt⟩
  · exact absurd htaken (not_answers_refuseNode _ _ _ _)

variable {step : σ → Node × Node → Taking σ} {start last : σ} {items : List (Node × Node)}

theorem text?_isSome_of_foldlM
    (hstep : ∀ state entry next, (step state entry).Answers next →
      ∃ name, document.text? entry.1 = some name)
    (hlast : (items.foldlM step start).Answers last) :
    ∀ entry ∈ items, (document.text? entry.1).isSome := by
  induction items generalizing start with
  | nil => simp
  | cons entry rest ih =>
      rw [List.foldlM_cons] at hlast
      obtain ⟨next, hnext, hrest⟩ := hlast.bind
      obtain ⟨name, hname⟩ := hstep start entry next hnext
      exact List.forall_mem_cons.2 ⟨by rw [hname]; rfl, ih hrest⟩

/-- What a step does to a slot: an entry with its key fills it, unless it was filled before, and any
other entry leaves it alone. -/
def FillsSlot (document : Document) (slot : σ → Option α) (key : String)
    (reads : Node → α → Prop) (state : σ) (entry : Node × Node) (next : σ) : Prop :=
  ∃ name, document.text? entry.1 = some name ∧
    if name = key then
      slot state = none ∧ ∃ value, slot next = some value ∧ reads entry.2 value
    else slot next = slot state

/-- What is in a slot, given the node that its key has, if it has one. -/
def SlotOf (reads : Node → α → Prop) : Option Node → Option α → Prop
  | none, slot => slot = none
  | some node, slot => ∃ value, slot = some value ∧ reads node value

theorem SlotOf.exists_of_some {reads : Node → α → Prop} {found : Option Node} {value : α}
    (hslot : SlotOf reads found (some value)) : ∃ node, found = some node ∧ reads node value := by
  cases found with
  | none => cases hslot
  | some node =>
      obtain ⟨same, hsame, hreads⟩ := hslot
      cases hsame
      exact ⟨node, rfl, hreads⟩

/-- A slot is filled from the one entry with its key, if there is one. Once it is filled no entry
behind may have the key. -/
theorem slot_of_foldlM {slot : σ → Option α} {key : String} {reads : Node → α → Prop}
    (hstep : ∀ state entry next, (step state entry).Answers next →
      document.FillsSlot slot key reads state entry next)
    (hlast : (items.foldlM step start).Answers last) :
    (∀ value, slot start = some value →
      slot last = some value ∧ (document.named items).reverse.lookup key = none) ∧
    (slot start = none →
      SlotOf reads ((document.named items).reverse.lookup key) (slot last)) := by
  induction items generalizing start with
  | nil =>
      cases hlast.of_pure
      exact ⟨fun value hvalue => ⟨hvalue, rfl⟩, fun hnone => hnone⟩
  | cons entry rest ih =>
      rw [List.foldlM_cons] at hlast
      obtain ⟨next, hnext, hrest⟩ := hlast.bind
      obtain ⟨name, hname, hslot⟩ := hstep start entry next hnext
      obtain ⟨hheld, hempty⟩ := ih hrest
      rw [named_cons hname, List.reverse_cons, List.lookup_append, lookup_cons, List.lookup_nil]
      by_cases hkey : name = key
      · rw [if_pos hkey] at hslot
        obtain ⟨hbefore, value, hvalue, hreads⟩ := hslot
        obtain ⟨hsame, hothers⟩ := hheld value hvalue
        rw [hothers, Option.none_or, if_pos hkey.symm]
        refine ⟨fun held hfilled => ?_, fun _ => ⟨value, hsame, hreads⟩⟩
        rw [hbefore] at hfilled
        cases hfilled
      · rw [if_neg hkey] at hslot
        rw [if_neg (Ne.symm hkey), Option.or_none, ← hslot]
        exact ⟨hheld, hempty⟩

theorem entries_of_takeEntries {rules : ValueRules} {inner : ValueReader} {tagTaken : Bool}
    {path : Path} {before settings : List (Value × Value)} {items : List (Node × Node)}
    (hsettings : (takeEntries rules inner tagTaken path before items).Answers settings) :
    ∃ read, settings = before ++ read ∧
      List.Forall₂ (fun entry setting =>
        (∃ path, (inner tagTaken path entry.1).Answers setting.1) ∧
          ∃ path, (inner false path entry.2).Answers setting.2) items read := by
  induction items generalizing before with
  | nil =>
      cases hsettings.of_pure
      exact ⟨[], by simp, .nil⟩
  | cons entry rest ih =>
      obtain ⟨key, hkey, hsettings⟩ := hsettings.bind
      have hbehind : ∃ value, (∃ path, (inner false path entry.2).Answers value) ∧
          (takeEntries rules inner tagTaken path (before ++ [(key, value)]) rest).Answers
            settings := by
        simp only at hsettings
        split at hsettings
        · obtain ⟨unused, hrefused, -⟩ := hsettings.bind
          exact absurd hrefused (not_answers_refuse _)
        · obtain ⟨value, hvalue, hsettings⟩ := hsettings.bind
          exact ⟨value, ⟨_, hvalue⟩, hsettings⟩
      obtain ⟨value, hvalue, hrest⟩ := hbehind
      obtain ⟨read, rfl, hread⟩ := ih hrest
      exact ⟨(key, value) :: read, by simp, .cons ⟨⟨path, hkey⟩, hvalue⟩ hread⟩

end Document

/-- The entries of a mapping, whether or not it has a tag. -/
def Value.contents : Value → List (Value × Value)
  | .mapping entries | .tagged _ (.mapping entries) => entries
  | _ => []

namespace Document

variable {document : Document}

open Taking

/-- What is read of a node holds the entries of the node, each value standing for its own node. -/
theorem contents_of_takeContents {inner : Option ValueReader} {tagTaken : Bool} {path : Path}
    {node : Node} {value : Value}
    (hinner : ∀ reader, inner = some reader → ∀ tagTaken path node value,
      (reader tagTaken path node).Answers value → document.Denotes node value)
    (hvalue : (document.takeContents .free inner tagTaken path (document.resolve node)).Answers
      value) :
    (∀ tag held, value ≠ .tagged tag held) ∧
      List.Forall₂ (fun entry setting =>
        document.Denotes entry.1 setting.1 ∧ document.Denotes entry.2 setting.2)
        (document.entries node) value.contents := by
  rw [entries]
  cases hnode : document.resolve node with
  | scalar mark properties text style =>
      rw [hnode] at hvalue
      have hscalar := hvalue.of_placedAt
      cases hmeaning : scalarMeaning (if tagTaken then none else properties.tag) text style with
      | error cause =>
          rw [hmeaning] at hscalar
          exact absurd hscalar (not_answers_refuse _)
      | ok meaning =>
          rw [hmeaning] at hscalar
          cases meaning with
          | wide n holder => exact absurd hscalar (not_answers_refuse _)
          | _ =>
              cases hscalar.of_pure
              exact ⟨by simp, .nil⟩
  | sequence mark properties items =>
      rw [hnode] at hvalue
      cases inner with
      | none => exact absurd hvalue (not_answers_throw _)
      | some reader =>
          obtain ⟨found, -, rfl⟩ := hvalue.of_placedAt.of_map
          exact ⟨by simp, .nil⟩
  | mapping mark properties items =>
      rw [hnode] at hvalue
      cases inner with
      | none => exact absurd hvalue (not_answers_throw _)
      | some reader =>
          obtain ⟨settings, hsettings, rfl⟩ := hvalue.of_placedAt.of_map
          obtain ⟨read, rfl, hread⟩ := entries_of_takeEntries hsettings
          refine ⟨by simp, hread.imp ?_⟩
          rintro entry setting ⟨⟨keyPath, hkey⟩, valuePath, hheld⟩
          exact ⟨hinner reader rfl _ _ _ _ hkey, hinner reader rfl _ _ _ _ hheld⟩
  | void mark =>
      rw [hnode] at hvalue
      cases hvalue.of_pure
      exact ⟨by simp, .nil⟩
  | _ =>
      rw [hnode] at hvalue
      exact absurd hvalue (not_answers_throw _)

theorem denotes_of_takeLevel {inner : Option ValueReader} {tagTaken : Bool} {path : Path}
    {node : Node} {value : Value}
    (hvalue : (document.takeLevel .free inner tagTaken path node).Answers value) :
    ∃ tagTaken path, (document.takeContents .free inner tagTaken path
        (document.resolve node)).Answers value ∨
      ∃ tag held, value = .tagged tag held ∧
        (document.takeContents .free inner tagTaken path (document.resolve node)).Answers held := by
  obtain ⟨⟨after, found⟩, hfound, hrest⟩ := hvalue.bind
  cases resolve_of_settle hfound
  simp only at hrest
  split at hrest
  · exact ⟨_, after, Or.inl hrest⟩
  · obtain ⟨held, hheld, rfl⟩ := hrest.of_map
    exact ⟨true, after, Or.inr ⟨_, held, rfl, hheld⟩⟩

/-- A value that a mapping stands for has one entry for each of its entries, in their order. -/
theorem contents_of_denotes {node : Node} {value : Value} (hvalue : document.Denotes node value) :
    List.Forall₂ (fun entry setting =>
      document.Denotes entry.1 setting.1 ∧ document.Denotes entry.2 setting.2)
      (document.entries node) value.contents := by
  obtain ⟨depth, tagTaken, path, hread⟩ := hvalue
  have hlevel : ∃ inner : Option ValueReader,
      (document.takeLevel .free inner tagTaken path node).Answers value ∧
        ∀ reader, inner = some reader → ∀ tagTaken path node value,
          (reader tagTaken path node).Answers value → document.Denotes node value := by
    cases depth with
    | zero => exact ⟨none, hread, fun reader hreader => nomatch hreader⟩
    | succ depth =>
        refine ⟨some (document.valueReader .free depth), hread, ?_⟩
        rintro reader hreader tagTaken path node value hvalue
        cases hreader
        exact ⟨depth, tagTaken, path, hvalue⟩
  obtain ⟨inner, hlevel, hinner⟩ := hlevel
  obtain ⟨taken, below, hplain | ⟨tag, held, rfl, hheld⟩⟩ := denotes_of_takeLevel hlevel
  · exact (contents_of_takeContents hinner hplain).2
  · -- only one tag is read of a node, so what is tagged has none itself
    obtain ⟨huntagged, hcontents⟩ := contents_of_takeContents hinner hheld
    have hsame : (Value.tagged tag held).contents = held.contents := by
      cases held with
      | tagged inside value => exact absurd rfl (huntagged inside value)
      | _ => rfl
    rw [hsame]
    exact hcontents

end Document

end StackBridge.Yaml
