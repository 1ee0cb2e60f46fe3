/-
Members that nobody knows. The shape of a type says where in a value an object stands for a
structure, and which names that structure has. An object may stand for several structures where a
type has alternatives; a name is unknown there if none of them has it. A decoder does not see a
member of an unknown name.
-/
import Mathlib.Logic.Relation
import StackBridge.Proofs.Presentation

namespace StackBridge

/-- Where in a value objects stand for structures, and the names of their fields. -/
inductive Shape where
  /-- A text, a number or a truth value. -/
  | scalar
  /-- A value of any kind, none of whose objects stands for a structure. -/
  | free
  | option (held : Shape)
  | list (item : Shape)
  | map (value : Shape)
  | record (fields : List (String × Shape))
  | choice (alternatives : List Shape)

namespace Shape

/-- Whether a value is of a kind that the shape allows for. A structure may be an object, or an
array of no more items than it has fields. -/
def Fits : Shape → Json → Prop
  | .scalar, .array _ | .scalar, .object _ => False
  | .list _, json => ∃ items, json = .array items
  | .map _, json => ∃ members, json = .object members
  | .record _, .object _ => True
  | .record fields, .array items => items.length ≤ fields.length
  | .record _, _ => False
  | _, _ => True

/-- Whether a value is another one with one more member in an object that stands for a structure
without a field of that name, or with another value for such a member. Where there are alternatives,
this holds for each that allows for a value of the kind, of which there is one. -/
inductive Padded : Shape → Json → Json → Prop where
  | extra {fields : List (String × Shape)} {before after : List (String × Json)} {name : String}
      {value : Json} (hname : name ∉ fields.map (·.1)) :
      Padded (.record fields) (.object (before ++ after))
        (.object (before ++ (name, value) :: after))
  | ignored {fields : List (String × Shape)} {before after : List (String × Json)} {name : String}
      {value other : Json} (hname : name ∉ fields.map (·.1)) :
      Padded (.record fields) (.object (before ++ (name, value) :: after))
        (.object (before ++ (name, other) :: after))
  | member {fields : List (String × Shape)} {before after : List (String × Json)} {name : String}
      {shape : Shape} {value other : Json} (hfield : (name, shape) ∈ fields)
      (hvalue : Padded shape value other) :
      Padded (.record fields) (.object (before ++ (name, value) :: after))
        (.object (before ++ (name, other) :: after))
  | slot {fields : List (String × Shape)} {before after : List Json} {name : String}
      {shape : Shape} {value other : Json} (hfield : fields[before.length]? = some (name, shape))
      (hvalue : Padded shape value other) :
      Padded (.record fields) (.array (before ++ value :: after))
        (.array (before ++ other :: after))
  | item {shape : Shape} {before after : List Json} {value other : Json}
      (hvalue : Padded shape value other) :
      Padded (.list shape) (.array (before ++ value :: after)) (.array (before ++ other :: after))
  | entry {shape : Shape} {before after : List (String × Json)} {name : String}
      {value other : Json} (hvalue : Padded shape value other) :
      Padded (.map shape) (.object (before ++ (name, value) :: after))
        (.object (before ++ (name, other) :: after))
  | option {shape : Shape} {value other : Json} (hvalue : Padded shape value other) :
      Padded (.option shape) value other
  | choice {alternatives : List Shape} {shape : Shape} {value other : Json}
      (hshape : shape ∈ alternatives) (hfits : shape.Fits value)
      (hvalue : ∀ shape ∈ alternatives, shape.Fits value → Padded shape value other) :
      Padded (.choice alternatives) value other

/-- Objects stay objects, and arrays stay arrays of the same length. -/
theorem Padded.kind {shape : Shape} {value other : Json} (hpadded : Padded shape value other) :
    (∃ members others, value = .object members ∧ other = .object others) ∨
      ∃ items others, value = .array items ∧ other = .array others ∧
        items.length = others.length := by
  induction hpadded with
  | extra | ignored | member | entry => exact Or.inl ⟨_, _, rfl, rfl⟩
  | slot | item => exact Or.inr ⟨_, _, rfl, rfl, by simp⟩
  | option _ ih => exact ih
  | choice hshape hfits _ ih => exact ih _ hshape hfits

theorem Padded.fits_iff {shape : Shape} {value other : Json} (hpadded : Padded shape value other)
    (another : Shape) : another.Fits other ↔ another.Fits value := by
  rcases hpadded.kind with ⟨members, others, rfl, rfl⟩ | ⟨items, others, rfl, rfl, hlength⟩
  · cases another <;> simp [Fits]
  · cases another <;> simp [Fits, hlength]

theorem Padded.ne_null {shape : Shape} {value other : Json} (hpadded : Padded shape value other) :
    value ≠ .null ∧ other ≠ .null := by
  rcases hpadded.kind with ⟨members, others, rfl, rfl⟩ | ⟨items, others, rfl, rfl, -⟩ <;> simp

end Shape

namespace Codec

variable {α β σ τ : Type}

/-- The shape of a type, and what it says about the ways to its values. -/
structure Outline (codec : Codec α) where
  shape : Shape
  tracks : codec.Tracks
  settles : codec.Settles
  fits : ∀ json value, codec.decode json = .ok value → shape.Fits json
  tolerates : ∀ ⦃json other : Json⦄, shape.Padded json other → ∀ value,
    codec.decode other = .ok value ↔ codec.decode json = .ok value

namespace Outline

def string : Codec.string.Outline where
  shape := .scalar
  tracks := tracks_string
  settles := settles_string
  fits json value hvalue := by cases json <;> trivial
  tolerates json other hpadded := by cases hpadded

def bool : Codec.bool.Outline where
  shape := .scalar
  tracks := tracks_bool
  settles := settles_bool
  fits json value hvalue := by cases json <;> trivial
  tolerates json other hpadded := by cases hpadded

def numeric {wanted : String} {encode : α → Json} {check : Number → Except Mismatch α} :
    (Codec.numeric wanted encode check).Outline where
  shape := .scalar
  tracks := tracks_numeric
  settles := settles_numeric
  fits json value hvalue := by cases json <;> trivial
  tolerates json other hpadded := by cases hpadded

def any : Codec.any.Outline where
  shape := .free
  tracks := tracks_any
  settles := settles_any
  fits _ _ _ := trivial
  tolerates json other hpadded := by cases hpadded

def named {values : List α} {name : α → String} : (Codec.named values name).Outline where
  shape := .free
  tracks := tracks_named
  settles := settles_named
  fits _ _ _ := trivial
  tolerates json other hpadded := by cases hpadded

def option {codec : Codec α} (outline : codec.Outline) : codec.option.Outline where
  shape := .option outline.shape
  tracks := outline.tracks.option
  settles := outline.settles.option
  fits _ _ _ := trivial
  tolerates json other hpadded value := by
    cases hpadded with
    | option hheld =>
        rw [decode_option_iff hheld.ne_null.1, decode_option_iff hheld.ne_null.2]
        simp only [outline.tolerates hheld]

def mapped {codec : Codec α} (outline : codec.Outline) {make : α → β} {view : β → α} :
    (codec.mapped make view).Outline where
  shape := outline.shape
  tracks := outline.tracks.mapped make view
  settles := outline.settles.mapped make view
  fits json value hvalue := by
    obtain ⟨held, hheld, -⟩ := map_eq_ok_iff.1 hvalue
    exact outline.fits json held hheld
  tolerates json other hpadded value := by
    simp only [Codec.mapped, map_eq_ok_iff, outline.tolerates hpadded]

end Outline

/-- One reading among others may be replaced by one with the same result. -/
theorem mapM_replace_iff {ε : Type} {read : α → Except ε β} {before after : List α} {item other : α}
    (hsame : ∀ value, read other = .ok value ↔ read item = .ok value) {values : List β} :
    (before ++ other :: after).mapM read = .ok values ↔
      (before ++ item :: after).mapM read = .ok values := by
  simp only [List.mapM_append, List.mapM_cons, bind_eq_ok_iff, hsame]

namespace Outline

def list {codec : Codec α} (outline : codec.Outline) : codec.list.Outline where
  shape := .list outline.shape
  tracks := outline.tracks.list
  settles := outline.settles.list
  fits json value hvalue := by
    cases json with
    | array items => exact ⟨items, rfl⟩
    | _ => cases hvalue
  tolerates json other hpadded value := by
    cases hpadded with
    | item hitem => exact mapM_replace_iff (outline.tolerates hitem)

def map {codec : Codec α} (outline : codec.Outline) : codec.map.Outline where
  shape := .map outline.shape
  tracks := outline.tracks.map
  settles := outline.settles.map
  fits json value hvalue := by
    cases json with
    | object members => exact ⟨members, rfl⟩
    | _ => cases hvalue
  tolerates json other hpadded value := by
    cases hpadded with
    | entry hentry =>
        simp only [Codec.map]
        rw [map_eq_ok_iff, map_eq_ok_iff]
        refine exists_congr fun entries => and_congr_left fun _ => mapM_replace_iff fun entry => ?_
        simp only [map_eq_ok_iff, outline.tolerates hentry]

end Outline

end Codec

namespace Fields

variable {σ τ : Type}

def Outlines {σ τ : Type} : Fields σ τ → Type
  | .nil => Unit
  | .cons field rest => field.codec.Outline × rest.Outlines

def Outlines.nil : Outlines (.nil : Fields Unit Unit) := ()

def Outlines.cons {α σ τ : Type} {field : Field α} {rest : Fields σ τ}
    (outline : field.codec.Outline) (outlines : rest.Outlines) :
    (Fields.cons field rest).Outlines :=
  (outline, outlines)

/-- The names of the fields with the shapes of their types. -/
def shapes {σ τ : Type} : (fields : Fields σ τ) → fields.Outlines → List (String × Shape)
  | .nil, _ => []
  | .cons field rest, outlines => (field.name, outlines.1.shape) :: rest.shapes outlines.2

theorem names_shapes (fields : Fields σ τ) (outlines : fields.Outlines) :
    (fields.shapes outlines).map (·.1) = fields.names := by
  induction fields with
  | nil => rfl
  | cons field rest ih => rw [shapes, names, List.map_cons, ih]

theorem length_shapes (fields : Fields σ τ) (outlines : fields.Outlines) :
    (fields.shapes outlines).length = fields.size := by
  induction fields with
  | nil => rfl
  | cons field rest ih => rw [shapes, size, List.length_cons, ih]

theorem Outlines.tracks {fields : Fields σ τ} (outlines : fields.Outlines) : fields.Tracks := by
  induction fields with
  | nil => trivial
  | cons field rest ih => exact ⟨outlines.1.tracks, ih outlines.2⟩

theorem Outlines.settles {fields : Fields σ τ} (outlines : fields.Outlines) : fields.Settles := by
  induction fields with
  | nil => trivial
  | cons field rest ih => exact ⟨outlines.1.settles, ih outlines.2⟩

/-- Items that fill the fields are no more than those. -/
theorem length_le_of_decodeItems {fields : Fields σ τ} {tooShort : Nat → Mismatch} {index : Nat}
    {items : List Json} {values : τ}
    (hvalues : fields.decodeItems tooShort index items = .ok (values, [])) :
    items.length ≤ fields.size := by
  induction fields generalizing index items with
  | nil => simp_all [decodeItems]
  | cons field rest ih =>
      cases items with
      | nil => exact Nat.zero_le _
      | cons item others =>
          obtain ⟨held, -, hrest⟩ := bind_eq_ok_iff.1 hvalues
          exact Nat.succ_le_succ (ih (decodeItems_rest_iff.1 hrest).2)

/-- An item may be padded without changing what a structure is decoded as. -/
theorem Outlines.decodeItems_iff {fields : Fields σ τ} (outlines : fields.Outlines)
    {tooShort : Nat → Mismatch} {index : Nat} {before after : List Json} {name : String}
    {shape : Shape} {value other : Json}
    (hfield : (fields.shapes outlines)[before.length]? = some (name, shape))
    (hvalue : shape.Padded value other) {values : τ} :
    fields.decodeItems tooShort index (before ++ other :: after) = .ok (values, []) ↔
      fields.decodeItems tooShort index (before ++ value :: after) = .ok (values, []) := by
  induction fields generalizing before index with
  | nil => simp [shapes] at hfield
  | cons field rest ih =>
      cases before with
      | nil =>
          obtain ⟨-, rfl⟩ := Prod.mk.inj (Option.some.inj hfield)
          simp only [List.nil_append, decodeItems, bind_eq_ok_iff, outlines.1.tolerates hvalue]
      | cons item before =>
          simp only [List.cons_append, decodeItems]
          rw [bind_eq_ok_iff, bind_eq_ok_iff]
          have hrest := @ih outlines.2 (index + 1) before (by simpa [shapes] using hfield)
          simp only [decodeItems_rest_iff, hrest]

/-- A member may be padded without changing what a structure is decoded as. -/
theorem Outlines.decodeMember_iff {fields : Fields σ τ} (outlines : fields.Outlines)
    (hnames : fields.names.Nodup) {name : String} {shape : Shape} {value other : Json}
    (hfield : (name, shape) ∈ fields.shapes outlines) (hvalue : shape.Padded value other)
    {slots next : σ} :
    fields.decodeMember name other slots = .ok next ↔
      fields.decodeMember name value slots = .ok next := by
  induction fields with
  | nil => cases hfield
  | cons field rest ih =>
      obtain ⟨slot, slots⟩ := slots
      rw [names, List.nodup_cons] at hnames
      rw [shapes, List.mem_cons, Prod.mk.injEq] at hfield
      rcases hfield with ⟨rfl, rfl⟩ | hrest
      · simp only [decodeMember, if_true]
        split
        · exact Iff.rfl
        · simp only [bind_eq_ok_iff, outlines.1.tolerates hvalue]
      · have hother : name ≠ field.name := by
          rintro rfl
          rw [← rest.names_shapes outlines.2] at hnames
          exact hnames.1 (List.mem_map_of_mem hrest)
        simp only [decodeMember, hother, if_false, bind_eq_ok_iff, ih outlines.2 hnames.2 hrest]

end Fields

namespace Codec.Outline

variable {α σ τ : Type}

def record {fields : Fields σ τ} (hnames : fields.names.Nodup) (outlines : fields.Outlines)
    {name : String} {make : τ → α} {parts : α → τ} :
    (Codec.record name fields make parts).Outline where
  shape := .record (fields.shapes outlines)
  tracks := tracks_record outlines.tracks
  settles := settles_record hnames outlines.settles
  fits json value hvalue := by
    cases json with
    | object members => trivial
    | array items =>
        obtain ⟨values, hvalues, -⟩ := record_decode_array_iff.1 hvalue
        rw [Shape.Fits, fields.length_shapes]
        exact Fields.length_le_of_decodeItems hvalues
    | _ => cases hvalue
  tolerates json other hpadded value := by
    cases hpadded with
    | extra hname =>
        rw [fields.names_shapes] at hname
        simp only [Codec.record, List.foldlM_append, List.foldlM_cons,
          Fields.decodeMember_of_not_mem hname]
        rfl
    | ignored hname =>
        rw [fields.names_shapes] at hname
        simp only [Codec.record, List.foldlM_append, List.foldlM_cons,
          Fields.decodeMember_of_not_mem hname]
    | member hfield hvalue =>
        simp only [Codec.record, List.foldlM_append, List.foldlM_cons, bind_eq_ok_iff,
          outlines.decodeMember_iff hnames hfield hvalue]
    | slot hfield hvalue =>
        rw [record_decode_array_iff, record_decode_array_iff]
        simp only [outlines.decodeItems_iff hfield hvalue]

end Codec.Outline

namespace Codec

variable {α β : Type}

/-- The shape of one alternative, and what it says about what is tried. -/
structure Trial (attempt : Json → Option β) where
  shape : Shape
  settles : ∀ json : Json, json.Distinct → attempt json.normal = attempt json
  fits : ∀ json value, attempt json = some value → shape.Fits json
  tolerates : ∀ ⦃json other : Json⦄, shape.Padded json other → attempt other = attempt json

theorem alternative_congr {codec : Codec α} {make : α → β} {json other : Json}
    (hsame : ∀ value, codec.decode other = .ok value ↔ codec.decode json = .ok value) :
    alternative codec make other = alternative codec make json := by
  apply Option.ext
  intro value
  simp only [alternative_eq_some_iff, hsame]

/-- A type as an alternative. -/
def Outline.trial {codec : Codec α} (outline : codec.Outline) {make : α → β} :
    Trial (alternative codec make) where
  shape := outline.shape
  settles json hdistinct := alternative_congr (outline.settles json hdistinct)
  fits json value hvalue := by
    obtain ⟨held, hheld, -⟩ := alternative_eq_some_iff.1 hvalue
    exact outline.fits json held hheld
  tolerates json other hpadded := alternative_congr (outline.tolerates hpadded)

def Trials : List (Json → Option β) → Type
  | [] => Unit
  | attempt :: rest => Trial attempt × Trials rest

def Trials.nil : Trials ([] : List (Json → Option β)) := ()

def Trials.cons {attempt : Json → Option β} {rest : List (Json → Option β)} (trial : Trial attempt)
    (trials : Trials rest) : Trials (attempt :: rest) :=
  (trial, trials)

/-- The shapes of the alternatives in their order. -/
def Trials.shapes : {attempts : List (Json → Option β)} → Trials attempts → List Shape
  | [], _ => []
  | _ :: _, trials => trials.1.shape :: Trials.shapes trials.2

theorem Trials.settles {attempts : List (Json → Option β)} (trials : Trials attempts) :
    ∀ attempt ∈ attempts, ∀ json : Json, json.Distinct → attempt json.normal = attempt json := by
  induction attempts with
  | nil => simp
  | cons attempt rest ih => exact List.forall_mem_cons.2 ⟨trials.1.settles, ih trials.2⟩

/-- What no alternative sees does not change which one is taken. An alternative that does not allow
for values of the kind takes neither. -/
theorem Trials.findSome?_eq {attempts : List (Json → Option β)} (trials : Trials attempts)
    {json other : Json} (hkind : ∀ shape : Shape, shape.Fits other ↔ shape.Fits json)
    (hpadded : ∀ shape ∈ Trials.shapes trials, shape.Fits json → shape.Padded json other) :
    attempts.findSome? (fun attempt => attempt other) =
      attempts.findSome? (fun attempt => attempt json) := by
  induction attempts with
  | nil => rfl
  | cons attempt rest ih =>
      rw [Trials.shapes, List.forall_mem_cons] at hpadded
      have hattempt : attempt other = attempt json := by
        by_cases hfits : trials.1.shape.Fits json
        · exact trials.1.tolerates (hpadded.1 hfits)
        · have hnone : ∀ {value : Json}, ¬ trials.1.shape.Fits value → attempt value = none :=
            fun hvalue => Option.eq_none_iff_forall_ne_some.2
              fun held hheld => hvalue (trials.1.fits _ held hheld)
          rw [hnone hfits, hnone (mt (hkind _).1 hfits)]
      rw [List.findSome?_cons, List.findSome?_cons, hattempt, ih trials.2 hpadded.2]

def Outline.untagged {name : String} {encode : β → Json} {attempts : List (Json → Option β)}
    (trials : Trials attempts) : (Codec.untagged name encode attempts).Outline where
  shape := .choice trials.shapes
  tracks := tracks_untagged
  settles := settles_untagged trials.settles
  fits _ _ _ := trivial
  tolerates json other hpadded value := by
    cases hpadded with
    | choice hshape hfits hvalue =>
        have hkind := (hvalue _ hshape hfits).fits_iff
        rw [decode_untagged_eq_ok_iff, decode_untagged_eq_ok_iff, trials.findSome?_eq hkind hvalue]

end Codec

/-- Whether a value comes from another one by steps that put members in another order or have to do
with a member of an unknown name. No step repeats a name. -/
def Shape.Restates (shape : Shape) : Json → Json → Prop :=
  Relation.ReflTransGen fun json other =>
    Json.Reordered json other ∨ shape.Padded json other ∧ other.Distinct

namespace Codec.Outline

variable {α : Type} {codec : Codec α}

/-- One step changes neither whether a value is decoded nor what it stands for. -/
theorem ofJson_step_iff (outline : codec.Outline) {json other : Json} (hdistinct : json.Distinct)
    (hstep : Json.Reordered json other ∨ outline.shape.Padded json other ∧ other.Distinct) :
    other.Distinct ∧ ∀ value, codec.ofJson other = .ok value ↔ codec.ofJson json = .ok value := by
  simp only [ofJson_eq_ok_iff]
  rcases hstep with hreordered | ⟨hpadded, hother⟩
  · obtain ⟨hother, hnormal⟩ := hreordered.normal_eq hdistinct
    refine ⟨hother, fun value => ?_⟩
    rw [hnormal]
  · refine ⟨hother, fun value => ?_⟩
    rw [outline.settles other hother, outline.settles json hdistinct]
    exact outline.tolerates hpadded value

theorem ofJson_restated_iff (outline : codec.Outline) {json other : Json}
    (hdistinct : json.Distinct) (hrestated : outline.shape.Restates json other) :
    other.Distinct ∧ ∀ value, codec.ofJson other = .ok value ↔ codec.ofJson json = .ok value := by
  induction hrestated with
  | refl => exact ⟨hdistinct, fun _ => Iff.rfl⟩
  | tail _ hstep ih =>
      obtain ⟨hbetween, hfirst⟩ := ih
      obtain ⟨hother, hsecond⟩ := outline.ofJson_step_iff hbetween hstep
      exact ⟨hother, fun value => (hsecond value).trans (hfirst value)⟩

/-- Both ways to a value agree where no name is repeated. -/
theorem ofText_iff_ofJson (outline : codec.Outline) {text : String} {json : Json}
    (hparse : Json.parse text = .ok json) (hdistinct : json.Distinct) (value : α) :
    codec.ofText text = .ok value ↔ codec.ofJson json = .ok value := by
  rw [outline.tracks.ofText_eq_ok_iff hparse, ofJson_eq_ok_iff, outline.settles json hdistinct]

end Codec.Outline

end StackBridge
