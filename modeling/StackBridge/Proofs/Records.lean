/-
What a structure is decoded from. In an object every field is read from the member of its name, or
has its default where there is none, and no field may have two members; neither the order of the
members nor those of other names matter. A structure is written as one member per field that is not
left out, so what a field is read back from is what it was written as.
-/
import Mathlib.Data.List.Nodup
import StackBridge.Codec.Record
import StackBridge.Proofs.NormalForm

namespace StackBridge

universe u

section Results

variable {ε α β : Type}

theorem bind_eq_ok_iff {result : Except ε α} {next : α → Except ε β} {value : β} :
    (result >>= next) = .ok value ↔ ∃ found, result = .ok found ∧ next found = .ok value := by
  cases result <;> simp [bind, Except.bind]

theorem map_eq_ok_iff {result : Except ε α} {change : α → β} {value : β} :
    (change <$> result) = .ok value ↔ ∃ found, result = .ok found ∧ change found = value := by
  cases result <;> simp [Functor.map, Except.map]

/-- A list is read exactly if each of its items is. -/
theorem mapM_eq_ok_iff {read : α → Except ε β} {items : List α} {values : List β} :
    items.mapM read = .ok values ↔
      List.Forall₂ (fun item value => read item = .ok value) items values := by
  induction items generalizing values with
  | nil => simp [pure, Except.pure, eq_comm]
  | cons item rest ih =>
      simp only [List.mapM_cons, bind_eq_ok_iff, pure, Except.pure, Except.ok.injEq, ih,
        List.forall₂_cons_left_iff]
      constructor
      · rintro ⟨value, hvalue, others, hothers, rfl⟩
        exact ⟨value, others, hvalue, hothers, rfl⟩
      · rintro ⟨value, others, hvalue, hothers, rfl⟩
        exact ⟨value, hvalue, others, hothers, rfl⟩

theorem exists_of_mapM_eq_ok {read : α → Except ε β} {items : List α} {values : List β}
    (hread : items.mapM read = .ok values) {item : α} (hitem : item ∈ items) :
    ∃ value, read item = .ok value := by
  induction items generalizing values with
  | nil => cases hitem
  | cons first rest ih =>
      simp only [List.mapM_cons, bind_eq_ok_iff] at hread
      obtain ⟨value, hvalue, others, hothers, -⟩ := hread
      rcases List.mem_cons.1 hitem with rfl | hrest
      · exact ⟨value, hvalue⟩
      · exact ih hothers hrest

/-- The first item that is refused decides the fault, whatever comes behind it. -/
theorem mapM_eq_error_iff {read : α → Except ε β} {items : List α} {fault : ε} :
    items.mapM read = .error fault ↔
      ∃ before first after, items = before ++ first :: after ∧
        (∀ item ∈ before, ∃ value, read item = .ok value) ∧ read first = .error fault := by
  induction items with
  | nil => simp [pure, Except.pure]
  | cons item rest ih =>
      rw [List.mapM_cons]
      cases hitem : read item with
      | error found =>
          constructor
          · intro hfault
            cases hfault
            exact ⟨[], item, rest, rfl, by simp, hitem⟩
          · rintro ⟨_ | ⟨head, before⟩, first, after, hsame, hbefore, hfirst⟩
            · cases hsame
              rw [hitem] at hfirst
              cases hfirst
              rfl
            · cases hsame
              obtain ⟨value, hvalue⟩ := hbefore item List.mem_cons_self
              cases hitem.symm.trans hvalue
      | ok value =>
          have hrest : (do
              let value ← Except.ok value
              let values ← rest.mapM read
              pure (value :: values)) = Except.error fault ↔ rest.mapM read = .error fault := by
            cases rest.mapM read <;> simp [bind, Except.bind, pure, Except.pure]
          rw [hrest, ih]
          constructor
          · rintro ⟨before, first, after, rfl, hbefore, hfirst⟩
            exact ⟨item :: before, first, after, rfl,
              List.forall_mem_cons.2 ⟨⟨value, hitem⟩, hbefore⟩, hfirst⟩
          · rintro ⟨_ | ⟨head, before⟩, first, after, hsame, hbefore, hfirst⟩
            · cases hsame
              cases hitem.symm.trans hfirst
            · cases hsame
              exact ⟨before, first, after, rfl, (List.forall_mem_cons.1 hbefore).2, hfirst⟩

theorem exists_of_mapM_eq_error {read : α → Except ε β} {items : List α} {fault : ε}
    (hfault : items.mapM read = .error fault) : ∃ item ∈ items, read item = .error fault := by
  obtain ⟨before, first, after, rfl, -, hfirst⟩ := mapM_eq_error_iff.1 hfault
  exact ⟨first, List.mem_append_right before List.mem_cons_self, hfirst⟩

end Results

namespace Field

variable {α : Type} (field : Field α)

/-- Whether a field has a value because of the member of its name, or because there is none. -/
def Reads : Option Json → α → Prop
  | some json, value => field.codec.decode json = .ok value
  | none, value => field.absent = some value

/-- What a field is written as, if it is not left out. -/
def written (value : α) : Option Json :=
  if field.omitted value then none else some (field.codec.encode value)

/-- Whether a field reads a value back from what the value is written as. -/
def Restores (value : α) : Prop :=
  field.Reads ((field.written value).map Json.normal) value

/-- The slot of a field behind one more member. -/
def takeMember (slot : Option α) (member : String × Json) :
    Except Mismatch (Option α) :=
  if member.1 = field.name then
    if slot.isSome then throw (.duplicateField member.1) else some <$> field.codec.decode member.2
  else return slot

/-- Once a field has a value it keeps it, and no other member may have its name. -/
theorem foldlM_takeMember_some (members : List (String × Json)) (value : α) (slot : Option α) :
    members.foldlM field.takeMember (some value) = .ok slot ↔
      slot = some value ∧ (members.map (·.1)).count field.name = 0 := by
  induction members with
  | nil => simp [pure, Except.pure, eq_comm]
  | cons member rest ih =>
      rw [List.foldlM_cons, bind_eq_ok_iff, List.map_cons, List.count_cons]
      by_cases hname : member.1 = field.name
      · simp [takeMember, hname, throw, throwThe, MonadExceptOf.throw]
      · simp [takeMember, hname, pure, Except.pure, ih]

/-- A field ends up with what it reads from the member of its name, of which there is at most one:
once the slot is filled no member behind may have the name. -/
theorem takeMember_reads_iff (members : List (String × Json)) (value : α) :
    (∃ slot, members.foldlM field.takeMember none = .ok slot ∧
        (slot <|> field.absent) = some value) ↔
      field.Reads (members.lookup field.name) value ∧
        (members.map (·.1)).count field.name ≤ 1 := by
  induction members with
  | nil => simp [pure, Except.pure, Reads]
  | cons member rest ih =>
      simp only [List.foldlM_cons, bind_eq_ok_iff, List.map_cons, List.count_cons, lookup_cons]
      by_cases hname : member.1 = field.name
      · simp only [takeMember, hname, if_true, Option.isSome_none, Bool.false_eq_true, if_false,
          map_eq_ok_iff, beq_self_eq_true, Reads]
        constructor
        · rintro ⟨slot, ⟨-, ⟨found, hfound, rfl⟩, hrest⟩, hslot⟩
          obtain ⟨rfl, hcount⟩ := (foldlM_takeMember_some field rest found slot).1 hrest
          cases hslot
          exact ⟨hfound, by omega⟩
        · rintro ⟨hvalue, hcount⟩
          have hrest := (foldlM_takeMember_some field rest value (some value)).2 ⟨rfl, by omega⟩
          exact ⟨some value, ⟨some value, ⟨value, hvalue, rfl⟩, hrest⟩, rfl⟩
      · have hother : ¬ field.name = member.1 := fun hsame => hname hsame.symm
        simpa [takeMember, hname, hother, pure, Except.pure] using ih

end Field

namespace Fields

variable {α σ τ : Type}

def names {σ τ : Type} : Fields σ τ → List String
  | .nil => []
  | .cons field rest => field.name :: rest.names

/-- Whether every field has its value because of the member of its name. -/
def Reads {σ τ : Type} (member? : String → Option Json) : Fields σ τ → τ → Prop
  | .nil, _ => True
  | .cons field rest, (value, values) =>
      field.Reads (member? field.name) value ∧ rest.Reads member? values

/-- Whether every field has a value that it can be given. -/
def Obtained {σ τ : Type} : Fields σ τ → τ → Prop
  | .nil, _ => True
  | .cons field rest, (value, values) =>
      (∃ member?, field.Reads member? value) ∧ rest.Obtained values

theorem Reads.obtained {fields : Fields σ τ} {member? : String → Option Json} {values : τ}
    (hreads : fields.Reads member? values) : fields.Obtained values := by
  induction fields with
  | nil => trivial
  | cons field rest ih => exact ⟨⟨_, hreads.1⟩, ih hreads.2⟩

/-- Whether what every field reads from some members it reads from others too. -/
def ReadsAlike {σ τ : Type} (member? other? : String → Option Json) : Fields σ τ → Prop
  | .nil => True
  | .cons field rest =>
      (∀ value, field.Reads (member? field.name) value → field.Reads (other? field.name) value) ∧
        rest.ReadsAlike member? other?

theorem Reads.of_alike {fields : Fields σ τ} {member? other? : String → Option Json} {values : τ}
    (hreads : fields.Reads member? values) (halike : fields.ReadsAlike member? other?) :
    fields.Reads other? values := by
  induction fields with
  | nil => trivial
  | cons field rest ih => exact ⟨halike.1 _ hreads.1, ih hreads.2 halike.2⟩

theorem readsAlike_of_eq {fields : Fields σ τ} {member? other? : String → Option Json}
    (hsame : ∀ name ∈ fields.names, member? name = other? name) :
    fields.ReadsAlike member? other? := by
  induction fields with
  | nil => trivial
  | cons field rest ih =>
      rw [names, List.forall_mem_cons] at hsame
      exact ⟨fun _ hreads => hsame.1 ▸ hreads, ih hsame.2⟩

/-- Where the members of the fields are the same, so are their values. -/
theorem Reads.congr {fields : Fields σ τ} {member? other? : String → Option Json} {values : τ}
    (hreads : fields.Reads member? values)
    (hsame : ∀ name ∈ fields.names, member? name = other? name) : fields.Reads other? values :=
  hreads.of_alike (readsAlike_of_eq hsame)

theorem decodeMember_of_not_mem {name : String} {fields : Fields σ τ} (hname : name ∉ fields.names)
    (json : Json) (slots : σ) : fields.decodeMember name json slots = .ok slots := by
  induction fields with
  | nil => rfl
  | cons field rest ih =>
      rw [names, List.mem_cons, not_or] at hname
      rw [decodeMember, if_neg hname.1, ih hname.2]
      rfl

/-- A member goes to the first field on its own, and to the others on their own. -/
theorem decodeMember_cons_eq_ok_iff {field : Field α} {rest : Fields σ τ}
    (hname : field.name ∉ rest.names) (member : String × Json) (slots next : Option α × σ) :
    (cons field rest).decodeMember member.1 member.2 slots = .ok next ↔
      field.takeMember slots.1 member = .ok next.1 ∧
        rest.decodeMember member.1 member.2 slots.2 = .ok next.2 := by
  rw [decodeMember, Field.takeMember]
  by_cases hfield : member.1 = field.name
  · rw [if_pos hfield, if_pos hfield, hfield, decodeMember_of_not_mem hname]
    cases hslot : slots.1 with
    | some held => simp [throw, throwThe, MonadExceptOf.throw]
    | none =>
        simp only [Option.isSome_none, Bool.false_eq_true, if_false, bind_eq_ok_iff, map_eq_ok_iff,
          pure, Except.pure, Except.ok.injEq, Prod.ext_iff]
        constructor
        · rintro ⟨found, hfound, hslot, hslots⟩
          exact ⟨⟨found, hfound, hslot⟩, hslots⟩
        · rintro ⟨⟨found, hfound, hslot⟩, hslots⟩
          exact ⟨found, hfound, hslot, hslots⟩
  · rw [if_neg hfield, if_neg hfield]
    simp only [bind_eq_ok_iff, pure, Except.pure, Except.ok.injEq, Prod.ext_iff]
    constructor
    · rintro ⟨found, hfound, hslot, rfl⟩
      exact ⟨hslot, hfound⟩
    · rintro ⟨hslot, hfound⟩
      exact ⟨next.2, hfound, hslot, rfl⟩

/-- All members go to the first field on its own, and to the others on their own. -/
theorem foldlM_decodeMember_cons_eq_ok_iff {field : Field α} {rest : Fields σ τ}
    (hname : field.name ∉ rest.names) (members : List (String × Json))
    (slots last : Option α × σ) :
    members.foldlM (fun slots member => (cons field rest).decodeMember member.1 member.2 slots)
        slots = .ok last ↔
      members.foldlM field.takeMember slots.1 = .ok last.1 ∧
        members.foldlM (fun slots member => rest.decodeMember member.1 member.2 slots) slots.2 =
          .ok last.2 := by
  induction members generalizing slots with
  | nil => simp [pure, Except.pure, Prod.ext_iff]
  | cons member others ih =>
      simp only [List.foldlM_cons, bind_eq_ok_iff, decodeMember_cons_eq_ok_iff hname, ih]
      constructor
      · rintro ⟨next, ⟨hslot, hslots⟩, hlast, hlasts⟩
        exact ⟨⟨next.1, hslot, hlast⟩, next.2, hslots, hlasts⟩
      · rintro ⟨⟨slot, hslot, hlast⟩, slots, hslots, hlasts⟩
        exact ⟨(slot, slots), ⟨hslot, hslots⟩, hlast, hlasts⟩

/-- Each field has the value it was given, or else its default. -/
theorem finish_cons_eq_ok_iff {field : Field α} {rest : Fields σ τ} (slots : Option α × σ)
    (values : α × τ) :
    (cons field rest).finish slots = .ok values ↔
      (slots.1 <|> field.absent) = some values.1 ∧ rest.finish slots.2 = .ok values.2 := by
  rw [finish]
  cases hslot : (slots.1 <|> field.absent) with
  | none => simp [throw, throwThe, MonadExceptOf.throw]
  | some value =>
      simp only [bind_eq_ok_iff, pure, Except.pure, Except.ok.injEq, Prod.ext_iff,
        Option.some.injEq]
      constructor
      · rintro ⟨found, hfound, hvalue, rfl⟩
        exact ⟨hvalue, hfound⟩
      · rintro ⟨hvalue, hfound⟩
        exact ⟨values.2, hfound, hvalue, rfl⟩

/-- The fields of an object have the values that they read from the members of their names, of
which there is at most one for each. -/
theorem finish_members_eq_ok_iff {fields : Fields σ τ} (hnames : fields.names.Nodup)
    (members : List (String × Json)) (values : τ) :
    (∃ slots, members.foldlM (fun slots member => fields.decodeMember member.1 member.2 slots)
        fields.unset = .ok slots ∧ fields.finish slots = .ok values) ↔
      fields.Reads (members.lookup ·) values ∧
        ∀ name ∈ fields.names, (members.map (·.1)).count name ≤ 1 := by
  induction fields with
  | nil =>
      have hfold : members.foldlM (fun slots member => nil.decodeMember member.1 member.2 slots)
          nil.unset = .ok () := by
        induction members with
        | nil => rfl
        | cons member rest ih => exact ih
      simp [hfold, finish, Reads, names, pure, Except.pure]
  | cons field rest ih =>
      rw [names, List.nodup_cons] at hnames
      have hfirst := field.takeMember_reads_iff members values.1
      have hrest := ih hnames.2 values.2
      simp only [foldlM_decodeMember_cons_eq_ok_iff hnames.1, finish_cons_eq_ok_iff, names,
        List.forall_mem_cons]
      constructor
      · rintro ⟨slots, ⟨hslot, hslots⟩, hvalue, hvalues⟩
        obtain ⟨hread, hcount⟩ := hfirst.1 ⟨slots.1, hslot, hvalue⟩
        obtain ⟨hreads, hcounts⟩ := hrest.1 ⟨slots.2, hslots, hvalues⟩
        exact ⟨⟨hread, hreads⟩, hcount, hcounts⟩
      · rintro ⟨⟨hread, hreads⟩, hcount, hcounts⟩
        obtain ⟨slot, hslot, hvalue⟩ := hfirst.2 ⟨hread, hcount⟩
        obtain ⟨slots, hslots, hvalues⟩ := hrest.2 ⟨hreads, hcounts⟩
        exact ⟨(slot, slots), ⟨hslot, hslots⟩, hvalue, hvalues⟩

/-- The fields of a list have their values from its items, or their defaults where it is too
short. -/
theorem decodeItems_obtained {fields : Fields σ τ} {tooShort : Nat → Mismatch} {index : Nat}
    {items left : List Json} {values : τ}
    (hitems : fields.decodeItems tooShort index items = .ok (values, left)) :
    fields.Obtained values := by
  induction fields generalizing index items left with
  | nil => trivial
  | cons field rest ih =>
      cases items with
      | cons item others =>
          simp only [decodeItems, bind_eq_ok_iff, pure, Except.pure, Except.ok.injEq,
            Prod.mk.injEq] at hitems
          obtain ⟨value, hvalue, ⟨found, after⟩, hfound, rfl, -⟩ := hitems
          exact ⟨⟨some item, hvalue⟩, ih hfound⟩
      | nil =>
          rw [decodeItems] at hitems
          cases habsent : field.absent with
          | none => simp [habsent, throw, throwThe, MonadExceptOf.throw] at hitems
          | some value =>
              simp only [habsent, bind_eq_ok_iff, pure, Except.pure, Except.ok.injEq,
                Prod.mk.injEq] at hitems
              obtain ⟨⟨found, after⟩, hfound, rfl, -⟩ := hitems
              exact ⟨⟨none, habsent⟩, ih hfound⟩

/-- Whether every field reads its value back from what the value is written as. -/
def Restores {σ τ : Type} : Fields σ τ → τ → Prop
  | .nil, _ => True
  | .cons field rest, (value, values) => field.Restores value ∧ rest.Restores values

theorem names_encode_sublist (fields : Fields σ τ) (values : τ) :
    ((fields.encode values).map (·.1)).Sublist fields.names := by
  induction fields with
  | nil => exact List.Sublist.refl []
  | cons field rest ih =>
      rw [encode, names]
      split
      · exact (ih values.2).cons field.name
      · exact (ih values.2).cons_cons field.name

theorem lookup_encode_of_not_mem {fields : Fields σ τ} {name : String}
    (hname : name ∉ fields.names) (values : τ) : (fields.encode values).lookup name = none :=
  lookup_of_not_mem_keys fun hmem => hname ((fields.names_encode_sublist values).subset hmem)

/-- A field is written under its own name, and no other field is. -/
theorem lookup_encode_cons {field : Field α} {rest : Fields σ τ} (hname : field.name ∉ rest.names)
    (values : α × τ) (name : String) :
    ((cons field rest).encode values).lookup name =
      if name = field.name then field.written values.1 else (rest.encode values.2).lookup name := by
  rw [encode, Field.written]
  split
  · split
    case isTrue hfield => rw [hfield, lookup_encode_of_not_mem hname]
    case isFalse => rfl
  · rw [lookup_cons]

/-- Fields that are written read back what each of them reads back. -/
theorem reads_encode_iff {fields : Fields σ τ} (hnames : fields.names.Nodup) (values : τ) :
    fields.Reads (fun name => ((fields.encode values).lookup name).map Json.normal) values ↔
      fields.Restores values := by
  induction fields with
  | nil => exact Iff.rfl
  | cons field rest ih =>
      rw [names, List.nodup_cons] at hnames
      have hrest : ∀ name ∈ rest.names,
          (((cons field rest).encode values).lookup name).map Json.normal =
            ((rest.encode values.2).lookup name).map Json.normal := by
        intro name hname
        have hother : name ≠ field.name := fun hsame => hnames.1 (hsame ▸ hname)
        rw [lookup_encode_cons hnames.1, if_neg hother]
      rw [Reads, Restores, ← ih hnames.2, Field.Restores, lookup_encode_cons hnames.1, if_pos rfl]
      exact and_congr_right fun _ =>
        ⟨fun hreads => hreads.congr hrest,
          fun hreads => hreads.congr fun name hname => (hrest name hname).symm⟩

end Fields

namespace Codec

variable {α σ τ : Type} {name : String} {fields : Fields σ τ} {make : τ → α} {parts : α → τ}

/-- A structure is decoded from an object exactly if each of its fields reads its value from the
member of its name. -/
theorem record_decode_object_iff (hnames : fields.names.Nodup)
    {members : List (String × Json)} {value : α} :
    (record name fields make parts).decode (.object members) = .ok value ↔
      (∃ values, fields.Reads (members.lookup ·) values ∧ make values = value) ∧
        ∀ name ∈ fields.names, (members.map (·.1)).count name ≤ 1 := by
  have hfields := Fields.finish_members_eq_ok_iff hnames members
  simp only [record, bind_eq_ok_iff, pure, Except.pure, Except.ok.injEq]
  constructor
  · rintro ⟨slots, hslots, values, hvalues, hvalue⟩
    obtain ⟨hreads, hcounts⟩ := (hfields values).1 ⟨slots, hslots, hvalues⟩
    exact ⟨⟨values, hreads, hvalue⟩, hcounts⟩
  · rintro ⟨⟨values, hreads, hvalue⟩, hcounts⟩
    obtain ⟨slots, hslots, hvalues⟩ := (hfields values).2 ⟨hreads, hcounts⟩
    exact ⟨slots, hslots, values, hvalues, hvalue⟩

/-- In normal form no member is given twice. -/
theorem record_ofJson_object_iff (hnames : fields.names.Nodup)
    {members : List (String × Json)} {value : α} :
    (record name fields make parts).decode (Json.object members).normal = .ok value ↔
      ∃ values, fields.Reads (fun name => (members.reverse.lookup name).map Json.normal) values ∧
        make values = value := by
  have hnodup := nodup_keys_insertEntries (members.map fun member => (member.1, member.2.normal))
  rw [Json.normal_object, record_decode_object_iff hnames]
  simp only [lookup_insertEntries, ← List.map_reverse, lookup_map_values]
  exact and_iff_left fun name _ => List.nodup_iff_count_le_one.1 hnodup name

/-- Objects from whose members the fields read the same are decoded alike. -/
theorem record_ofJson_of_alike (hnames : fields.names.Nodup) {left right : List (String × Json)}
    (halike : fields.ReadsAlike (fun name => ((Json.object left).member? name).map Json.normal)
      fun name => ((Json.object right).member? name).map Json.normal) {value : α}
    (hvalue : (record name fields make parts).decode (Json.object left).normal = .ok value) :
    (record name fields make parts).decode (Json.object right).normal = .ok value := by
  simp only [Json.member?_object] at halike
  rw [record_ofJson_object_iff hnames] at hvalue ⊢
  obtain ⟨values, hreads, hmake⟩ := hvalue
  exact ⟨values, hreads.of_alike halike, hmake⟩

/-- So are objects whose members of the names of the fields are the same, whatever else they
have. -/
theorem record_ofJson_congr (hnames : fields.names.Nodup) {left right : List (String × Json)}
    (hsame : ∀ name ∈ fields.names, ((Json.object left).member? name).map Json.normal =
      ((Json.object right).member? name).map Json.normal) {value : α} :
    (record name fields make parts).decode (Json.object left).normal = .ok value ↔
      (record name fields make parts).decode (Json.object right).normal = .ok value :=
  ⟨record_ofJson_of_alike hnames (Fields.readsAlike_of_eq hsame),
    record_ofJson_of_alike hnames
      (Fields.readsAlike_of_eq fun name hname => (hsame name hname).symm)⟩

/-- A structure is decoded with values that its fields can have. -/
theorem obtained_of_record_decode (hnames : fields.names.Nodup) {json : Json} {value : α}
    (hvalue : (record name fields make parts).decode json = .ok value) :
    ∃ values, fields.Obtained values ∧ make values = value := by
  cases json with
  | object members =>
      obtain ⟨⟨values, hreads, hmake⟩, -⟩ := (record_decode_object_iff hnames).1 hvalue
      exact ⟨values, hreads.obtained, hmake⟩
  | array items =>
      simp only [record, bind_eq_ok_iff] at hvalue
      obtain ⟨⟨values, left⟩, hitems, hleft⟩ := hvalue
      refine ⟨values, Fields.decodeItems_obtained hitems, ?_⟩
      by_cases hempty : left.isEmpty
      · simpa [hempty, pure, Except.pure] using hleft
      · simp [hempty, throw, throwThe, MonadExceptOf.throw] at hleft
  | _ => cases hvalue

end Codec

end StackBridge
