/-
Values that are the same but for the order of the members of their objects. Where no object repeats
a name, two of them have one normal form, and a decoder finds the same in a value as in its normal
form.
-/
import Mathlib.Data.List.Perm.Basic
import StackBridge.Proofs.DecodingRoutes

namespace StackBridge

section Entries

variable {α : Type}

theorem insertEntry_perm {key : String} {entries : List (String × α)}
    (hkey : key ∉ entries.map (·.1)) (value : α) :
    (insertEntry key value entries).Perm ((key, value) :: entries) := by
  induction entries with
  | nil => exact List.Perm.refl _
  | cons entry rest ih =>
      rw [List.map_cons, List.mem_cons, not_or] at hkey
      unfold insertEntry
      split
      · exact List.Perm.refl _
      · split
        · exact ((ih hkey.2).cons entry).trans (List.Perm.swap ..)
        case isFalse hnot hnot' => exact absurd (eq_of_not_lt_of_not_lt hnot hnot') hkey.1

/-- Where no key is repeated, inserting entries keeps them all. -/
theorem insertEntries_perm {entries : List (String × α)} (hkeys : (entries.map (·.1)).Nodup) :
    (insertEntries entries).Perm entries := by
  have hfold : ∀ sorted : List (String × α), ((sorted ++ entries).map (·.1)).Nodup →
      (entries.foldl (fun sorted entry => insertEntry entry.1 entry.2 sorted) sorted).Perm
        (sorted ++ entries) := by
    clear hkeys
    induction entries with
    | nil => simp
    | cons entry rest ih =>
        intro sorted hkeys
        have hperm : (sorted ++ entry :: rest).Perm ((entry :: sorted) ++ rest) :=
          List.perm_middle
        have hkey : entry.1 ∉ sorted.map (·.1) := by
          have hnodup := (hperm.map (·.1)).nodup_iff.1 hkeys
          simp only [List.cons_append, List.map_cons, List.nodup_cons, List.map_append,
            List.mem_append, not_or] at hnodup
          exact hnodup.1.1
        have hinsert := insertEntry_perm hkey entry.2
        have hrest := (hinsert.append_right rest).trans hperm.symm
        exact (ih _ ((hrest.map (·.1)).nodup_iff.2 hkeys)).trans hrest
  exact hfold [] hkeys

/-- So the order in which entries without a repeated key are inserted does not matter. -/
theorem insertEntries_eq_of_perm {entries others : List (String × α)}
    (hkeys : (entries.map (·.1)).Nodup) (hperm : entries.Perm others) :
    insertEntries entries = insertEntries others := by
  have hothers := (hperm.map (·.1)).nodup_iff.1 hkeys
  have hsame := ((insertEntries_perm hkeys).trans hperm).trans (insertEntries_perm hothers).symm
  refine hsame.eq_of_pairwise ?_ (ascending_insertEntries entries) (ascending_insertEntries others)
  intro left right _ _ hlt hgt
  exact absurd hgt (String.lt_asymm hlt)

end Entries

namespace Json

mutual

/-- Whether no object in the value repeats a name. -/
def Distinct : Json → Prop
  | .array items => DistinctItems items
  | .object members => (members.map (·.1)).Nodup ∧ DistinctMembers members
  | _ => True

def DistinctItems : List Json → Prop
  | [] => True
  | item :: rest => item.Distinct ∧ DistinctItems rest

def DistinctMembers : List (String × Json) → Prop
  | [] => True
  | member :: rest => member.2.Distinct ∧ DistinctMembers rest

end

theorem distinctItems_iff (items : List Json) :
    DistinctItems items ↔ ∀ item ∈ items, item.Distinct := by
  induction items with
  | nil => simp [DistinctItems]
  | cons item rest ih => simp [DistinctItems, ih]

theorem distinctMembers_iff (members : List (String × Json)) :
    DistinctMembers members ↔ ∀ member ∈ members, member.2.Distinct := by
  induction members with
  | nil => simp [DistinctMembers]
  | cons member rest ih => simp [DistinctMembers, ih]

theorem distinct_array_iff {items : List Json} :
    (array items).Distinct ↔ ∀ item ∈ items, item.Distinct := by
  rw [Distinct, distinctItems_iff]

theorem distinct_object_iff {members : List (String × Json)} :
    (object members).Distinct ↔
      (members.map (·.1)).Nodup ∧ ∀ member ∈ members, member.2.Distinct := by
  rw [Distinct, distinctMembers_iff]

/-- Whether a value is another one with the members of some of its objects in another order. -/
inductive Reordered : Json → Json → Prop where
  | refl (json : Json) : Reordered json json
  | trans {json between other : Json} (hfirst : Reordered json between)
      (hsecond : Reordered between other) : Reordered json other
  | members {entries others : List (String × Json)} (hperm : entries.Perm others) :
      Reordered (.object entries) (.object others)
  | member {before after : List (String × Json)} {name : String} {value other : Json}
      (hvalue : Reordered value other) :
      Reordered (.object (before ++ (name, value) :: after))
        (.object (before ++ (name, other) :: after))
  | item {before after : List Json} {value other : Json} (hvalue : Reordered value other) :
      Reordered (.array (before ++ value :: after)) (.array (before ++ other :: after))

/-- Values that differ only in the order of members have one normal form. -/
theorem Reordered.normal_eq {json other : Json} (hreordered : Reordered json other)
    (hdistinct : json.Distinct) : other.Distinct ∧ json.normal = other.normal := by
  induction hreordered with
  | refl => exact ⟨hdistinct, rfl⟩
  | trans _ _ ihfirst ihsecond =>
      obtain ⟨hbetween, hfirst⟩ := ihfirst hdistinct
      obtain ⟨hother, hsecond⟩ := ihsecond hbetween
      exact ⟨hother, hfirst.trans hsecond⟩
  | members hperm =>
      rw [distinct_object_iff] at hdistinct ⊢
      refine ⟨⟨(hperm.map (·.1)).nodup_iff.1 hdistinct.1,
        fun member hmember => hdistinct.2 member (hperm.mem_iff.2 hmember)⟩, ?_⟩
      rw [normal_object, normal_object]
      refine congrArg Json.object (insertEntries_eq_of_perm ?_ (hperm.map _))
      rw [List.map_map]
      exact hdistinct.1
  | member _ ih =>
      rw [distinct_object_iff] at hdistinct ⊢
      obtain ⟨hother, hsame⟩ := ih (hdistinct.2 _ List.mem_append_cons_self)
      refine ⟨⟨by simpa using hdistinct.1, ?_⟩, ?_⟩
      · intro member hmember
        rcases List.mem_append.1 hmember with hbefore | hafter
        · exact hdistinct.2 member (List.mem_append_left _ hbefore)
        · rcases List.mem_cons.1 hafter with rfl | hafter
          · exact hother
          · exact hdistinct.2 member (List.mem_append_right _ (List.mem_cons_of_mem _ hafter))
      · simp only [normal_object, List.map_append, List.map_cons, hsame]
  | item _ ih =>
      rw [distinct_array_iff] at hdistinct ⊢
      obtain ⟨hother, hsame⟩ := ih (hdistinct _ List.mem_append_cons_self)
      refine ⟨?_, by simp only [normal_array, List.map_append, List.map_cons, hsame]⟩
      intro item hitem
      rcases List.mem_append.1 hitem with hbefore | hafter
      · exact hdistinct item (List.mem_append_left _ hbefore)
      · rcases List.mem_cons.1 hafter with rfl | hafter
        · exact hother
        · exact hdistinct item (List.mem_append_right _ (List.mem_cons_of_mem _ hafter))

end Json

namespace Codec

variable {α β σ τ : Type}

/-- Whether a value that repeats no names is decoded as its normal form is. -/
def Settles (codec : Codec α) : Prop :=
  ∀ json : Json, json.Distinct → ∀ value,
    codec.decode json.normal = .ok value ↔ codec.decode json = .ok value

theorem settles_string : Codec.string.Settles := by
  intro json _ value
  cases json <;> simp [Codec.string, Json.normal]

theorem settles_bool : Codec.bool.Settles := by
  intro json _ value
  cases json <;> simp [Codec.bool, Json.normal]

theorem settles_numeric {wanted : String} {encode : α → Json} {check : Number → Except Mismatch α} :
    (numeric wanted encode check).Settles := by
  intro json _ value
  cases json <;> simp [numeric, Json.normal]

theorem settles_any : Codec.any.Settles := by
  intro json _ value
  simp [Codec.any, Json.normal_normal]

theorem Settles.option {codec : Codec α} (hcodec : codec.Settles) : codec.option.Settles := by
  intro json hdistinct value
  by_cases hnull : json = .null
  · subst hnull
    exact Iff.rfl
  · rw [decode_option_iff hnull, decode_option_iff fun hnormal => hnull (normal_eq_null hnormal)]
    simp only [hcodec json hdistinct]

theorem Settles.mapped {codec : Codec α} (hcodec : codec.Settles) (make : α → β) (view : β → α) :
    (codec.mapped make view).Settles := by
  intro json hdistinct value
  simp only [Codec.mapped, map_eq_ok_iff, hcodec json hdistinct]

theorem forall₂_iff_of_forall {γ : Type} {read other : α → γ → Prop} {items : List α}
    (hsame : ∀ item ∈ items, ∀ value, read item value ↔ other item value) {values : List γ} :
    List.Forall₂ read items values ↔ List.Forall₂ other items values := by
  induction items generalizing values with
  | nil => simp
  | cons item rest ih =>
      rw [List.forall_mem_cons] at hsame
      simp only [List.forall₂_cons_left_iff, hsame.1, ih hsame.2]

theorem Settles.list {codec : Codec α} (hcodec : codec.Settles) : codec.list.Settles := by
  intro json hdistinct values
  cases json with
  | array items =>
      rw [Json.distinct_array_iff] at hdistinct
      rw [Json.normal_array]
      simp only [Codec.list, mapM_eq_ok_iff, List.forall₂_map_left_iff]
      exact forall₂_iff_of_forall fun item hitem => hcodec item (hdistinct item hitem)
  | _ => exact Iff.rfl

/-- Members in another order are read as the same map. -/
theorem ofList_of_perm {read : String × Json → Except Mismatch (String × α)}
    (hread : ∀ member entry, read member = .ok entry → entry.1 = member.1)
    {members others : List (String × Json)} (hkeys : (members.map (·.1)).Nodup)
    (hperm : members.Perm others) {value : SortedMap α}
    (hvalue : ∃ entries, List.Forall₂ (fun member entry => read member = .ok entry) others entries ∧
      SortedMap.ofList entries = value) :
    ∃ entries, List.Forall₂ (fun member entry => read member = .ok entry) members entries ∧
      SortedMap.ofList entries = value := by
  obtain ⟨entries, hentries, rfl⟩ := hvalue
  obtain ⟨found, hfound, hsame⟩ := List.perm_comp_forall₂ hperm hentries
  have hfoundKeys : found.map (·.1) = members.map (·.1) := by
    clear hsame hkeys hperm
    induction hfound with
    | nil => rfl
    | cons hentry _ ih => rw [List.map_cons, List.map_cons, ih, hread _ _ hentry]
  refine ⟨found, hfound, ?_⟩
  rw [← hfoundKeys] at hkeys
  simp only [SortedMap.ofList, insertEntries_eq_of_perm hkeys hsame]

/-- Maps settle if their values do. -/
theorem Settles.map {codec : Codec α} (hcodec : codec.Settles) : codec.map.Settles := by
  intro json hdistinct value
  cases json with
  | object members =>
      rw [Json.distinct_object_iff] at hdistinct
      rw [Json.normal_object]
      simp only [Codec.map]
      rw [map_eq_ok_iff, map_eq_ok_iff]
      simp only [mapM_eq_ok_iff]
      have hread : ∀ (member : String × Json) (entry : String × α),
          (member.1, ·) <$> codec.decode member.2 = .ok entry → entry.1 = member.1 := by
        intro member entry hentry
        obtain ⟨held, -, rfl⟩ := map_eq_ok_iff.1 hentry
        rfl
      have hkeys : ((members.map fun member => (member.1, member.2.normal)).map (·.1)).Nodup := by
        rw [List.map_map]
        exact hdistinct.1
      have hperm := insertEntries_perm hkeys
      have hsettled : ∀ entries : List (String × α),
          List.Forall₂ (fun member entry => (member.1, ·) <$> codec.decode member.2 = .ok entry)
              (members.map fun member => (member.1, member.2.normal)) entries ↔
            List.Forall₂ (fun member entry => (member.1, ·) <$> codec.decode member.2 = .ok entry)
              members entries := by
        intro entries
        rw [List.forall₂_map_left_iff]
        refine forall₂_iff_of_forall fun member hmember entry => ?_
        simp only [map_eq_ok_iff, hcodec member.2 (hdistinct.2 member hmember)]
      simp only [← hsettled]
      exact ⟨ofList_of_perm hread hkeys hperm.symm,
        ofList_of_perm hread ((hperm.map _).nodup_iff.2 hkeys) hperm⟩
  | _ => exact Iff.rfl

theorem decode_named_object_iff {values : List α} {name : α → String}
    {members : List (String × Json)} {value : α} :
    (named values name).decode (.object members) = .ok value ↔
      ∃ word, members = [(word, .null)] ∧ ofName values name word = .ok value := by
  rcases members with _ | ⟨⟨word, payload⟩, _ | ⟨second, rest⟩⟩
  · simp [named]
  · cases payload <;> simp [named, bind_eq_ok_iff]
  · simp [named]

theorem settles_named {values : List α} {name : α → String} : (named values name).Settles := by
  intro json hdistinct value
  cases json with
  | object members =>
      rw [Json.distinct_object_iff] at hdistinct
      have hkeys : ((members.map fun member => (member.1, member.2.normal)).map (·.1)).Nodup := by
        rw [List.map_map]
        exact hdistinct.1
      rw [Json.normal_object, decode_named_object_iff, decode_named_object_iff]
      refine exists_congr fun word => and_congr_left fun _ => ?_
      constructor
      · intro hnormal
        have hperm := insertEntries_perm hkeys
        rw [hnormal, List.singleton_perm, eq_comm, List.map_eq_singleton_iff] at hperm
        obtain ⟨⟨same, payload⟩, rfl, hpayload⟩ := hperm
        obtain ⟨rfl, hnull⟩ : same = word ∧ payload.normal = .null := by simpa using hpayload
        rw [normal_eq_null hnull]
      · rintro rfl
        rfl
  | array items => simp [named]
  | _ => exact Iff.rfl

end Codec

namespace Fields

variable {σ τ : Type}

/-- Whether every field decodes a value as its normal form. -/
def Settles {σ τ : Type} : Fields σ τ → Prop
  | .nil => True
  | .cons field rest => field.codec.Settles ∧ rest.Settles

theorem Settles.reads_iff {fields : Fields σ τ} (hfields : fields.Settles)
    {member? : String → Option Json}
    (hdistinct : ∀ name json, member? name = some json → json.Distinct)
    {values : τ} :
    fields.Reads (fun name => (member? name).map Json.normal) values ↔
      fields.Reads member? values := by
  induction fields with
  | nil => exact Iff.rfl
  | cons field rest ih =>
      refine and_congr ?_ (ih hfields.2)
      change field.Reads ((member? field.name).map Json.normal) values.1 ↔ _
      cases hmember : member? field.name with
      | none => exact Iff.rfl
      | some json => exact hfields.1 json (hdistinct _ json hmember) values.1

theorem Settles.decodeItems_iff {fields : Fields σ τ} (hfields : fields.Settles)
    {tooShort : Nat → Mismatch} {index : Nat} {items : List Json}
    (hdistinct : ∀ item ∈ items, item.Distinct) {values : τ} :
    fields.decodeItems tooShort index (items.map Json.normal) = .ok (values, []) ↔
      fields.decodeItems tooShort index items = .ok (values, []) := by
  induction fields generalizing index items with
  | nil => simp [decodeItems]
  | cons field rest ih =>
      cases items with
      | nil => exact Iff.rfl
      | cons item others =>
          rw [List.forall_mem_cons] at hdistinct
          simp only [List.map_cons, decodeItems]
          rw [bind_eq_ok_iff, bind_eq_ok_iff]
          simp only [decodeItems_rest_iff, ih hfields.2 hdistinct.2, hfields.1 item hdistinct.1]

end Fields

namespace Codec

variable {α σ τ : Type} {fields : Fields σ τ} {name : String} {make : τ → α} {parts : α → τ}

/-- A structure is decoded from an array exactly if its items fill all its fields. -/
theorem record_decode_array_iff {items : List Json} {value : α} :
    (record name fields make parts).decode (.array items) = .ok value ↔
      ∃ values, fields.decodeItems (Fields.tooShort name fields.size) 0 items = .ok (values, []) ∧
        make values = value := by
  simp only [record, bind_eq_ok_iff]
  constructor
  · rintro ⟨⟨values, left⟩, hvalues, hleft⟩
    cases left with
    | nil => exact ⟨values, hvalues, pure_eq_ok_iff.1 hleft⟩
    | cons item rest => simp at hleft
  · rintro ⟨values, hvalues, rfl⟩
    exact ⟨_, hvalues, rfl⟩

/-- Structures settle if their fields do. -/
theorem settles_record (hnames : fields.names.Nodup) (hfields : fields.Settles) :
    (record name fields make parts).Settles := by
  intro json hdistinct value
  cases json with
  | object members =>
      rw [Json.distinct_object_iff] at hdistinct
      have hlast := lookup_reverse_of_nodup hdistinct.1
      have hcounts : ∀ name ∈ fields.names, (members.map (·.1)).count name ≤ 1 :=
        fun name _ => List.nodup_iff_count_le_one.1 hdistinct.1 name
      have hmembers : ∀ name json, members.lookup name = some json → json.Distinct := by
        intro name json hlookup
        obtain ⟨before, after, rfl, -⟩ := List.lookup_eq_some_iff.1 hlookup
        exact hdistinct.2 _ List.mem_append_cons_self
      rw [record_ofJson_object_iff hnames, record_decode_object_iff hnames, and_iff_left hcounts]
      simp only [hlast, hfields.reads_iff hmembers]
  | array items =>
      rw [Json.distinct_array_iff] at hdistinct
      rw [Json.normal_array, record_decode_array_iff, record_decode_array_iff]
      simp only [hfields.decodeItems_iff hdistinct]
  | _ => exact Iff.rfl

/-- A type with alternatives settles if each alternative is tried alike. -/
theorem settles_untagged {encode : α → Json} {alternatives : List (Json → Option α)}
    (halternatives : ∀ attempt ∈ alternatives, ∀ json : Json, json.Distinct →
      attempt json.normal = attempt json) : (untagged name encode alternatives).Settles := by
  intro json hdistinct value
  have hsame : alternatives.findSome? (fun attempt => attempt json.normal) =
      alternatives.findSome? (fun attempt => attempt json) := by
    induction alternatives with
    | nil => rfl
    | cons attempt rest ih =>
        rw [List.forall_mem_cons] at halternatives
        rw [List.findSome?_cons, List.findSome?_cons, halternatives.1 json hdistinct,
          ih halternatives.2]
  rw [decode_untagged_eq_ok_iff, decode_untagged_eq_ok_iff, hsame]

end Codec

end StackBridge
