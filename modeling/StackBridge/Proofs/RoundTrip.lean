/-
Values that come back from what they are written as. A codec is faithful if every value that it
decodes comes back; each way to build a codec out of others keeps this. A structure comes back
exactly when each of its fields does, so what holds of a structure can be said of its parts.
-/
import StackBridge.Codec.Variant
import StackBridge.Proofs.Records

namespace StackBridge

theorem mapM_map_eq_ok_iff {α β ε : Type} (write : α → β) (read : β → Except ε α)
    (values : List α) :
    (values.map write).mapM read = .ok values ↔
      ∀ value ∈ values, read (write value) = .ok value := by
  induction values with
  | nil => simp [pure, Except.pure]
  | cons value rest ih =>
      rw [List.map_cons, List.mapM_cons, List.forall_mem_cons, ← ih]
      simp only [bind_eq_ok_iff, pure, Except.pure, Except.ok.injEq, List.cons.injEq]
      constructor
      · rintro ⟨found, hfound, others, hothers, rfl, rfl⟩
        exact ⟨hfound, hothers⟩
      · rintro ⟨hvalue, hrest⟩
        exact ⟨value, hvalue, rest, hrest, rfl, rfl⟩

theorem mem_of_mapM_eq_ok {α β ε : Type} {read : α → Except ε β} {items : List α}
    {values : List β} (hread : items.mapM read = .ok values) {value : β}
    (hvalue : value ∈ values) : ∃ item ∈ items, read item = .ok value := by
  induction items generalizing values with
  | nil =>
      cases hread
      cases hvalue
  | cons item rest ih =>
      simp only [List.mapM_cons, bind_eq_ok_iff, pure, Except.pure, Except.ok.injEq] at hread
      obtain ⟨found, hfound, others, hothers, rfl⟩ := hread
      rcases List.mem_cons.1 hvalue with rfl | hother
      · exact ⟨item, List.mem_cons_self, hfound⟩
      · obtain ⟨source, hsource, hsame⟩ := ih hothers hother
        exact ⟨source, List.mem_cons_of_mem item hsource, hsame⟩

namespace Codec

variable {α β : Type} {codec : Codec α}

/-- Whether a value is decoded from what it is written as. -/
def Restores (codec : Codec α) (value : α) : Prop :=
  codec.decode (codec.encode value).normal = .ok value

/-- Every value that is decoded comes back, and only null is decoded to what is written as null. -/
structure Faithful (codec : Codec α) : Prop where
  restores : ∀ json value, codec.decode json = .ok value → codec.Restores value
  keepsNull : ∀ json value, codec.decode json = .ok value →
    (codec.encode value).normal = .null → json = .null

theorem ofJson_eq_ok_iff (json : Json) (value : α) :
    codec.ofJson json = .ok value ↔ codec.decode json.normal = .ok value := by
  unfold ofJson
  cases codec.decode json.normal <;> simp [Except.mapError]

theorem ofJson_toJson_iff (value : α) :
    codec.ofJson (codec.toJson value) = .ok value ↔ codec.Restores value := by
  rw [ofJson_eq_ok_iff, toJson, Json.normal_normal, Restores]

theorem Faithful.of_decoded (hcodec : codec.Faithful) {json : Json} {value : α}
    (hvalue : codec.ofJson json = .ok value) : codec.Restores value :=
  hcodec.restores _ value ((ofJson_eq_ok_iff json value).1 hvalue)

/-- Every value comes back, decoded or not, and none is written as null. -/
structure Total (codec : Codec α) : Prop where
  restores : ∀ value, codec.Restores value
  solid : ∀ value, (codec.encode value).normal ≠ .null

theorem Total.faithful (hcodec : codec.Total) : codec.Faithful where
  restores _ value _ := hcodec.restores value
  keepsNull _ value _ hnull := absurd hnull (hcodec.solid value)

theorem total_string : Codec.string.Total :=
  ⟨fun _ => rfl, fun _ => by simp [string, Json.normal]⟩

theorem total_bool : Codec.bool.Total :=
  ⟨fun _ => rfl, fun _ => by simp [bool, Json.normal]⟩

theorem total_float : Codec.float.Total :=
  ⟨fun _ => rfl, fun _ => by simp [float, numeric, Json.normal]⟩

theorem total_word {wanted : String} {encode : α → Whole} {ofInt? : Int → Option α}
    (hvalue : ∀ value, ofInt? (encode value).val = some value) :
    (word wanted encode ofInt?).Total := by
  refine ⟨fun value => ?_, fun _ => by simp [word, numeric, Json.whole, Json.normal]⟩
  simp only [Restores, word, numeric, Json.whole, Json.normal, hvalue]
  rfl

theorem total_uint32 : Codec.uint32.Total := by
  refine total_word fun value => ?_
  have hlt := value.toNat_lt
  have hfits : 0 ≤ (Whole.ofUInt32 value).val ∧ (Whole.ofUInt32 value).val < 0x100000000 := by
    simp only [Whole.ofUInt32]
    omega
  simp only [Bool.and_eq_true, decide_eq_true_eq, if_pos hfits]
  simp [Whole.ofUInt32]

theorem total_int64 : Codec.int64.Total := by
  refine total_word fun value => ?_
  have hle := value.le_toInt
  have hlt := value.toInt_lt
  have hfits : -0x8000000000000000 ≤ (Whole.ofInt64 value).val ∧
      (Whole.ofInt64 value).val < 0x8000000000000000 := by
    simp only [Whole.ofInt64]
    omega
  simp only [Bool.and_eq_true, decide_eq_true_eq, if_pos hfits]
  simp [Whole.ofInt64]

theorem normal_eq_null {json : Json} (hnull : json.normal = .null) : json = .null := by
  cases json <;> simp [Json.normal] at hnull ⊢

theorem restores_any_iff (json : Json) : Codec.any.Restores json ↔ json.normal = json := by
  change Except.ok json.normal.normal = Except.ok json ↔ _
  rw [Json.normal_normal, Except.ok.injEq]

theorem faithful_any : Codec.any.Faithful where
  restores json value hvalue := by
    cases hvalue
    rw [restores_any_iff, Json.normal_normal]
  keepsNull json value hvalue hnull := by
    cases hvalue
    exact normal_eq_null (normal_eq_null hnull)

theorem restores_option_none : codec.option.Restores none := rfl

theorem restores_option_some_iff (value : α) :
    codec.option.Restores (some value) ↔
      codec.Restores value ∧ (codec.encode value).normal ≠ .null := by
  unfold Restores option
  cases hnormal : (codec.encode value).normal with
  | null => simp [pure, Except.pure]
  | _ =>
      simp only [ne_eq, reduceCtorEq, not_false_eq_true, and_true]
      cases codec.decode _ <;> simp [Functor.map, Except.map]

theorem Total.option (hcodec : codec.Total) : (value : Option α) → codec.option.Restores value
  | none => restores_option_none
  | some value => (restores_option_some_iff value).2 ⟨hcodec.restores value, hcodec.solid value⟩

theorem decode_option_eq_ok {json : Json} {value : Option α}
    (hvalue : codec.option.decode json = .ok value) :
    json = .null ∧ value = none ∨
      json ≠ .null ∧ ∃ held, value = some held ∧ codec.decode json = .ok held := by
  unfold option at hvalue
  cases json with
  | null => exact Or.inl ⟨rfl, by cases hvalue; rfl⟩
  | _ =>
      obtain ⟨held, hheld, rfl⟩ := map_eq_ok_iff.1 hvalue
      exact Or.inr ⟨by simp, held, rfl, hheld⟩

theorem Faithful.option (hcodec : codec.Faithful) : codec.option.Faithful where
  restores json value hvalue := by
    rcases decode_option_eq_ok hvalue with ⟨-, rfl⟩ | ⟨hjson, held, rfl, hheld⟩
    · exact restores_option_none
    · -- a value that was written as null would come back as none
      have hsolid : (codec.encode held).normal ≠ .null :=
        fun hnull => hjson (hcodec.keepsNull json held hheld hnull)
      exact (restores_option_some_iff held).2 ⟨hcodec.restores json held hheld, hsolid⟩
  keepsNull json value hvalue hnull := by
    rcases decode_option_eq_ok hvalue with ⟨hjson, -⟩ | ⟨-, held, rfl, hheld⟩
    · exact hjson
    · exact hcodec.keepsNull json held hheld hnull

theorem restores_list_iff (values : List α) :
    codec.list.Restores values ↔ ∀ value ∈ values, codec.Restores value := by
  unfold Restores list
  rw [Json.normal_array, List.map_map]
  exact mapM_map_eq_ok_iff _ codec.decode values

theorem Total.list (hcodec : codec.Total) : codec.list.Total where
  restores values := (restores_list_iff values).2 fun value _ => hcodec.restores value
  solid values := by simp [Codec.list]

theorem Faithful.list (hcodec : codec.Faithful) : codec.list.Faithful where
  restores json values hvalues := by
    rw [restores_list_iff]
    intro value hvalue
    cases json with
    | array items =>
        obtain ⟨item, -, hitem⟩ := mem_of_mapM_eq_ok hvalues hvalue
        exact hcodec.restores item value hitem
    | _ => cases hvalues
  keepsNull json values hvalues hnull := by simp [Codec.list] at hnull

theorem encode_map_normal (values : SortedMap α) :
    (codec.map.encode values).normal =
      .object (values.entries.map fun entry => (entry.1, (codec.encode entry.2).normal)) := by
  have hsorted : (values.entries.map fun entry =>
      (entry.1, (codec.encode entry.2).normal)).Pairwise (fun left right => left.1 < right.1) := by
    rw [List.pairwise_map]
    exact values.ascending
  simp only [map, Json.ofMap, SortedMap.mapValues, Json.normal_object, List.map_map]
  exact congrArg Json.object (insertEntries_of_ascending hsorted)

/-- A map comes back if its values do. -/
theorem restores_map {values : SortedMap α}
    (hvalues : ∀ entry ∈ values.entries, codec.Restores entry.2) :
    codec.map.Restores values := by
  have hread : (values.entries.map fun entry => (entry.1, (codec.encode entry.2).normal)).mapM
      (fun member => (member.1, ·) <$> codec.decode member.2) = .ok values.entries := by
    rw [mapM_map_eq_ok_iff]
    intro entry hentry
    rw [show codec.decode (codec.encode entry.2).normal = .ok entry.2 from hvalues entry hentry]
    rfl
  rw [Restores, encode_map_normal]
  unfold Codec.map
  simp only
  rw [hread]
  exact congrArg Except.ok values.ofList_entries

theorem Total.map (hcodec : codec.Total) : codec.map.Total where
  restores values := restores_map fun entry _ => hcodec.restores entry.2
  solid values := by
    rw [encode_map_normal]
    exact Json.noConfusion

theorem Faithful.map (hcodec : codec.Faithful) : codec.map.Faithful where
  restores json values hvalues := by
    cases json with
    | object members =>
        obtain ⟨entries, hread, rfl⟩ := map_eq_ok_iff.1 hvalues
        refine restores_map fun entry hentry => ?_
        obtain ⟨member, -, hmember⟩ := mem_of_mapM_eq_ok hread (mem_insertEntries hentry)
        obtain ⟨held, hheld, rfl⟩ := map_eq_ok_iff.1 hmember
        exact hcodec.restores member.2 held hheld
    | _ => cases hvalues
  keepsNull json values hvalues hnull := by
    rw [encode_map_normal] at hnull
    cases hnull

theorem encode_mapped (make : α → β) (view : β → α) (value : β) :
    (codec.mapped make view).encode value = codec.encode (view value) := rfl

/-- A codec of values that stand for others, if what stands for a value is never lost. -/
theorem Faithful.mapped (hcodec : codec.Faithful) {make : α → β} {view : β → α}
    (hview : ∀ value, view (make value) = value) : (codec.mapped make view).Faithful where
  restores json value hvalue := by
    obtain ⟨held, hheld, rfl⟩ := map_eq_ok_iff.1 hvalue
    rw [Restores, encode_mapped, hview]
    exact map_eq_ok_iff.2 ⟨held, hcodec.restores json held hheld, rfl⟩
  keepsNull json value hvalue hnull := by
    obtain ⟨held, hheld, rfl⟩ := map_eq_ok_iff.1 hvalue
    rw [encode_mapped, hview] at hnull
    exact hcodec.keepsNull json held hheld hnull

theorem ofName_eq_ok {values : List α} {name : α → String} {wanted : String} {value : α}
    (hvalue : ofName values name wanted = .ok value) : name value = wanted := by
  unfold ofName at hvalue
  split at hvalue
  · rename_i found hfound
    cases hvalue
    simpa using List.find?_some hfound
  · cases hvalue

/-- Values that are names come back, also from an object with one member. -/
theorem faithful_named (values : List α) (name : α → String) : (named values name).Faithful where
  restores json value hvalue := by
    have hname : ofName values name (name value) = .ok value := by
      unfold named at hvalue
      simp only at hvalue
      split at hvalue
      · rw [ofName_eq_ok hvalue]
        exact hvalue
      · rename_i wanted payload
        cases hfound : ofName values name wanted with
        | error fault => simp [hfound, bind, Except.bind] at hvalue
        | ok found =>
            cases payload with
            | null =>
                simp only [hfound, bind, Except.bind, pure, Except.pure, Except.ok.injEq] at hvalue
                subst hvalue
                rw [ofName_eq_ok hfound]
                exact hfound
            | _ => simp [hfound, bind, Except.bind, wrongKind] at hvalue
      · cases hvalue
      · cases hvalue
    exact hname
  keepsNull json value hvalue hnull := by simp [named, Json.normal] at hnull

end Codec

namespace Field

variable {α : Type}

/-- Every value that a field can have comes back. -/
def Faithful (field : Field α) : Prop :=
  ∀ member? value, field.Reads member? value → field.Restores value

variable {name : String} {codec : Codec α}

theorem restores_required_iff (value : α) :
    (required name codec).Restores value ↔ codec.Restores value := Iff.rfl

theorem restores_optional_iff (value : Option α) :
    (optional name codec).Restores value ↔ codec.option.Restores value := by
  cases value with
  | none => exact iff_of_true rfl Codec.restores_option_none
  | some held => exact Iff.rfl

theorem Restores.required_of_total (hcodec : codec.Total) (value : α) :
    (required name codec).Restores value :=
  (restores_required_iff value).2 (hcodec.restores value)

theorem Restores.optional_of_total (hcodec : codec.Total) (value : Option α) :
    (optional name codec).Restores value :=
  (restores_optional_iff value).2 (hcodec.option value)

theorem Faithful.required (hcodec : codec.Faithful) : (required name codec).Faithful
  | some json, value, hvalue => hcodec.restores json value hvalue

theorem Faithful.withDefault (hcodec : codec.Faithful) {fallback : α}
    (hfallback : codec.Restores fallback) : (withDefault name codec fallback).Faithful
  | some json, value, hvalue => hcodec.restores json value hvalue
  | none, value, hvalue => by
      cases hvalue
      exact hfallback

theorem Faithful.nullable (hcodec : codec.Faithful) : (nullable name codec).Faithful :=
  Faithful.withDefault hcodec.option Codec.restores_option_none

theorem Faithful.optional (hcodec : codec.Faithful) : (optional name codec).Faithful := by
  intro member? value hvalue
  have hnullable : (Field.nullable name codec).Faithful := .nullable hcodec
  exact (restores_optional_iff value).2 (hnullable member? value hvalue)

end Field

namespace Fields

variable {σ τ : Type}

/-- Every value that a field can have comes back, whichever field it is. -/
def Faithful {σ τ : Type} : Fields σ τ → Prop
  | .nil => True
  | .cons field rest => field.Faithful ∧ rest.Faithful

theorem Obtained.restores {fields : Fields σ τ} (hfields : fields.Faithful) {values : τ}
    (hvalues : fields.Obtained values) : fields.Restores values := by
  induction fields with
  | nil => trivial
  | cons field rest ih =>
      obtain ⟨⟨member?, hvalue⟩, hothers⟩ := hvalues
      exact ⟨hfields.1 member? values.1 hvalue, ih hfields.2 hothers⟩

end Fields

namespace Codec

section Structures

variable {α σ τ : Type} {name : String} {fields : Fields σ τ} {make : τ → α} {parts : α → τ}

/-- The members that a structure has as JSON are what its fields are written as. -/
theorem member?_toJson_record (hnames : fields.names.Nodup) (value : α) (member : String) :
    ((record name fields make parts).toJson value).member? member =
      ((fields.encode (parts value)).lookup member).map Json.normal := by
  change (Json.object (fields.encode (parts value))).normal.member? member = _
  rw [Json.member?_normal, Json.member?_object,
    lookup_reverse_of_nodup (hnames.sublist (fields.names_encode_sublist (parts value)))]

/-- It has no member that none of its fields is named like. -/
theorem member?_toJson_record_of_not_mem (hnames : fields.names.Nodup) (value : α)
    {member : String} (hmember : member ∉ fields.names) :
    ((record name fields make parts).toJson value).member? member = none := by
  rw [member?_toJson_record hnames, Fields.lookup_encode_of_not_mem hmember, Option.map_none]

/-- A structure comes back exactly if all its fields do. It is written with every name once, so the
first member of a name is also the last. -/
theorem restores_record_iff (hnames : fields.names.Nodup)
    (hmake : ∀ value, make (parts value) = value)
    (hparts : ∀ values, parts (make values) = values) (value : α) :
    (record name fields make parts).Restores value ↔ fields.Restores (parts value) := by
  have hlast : ∀ name, (fields.encode (parts value)).reverse.lookup name =
      (fields.encode (parts value)).lookup name :=
    lookup_reverse_of_nodup (hnames.sublist (fields.names_encode_sublist (parts value)))
  have hdecode : (record name fields make parts).Restores value ↔ _ :=
    record_ofJson_object_iff hnames
  simp only [hlast] at hdecode
  rw [← Fields.reads_encode_iff hnames]
  refine hdecode.trans ⟨?_, fun hreads => ⟨_, hreads, hmake value⟩⟩
  rintro ⟨values, hreads, rfl⟩
  rwa [hparts] at hreads ⊢

/-- A structure is faithful if its fields are. -/
theorem faithful_record (hnames : fields.names.Nodup) (hmake : ∀ value, make (parts value) = value)
    (hparts : ∀ values, parts (make values) = values) (hfields : fields.Faithful) :
    (record name fields make parts).Faithful where
  restores json value hvalue := by
    obtain ⟨values, hvalues, rfl⟩ := obtained_of_record_decode hnames hvalue
    rw [restores_record_iff hnames hmake hparts, hparts]
    exact hvalues.restores hfields
  keepsNull json value hvalue hnull := by
    rw [record, Json.normal_object] at hnull
    cases hnull

end Structures

section Untagged

variable {α β : Type} {codec : Codec α} {name : String} {encode : β → Json} {text : String → β}
  {other : α → β} {words : String}

theorem encode_untagged (alternatives : List (Json → Option β)) (value : β) :
    (untagged name encode alternatives).encode value = encode value := rfl

theorem decode_untagged_eq_ok_iff {alternatives : List (Json → Option β)} {json : Json}
    {value : β} :
    (untagged name encode alternatives).decode json = .ok value ↔
      alternatives.findSome? (fun attempt => attempt json) = some value := by
  cases hfound : alternatives.findSome? (fun attempt => attempt json) <;>
    simp [untagged, hfound, pure, Except.pure, throw, throwThe, MonadExceptOf.throw]

theorem alternative_of_ok {json : Json} {value : α} (hvalue : codec.decode json = .ok value) :
    alternative codec other json = some (other value) := by
  rw [alternative, hvalue]

theorem alternative_eq_some_iff {json : Json} {value : β} :
    alternative codec other json = some value ↔
      ∃ held, codec.decode json = .ok held ∧ other held = value := by
  unfold alternative
  cases codec.decode json <;> simp

theorem alternative_string_of_solid {json : Json} (hsolid : ∀ words, json ≠ .string words) :
    alternative string text json = none := by
  cases json with
  | string words => exact absurd rfl (hsolid words)
  | _ => rfl

/-- Texts, or else the values of a codec that writes no texts: what each is written as fits its own
alternative first. -/
theorem restores_untagged_text (htext : encode (text words) = .string words)
    (others : List (Json → Option β)) :
    (untagged name encode (alternative string text :: others)).Restores (text words) := by
  rw [Restores, encode_untagged, htext, decode_untagged_eq_ok_iff]
  rfl

theorem restores_untagged_other {value : α} (hvalue : codec.Restores value)
    (hother : encode (other value) = codec.encode value)
    (hsolid : ∀ words, (codec.encode value).normal ≠ .string words)
    (others : List (Json → Option β)) :
    (untagged name encode (alternative string text :: alternative codec other :: others)).Restores
      (other value) := by
  rw [Restores, encode_untagged, hother, decode_untagged_eq_ok_iff, List.findSome?_cons,
    alternative_string_of_solid hsolid, List.findSome?_cons, alternative_of_ok hvalue]

/-- What is written by one alternative is not read by another, even where it does not come back. -/
theorem other_of_untagged {value : α} {found : β}
    (hother : encode (other value) = codec.encode value)
    (hsolid : ∀ words, (codec.encode value).normal ≠ .string words)
    (hfound : (untagged name encode [alternative string text, alternative codec other]).decode
      (encode (other value)).normal = .ok found) : ∃ same, found = other same := by
  rw [hother, decode_untagged_eq_ok_iff, List.findSome?_cons, alternative_string_of_solid hsolid,
    List.findSome?_singleton] at hfound
  obtain ⟨same, -, hsame⟩ := alternative_eq_some_iff.1 hfound
  exact ⟨same, hsame.symm⟩

/-- An untagged type of texts and of values that are never written as texts. -/
theorem faithful_textOr (hcodec : codec.Faithful)
    (hsolid : ∀ value, (codec.encode value).normal ≠ .null ∧
      ∀ words, (codec.encode value).normal ≠ .string words)
    (htext : ∀ words, encode (text words) = .string words)
    (hother : ∀ value, encode (other value) = codec.encode value) :
    (untagged name encode [alternative string text, alternative codec other]).Faithful := by
  have hfrom : ∀ json value,
      (untagged name encode [alternative string text, alternative codec other]).decode json =
        .ok value →
      (∃ words, text words = value) ∨ ∃ held, codec.Restores held ∧ other held = value := by
    intro json value hvalue
    rw [decode_untagged_eq_ok_iff, List.findSome?_cons] at hvalue
    cases hwords : alternative string text json with
    | some found =>
        obtain ⟨words, -, hfound⟩ := alternative_eq_some_iff.1 hwords
        rw [hwords] at hvalue
        exact Or.inl ⟨words, hfound.trans (Option.some.inj hvalue)⟩
    | none =>
        rw [hwords, List.findSome?_singleton] at hvalue
        obtain ⟨held, hheld, hsame⟩ := alternative_eq_some_iff.1 hvalue
        exact Or.inr ⟨held, hcodec.restores json held hheld, hsame⟩
  constructor
  · intro json value hvalue
    rcases hfrom json value hvalue with ⟨words, rfl⟩ | ⟨held, hheld, rfl⟩
    · exact restores_untagged_text (htext words) _
    · exact restores_untagged_other hheld (hother held) (hsolid held).2 _
  · intro json value hvalue hnull
    rcases hfrom json value hvalue with ⟨words, rfl⟩ | ⟨held, -, rfl⟩
    · simp [untagged, htext, Json.normal] at hnull
    · exact absurd ((congrArg Json.normal (hother held)).symm.trans hnull) (hsolid held).1

end Untagged

end Codec

end StackBridge
