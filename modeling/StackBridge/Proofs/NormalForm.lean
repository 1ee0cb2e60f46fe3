/-
Values in normal form. An object in normal form has its members in ascending order of names, each
name once, so bringing a value into normal form twice is the same as once. For every name it holds
the last member that the object had under it.
-/
import StackBridge.Json.Basic

namespace StackBridge

universe u v

section Entries

variable {α : Type u} {β : Type v}

theorem lookup_cons (name : String) (entry : String × α) (rest : List (String × α)) :
    (entry :: rest).lookup name = if name = entry.1 then some entry.2 else rest.lookup name := by
  rw [List.lookup_cons]
  by_cases hname : name = entry.1
  · rw [beq_iff_eq.2 hname, if_pos hname]
  · rw [beq_eq_false_iff_ne.2 hname, if_neg hname]

/-- Inserting an entry changes the value of its key and of no other. -/
theorem lookup_insertEntry (name key : String) (value : α) (entries : List (String × α)) :
    (insertEntry key value entries).lookup name =
      if name = key then some value else entries.lookup name := by
  induction entries with
  | nil => rw [insertEntry, lookup_cons]
  | cons entry rest ih =>
      unfold insertEntry
      split
      · rw [lookup_cons]
      · split
        case isTrue hlt =>
          rw [lookup_cons, lookup_cons, ih]
          by_cases hname : name = entry.1
          · have hne : name ≠ key := hname ▸ String.ne_of_lt hlt
            rw [if_pos hname, if_neg hne, if_pos hname]
          · rw [if_neg hname, if_neg hname]
        case isFalse hnot hnot' =>
          rw [lookup_cons, lookup_cons, eq_of_not_lt_of_not_lt hnot hnot']
          by_cases hname : name = entry.1
          · rw [if_pos hname, if_pos hname]
          · rw [if_neg hname, if_neg hname, if_neg hname]

/-- Of entries that are inserted one by one the last of each key counts. -/
theorem lookup_foldl_insertEntry (name : String) (entries sorted : List (String × α)) :
    (entries.foldl (fun sorted entry => insertEntry entry.1 entry.2 sorted) sorted).lookup name =
      (entries.reverse.lookup name).or (sorted.lookup name) := by
  induction entries generalizing sorted with
  | nil => rfl
  | cons entry rest ih =>
      rw [List.foldl_cons, ih, lookup_insertEntry, List.reverse_cons, List.lookup_append,
        Option.or_assoc, lookup_cons]
      by_cases hname : name = entry.1
      · rw [if_pos hname, if_pos hname, Option.some_or]
      · rw [if_neg hname, if_neg hname, List.lookup_nil, Option.none_or]

theorem lookup_eq_find? (name : String) (entries : List (String × α)) :
    entries.lookup name = (entries.find? fun entry => entry.1 == name).map (·.2) := by
  induction entries with
  | nil => rfl
  | cons entry rest ih =>
      rw [lookup_cons, ih, List.find?_cons]
      by_cases hname : name = entry.1
      · rw [if_pos hname, beq_iff_eq.2 hname.symm]
        rfl
      · rw [if_neg hname, beq_eq_false_iff_ne.2 (Ne.symm hname)]

theorem lookup_map_values (change : α → β) (name : String) (entries : List (String × α)) :
    (entries.map fun entry => (entry.1, change entry.2)).lookup name =
      (entries.lookup name).map change := by
  induction entries with
  | nil => rfl
  | cons entry rest ih =>
      rw [List.map_cons, lookup_cons, lookup_cons, ih]
      split <;> rfl

/-- Without the entries of one key the others are found as before. -/
theorem lookup_erased (key name : String) (entries : List (String × α)) :
    (entries.filter fun entry => entry.1 != key).lookup name =
      if name = key then none else entries.lookup name := by
  induction entries with
  | nil => simp
  | cons entry rest ih =>
      rw [List.filter_cons, lookup_cons]
      by_cases hkey : entry.1 = key
      · have hgone : ¬ (entry.1 != key) = true := by simp [hkey]
        rw [if_neg hgone, ih, hkey]
        split <;> rfl
      · have hkept : (entry.1 != key) = true := by simp [hkey]
        rw [if_pos hkept, lookup_cons, ih]
        by_cases hname : name = entry.1
        · have hother : name ≠ key := hname ▸ hkey
          rw [if_pos hname, if_pos hname, if_neg hother]
        · rw [if_neg hname, if_neg hname]

theorem lookup_of_not_mem_keys {entries : List (String × α)} {name : String}
    (hname : name ∉ entries.map (·.1)) : entries.lookup name = none := by
  rw [List.lookup_eq_none_iff]
  intro entry hentry
  rw [bne_iff_ne]
  rintro rfl
  exact hname (List.mem_map_of_mem hentry)

theorem isSome_lookup_iff {name : String} {entries : List (String × α)} :
    (entries.lookup name).isSome ↔ name ∈ entries.map (·.1) := by
  induction entries with
  | nil => simp
  | cons entry rest ih =>
      rw [lookup_cons, List.map_cons, List.mem_cons, ← ih]
      by_cases hname : name = entry.1 <;> simp [hname]

/-- Where every key stands once, the entries are those that are found. -/
theorem mem_iff_lookup {entries : List (String × α)} (hkeys : (entries.map (·.1)).Nodup)
    (name : String) (value : α) :
    (name, value) ∈ entries ↔ entries.lookup name = some value := by
  induction entries with
  | nil => simp
  | cons entry rest ih =>
      rw [List.map_cons, List.nodup_cons] at hkeys
      rw [List.mem_cons, lookup_cons, ih hkeys.2, Prod.ext_iff]
      by_cases hname : name = entry.1
      · have hrest : rest.lookup name = none := lookup_of_not_mem_keys (hname ▸ hkeys.1)
        simp [hname ▸ hrest, hname, eq_comm]
      · simp [hname]

/-- Where every key stands once, the first entry of a key is also the last. -/
theorem lookup_reverse_of_nodup {entries : List (String × α)}
    (hkeys : (entries.map (·.1)).Nodup) (name : String) :
    entries.reverse.lookup name = entries.lookup name := by
  induction entries with
  | nil => rfl
  | cons entry rest ih =>
      rw [List.map_cons, List.nodup_cons] at hkeys
      rw [List.reverse_cons, List.lookup_append, ih hkeys.2, lookup_cons, lookup_cons,
        List.lookup_nil]
      by_cases hname : name = entry.1
      · have hrest : rest.lookup name = none := lookup_of_not_mem_keys (hname ▸ hkeys.1)
        rw [if_pos hname, if_pos hname, hrest, Option.none_or]
      · rw [if_neg hname, if_neg hname, Option.or_none]

/-- Of several entries with one key the last counts. -/
theorem lookup_insertEntries (name : String) (entries : List (String × α)) :
    (insertEntries entries).lookup name = entries.reverse.lookup name := by
  rw [insertEntries, lookup_foldl_insertEntry, List.lookup_nil, Option.or_none]

theorem mem_insertEntries {entries : List (String × α)} {entry : String × α}
    (hentry : entry ∈ insertEntries entries) : entry ∈ entries := by
  have hfold : ∀ (rest sorted : List (String × α)),
      entry ∈ rest.foldl (fun sorted entry => insertEntry entry.1 entry.2 sorted) sorted →
        entry ∈ rest ∨ entry ∈ sorted := by
    intro rest
    induction rest with
    | nil => exact fun sorted hmem => Or.inr hmem
    | cons head rest ih =>
        intro sorted hmem
        rcases ih _ hmem with hrest | hsorted
        · exact Or.inl (List.mem_cons_of_mem _ hrest)
        · rcases mem_insertEntry hsorted with rfl | hold
          · exact Or.inl List.mem_cons_self
          · exact Or.inr hold
  simpa using hfold entries [] hentry

theorem ascending_insertEntries (entries : List (String × α)) :
    (insertEntries entries).Pairwise (fun left right => left.1 < right.1) :=
  pairwise_foldl_insertEntry entries [] List.Pairwise.nil

theorem nodup_keys_insertEntries (entries : List (String × α)) :
    ((insertEntries entries).map (·.1)).Nodup := by
  rw [List.Nodup, List.pairwise_map]
  exact (ascending_insertEntries entries).imp fun hlt => String.ne_of_lt hlt

theorem insertEntry_insertEntry (key : String) (value : α)
    (entries : List (String × α)) :
    insertEntry key value (insertEntry key value entries) = insertEntry key value entries := by
  induction entries with
  | nil => simp [insertEntry]
  | cons entry rest ih =>
      by_cases hbefore : key < entry.1
      · simp [insertEntry, hbefore]
      · by_cases hbehind : entry.1 < key
        · simp [insertEntry, hbefore, hbehind, ih]
        · simp [insertEntry, hbefore, hbehind]

theorem keys_insertEntry {key : String} {entries : List (String × α)}
    (hsorted : entries.Pairwise (fun left right => left.1 < right.1))
    (hkey : key ∈ entries.map (·.1)) (value : α) :
    (insertEntry key value entries).map (·.1) = entries.map (·.1) := by
  induction entries with
  | nil => simp at hkey
  | cons entry rest ih =>
      rw [List.pairwise_cons] at hsorted
      rw [List.map_cons, List.mem_cons] at hkey
      unfold insertEntry
      split
      case isTrue hlt =>
        rcases hkey with rfl | hrest
        · exact absurd hlt (String.lt_irrefl _)
        · obtain ⟨other, hother, rfl⟩ := List.mem_map.1 hrest
          exact absurd (hsorted.1 other hother) (String.lt_asymm hlt)
      case isFalse hnot =>
        split
        case isTrue hlt =>
          have hrest : key ∈ rest.map (·.1) :=
            hkey.resolve_left fun hsame => String.lt_irrefl _ (hsame ▸ hlt)
          rw [List.map_cons, List.map_cons, ih hsorted.2 hrest]
        case isFalse hnot' => rw [List.map_cons, List.map_cons, eq_of_not_lt_of_not_lt hnot hnot']

theorem insertEntry_of_all_lt {key : String} {entries : List (String × α)}
    (hlt : ∀ entry ∈ entries, entry.1 < key) (value : α) :
    insertEntry key value entries = entries ++ [(key, value)] := by
  induction entries with
  | nil => rfl
  | cons entry rest ih =>
      rw [List.forall_mem_cons] at hlt
      have hnot : ¬ key < entry.1 := String.lt_asymm hlt.1
      rw [insertEntry, if_neg hnot, if_pos hlt.1, ih hlt.2]
      rfl

/-- Entries that ascend are inserted in their order. -/
theorem foldl_insertEntry_of_ascending (entries sorted : List (String × α))
    (hsorted : (sorted ++ entries).Pairwise (fun left right => left.1 < right.1)) :
    entries.foldl (fun sorted entry => insertEntry entry.1 entry.2 sorted) sorted =
      sorted ++ entries := by
  induction entries generalizing sorted with
  | nil => simp
  | cons entry rest ih =>
      have hlt : ∀ held ∈ sorted, held.1 < entry.1 := by
        intro held hheld
        exact (List.pairwise_append.1 hsorted).2.2 held hheld entry List.mem_cons_self
      rw [List.foldl_cons, insertEntry_of_all_lt hlt, ih]
      · simp
      · simpa using hsorted

/-- Entries that ascend stay as they are. -/
theorem insertEntries_of_ascending {entries : List (String × α)}
    (hsorted : entries.Pairwise (fun left right => left.1 < right.1)) :
    insertEntries entries = entries :=
  foldl_insertEntry_of_ascending entries [] hsorted

theorem map_insertEntry (change : String → α → β) (key : String) (value : α)
    (entries : List (String × α)) :
    (insertEntry key value entries).map (fun entry => (entry.1, change entry.1 entry.2)) =
      insertEntry key (change key value)
        (entries.map fun entry => (entry.1, change entry.1 entry.2)) := by
  induction entries with
  | nil => rfl
  | cons entry rest ih =>
      simp only [insertEntry, List.map_cons]
      split
      · rfl
      · split
        · rw [List.map_cons, ih]
        · rfl

/-- Changing values and inserting can be done in either order. -/
theorem map_insertEntries (change : String → α → β) (entries : List (String × α)) :
    (insertEntries entries).map (fun entry => (entry.1, change entry.1 entry.2)) =
      insertEntries (entries.map fun entry => (entry.1, change entry.1 entry.2)) := by
  have hfold : ∀ sorted : List (String × α),
      (entries.foldl (fun sorted entry => insertEntry entry.1 entry.2 sorted) sorted).map
          (fun entry => (entry.1, change entry.1 entry.2)) =
        (entries.map fun entry => (entry.1, change entry.1 entry.2)).foldl
          (fun sorted entry => insertEntry entry.1 entry.2 sorted)
          (sorted.map fun entry => (entry.1, change entry.1 entry.2)) := by
    induction entries with
    | nil => exact fun _ => rfl
    | cons entry rest ih =>
        intro sorted
        rw [List.foldl_cons, ih, map_insertEntry]
        rfl
  exact hfold []

end Entries

namespace SortedMap

variable {α : Type u}

theorem eq_of_entries {left right : SortedMap α} (hsame : left.entries = right.entries) :
    left = right := by
  cases left
  cases right
  cases hsame
  rfl

theorem ofList_entries (map : SortedMap α) : ofList map.entries = map :=
  eq_of_entries (insertEntries_of_ascending map.ascending)

/-- The value of a key is that of the entry with the key. -/
theorem get?_eq_lookup (map : SortedMap α) (key : String) :
    map.get? key = map.entries.lookup key := by
  rw [lookup_eq_find?]
  rfl

theorem get?_insert (map : SortedMap α) (key : String) (value : α) (name : String) :
    (map.insert key value).get? name = if name = key then some value else map.get? name := by
  rw [get?_eq_lookup, get?_eq_lookup, insert, lookup_insertEntry]

theorem get?_erase (map : SortedMap α) (key name : String) :
    (map.erase key).get? name = if name = key then none else map.get? name := by
  rw [get?_eq_lookup, get?_eq_lookup, erase, lookup_erased]

theorem get?_ofList_eq_lookup (entries : List (String × α)) (name : String) :
    (ofList entries).get? name = entries.reverse.lookup name := by
  rw [get?_eq_lookup, ofList, lookup_insertEntries]

theorem nodup_keys (map : SortedMap α) : (map.entries.map (·.1)).Nodup := by
  rw [List.Nodup, List.pairwise_map]
  exact map.ascending.imp fun hlt => String.ne_of_lt hlt

theorem lookup_reverse_entries (map : SortedMap α) (name : String) :
    map.entries.reverse.lookup name = map.get? name := by
  rw [get?_eq_lookup, lookup_reverse_of_nodup map.nodup_keys]

/-- Maps in which the same is found under every key are the same. -/
theorem eq_of_get? {left right : SortedMap α} (hsame : ∀ name, left.get? name = right.get? name) :
    left = right := by
  have hnodup : ∀ map : SortedMap α, map.entries.Nodup := fun map =>
    map.ascending.imp fun hlt heq => String.ne_of_lt hlt (congrArg Prod.fst heq)
  have hperm : left.entries.Perm right.entries := by
    rw [List.perm_ext_iff_of_nodup (hnodup left) (hnodup right)]
    rintro ⟨name, value⟩
    rw [mem_iff_lookup left.nodup_keys, mem_iff_lookup right.nodup_keys, ← get?_eq_lookup,
      ← get?_eq_lookup, hsame]
  refine eq_of_entries (hperm.eq_of_pairwise ?_ left.ascending right.ascending)
  intro entry other _ _ hlt hlt'
  exact absurd hlt' (String.lt_asymm hlt)

end SortedMap

namespace Json

theorem normalItems_eq (items : List Json) : normalItems items = items.map normal := by
  induction items with
  | nil => rfl
  | cons item rest ih => rw [normalItems, ih, List.map_cons]

theorem normalMembers_eq (members : List (String × Json)) :
    normalMembers members = members.map fun member => (member.1, member.2.normal) := by
  induction members with
  | nil => rfl
  | cons member rest ih => rw [normalMembers, ih, List.map_cons]

@[simp]
theorem normal_array (items : List Json) : (array items).normal = array (items.map normal) := by
  rw [normal, normalItems_eq]

theorem normal_object (members : List (String × Json)) :
    (object members).normal =
      object (insertEntries (members.map fun member => (member.1, member.2.normal))) := by
  rw [normal, normalMembers_eq]

theorem member?_object (name : String) (members : List (String × Json)) :
    (object members).member? name = members.reverse.lookup name := by
  rw [member?, lookup_eq_find?]

theorem member?_ofMap (map : SortedMap Json) (name : String) :
    (ofMap map).member? name = map.get? name := by
  rw [ofMap, member?_object, SortedMap.lookup_reverse_entries]

/-- The normal form has the members of the value, in normal form. -/
theorem member?_normal (name : String) (json : Json) :
    json.normal.member? name = (json.member? name).map normal := by
  cases json with
  | object members =>
      rw [normal_object, member?_object, member?_object,
        lookup_reverse_of_nodup (nodup_keys_insertEntries _), lookup_insertEntries,
        ← List.map_reverse, lookup_map_values]
  | _ => rfl

mutual

/-- A normal form is its own normal form. -/
theorem normal_normal : (json : Json) → json.normal.normal = json.normal
  | .null | .bool _ | .number _ | .string _ => rfl
  | .array items => by
      rw [normal_array, normal_array, List.map_map]
      exact congrArg array (normal_normal_items items)
  | .object members => by
      rw [normal_object, normal_object, map_insertEntries fun _ => normal,
        insertEntries_of_ascending (ascending_insertEntries _), List.map_map]
      exact congrArg (object ∘ insertEntries) (normal_normal_members members)

theorem normal_normal_items :
    (items : List Json) → items.map (normal ∘ normal) = items.map normal
  | [] => rfl
  | item :: rest => by
      rw [List.map_cons, List.map_cons, normal_normal_items rest, Function.comp, normal_normal item]

theorem normal_normal_members : (members : List (String × Json)) →
    members.map ((fun member => (member.1, member.2.normal)) ∘
        fun member => (member.1, member.2.normal)) =
      members.map fun member => (member.1, member.2.normal)
  | [] => rfl
  | (name, value) :: rest => by
      rw [List.map_cons, List.map_cons, normal_normal_members rest, Function.comp,
        normal_normal value]

end

end Json

end StackBridge
