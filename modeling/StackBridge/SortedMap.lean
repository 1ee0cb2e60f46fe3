/-
Finite maps from text to values. The entries of a map stand in ascending order of their keys, each
key once, so two maps with the same entries are the same value and printing one walks it in order.
-/
namespace StackBridge

universe u v w

/-- A finite map, kept as its entries in strictly ascending order of key. Text is compared by code
point, which is also the order of its UTF-8 bytes. -/
structure SortedMap (α : Type u) where
  entries : List (String × α)
  ascending : entries.Pairwise (fun left right => left.1 < right.1)
deriving DecidableEq, Repr

/-- Put one entry into an ascending list: a new key goes to its place, a present key takes the new
value. -/
def insertEntry {α : Type u} (key : String) (value : α) :
    List (String × α) → List (String × α)
  | [] => [(key, value)]
  | entry :: rest =>
      if key < entry.1 then (key, value) :: entry :: rest
      else if entry.1 < key then entry :: insertEntry key value rest
      else (key, value) :: rest

/-- Insert a list of entries one by one, so the last entry of a key is the one that stays. -/
def insertEntries {α : Type u} (entries : List (String × α)) : List (String × α) :=
  entries.foldl (fun sorted entry => insertEntry entry.1 entry.2 sorted) []

theorem eq_of_not_lt_of_not_lt {left right : String} (hleft : ¬ left < right)
    (hright : ¬ right < left) : left = right :=
  String.le_antisymm (String.not_lt.1 hright) (String.not_lt.1 hleft)

theorem mem_insertEntry {α : Type u} {key : String} {value : α} {entries : List (String × α)}
    {entry : String × α} (hmem : entry ∈ insertEntry key value entries) :
    entry = (key, value) ∨ entry ∈ entries := by
  induction entries with
  | nil => simpa [insertEntry] using hmem
  | cons head rest ih =>
      unfold insertEntry at hmem
      split at hmem
      · simpa using hmem
      · split at hmem
        · rcases List.mem_cons.1 hmem with rfl | hrest
          · simp
          · rcases ih hrest with rfl | hold
            · simp
            · simp [hold]
        · rcases List.mem_cons.1 hmem with rfl | hrest
          · simp
          · simp [hrest]

/-- Inserting keeps a list ascending. -/
theorem pairwise_insertEntry {α : Type u} (key : String) (value : α)
    {entries : List (String × α)}
    (hsorted : entries.Pairwise (fun left right => left.1 < right.1)) :
    (insertEntry key value entries).Pairwise (fun left right => left.1 < right.1) := by
  induction entries with
  | nil => simp [insertEntry]
  | cons head rest ih =>
      rw [List.pairwise_cons] at hsorted
      unfold insertEntry
      split
      case isTrue hlt =>
        rw [List.pairwise_cons]
        refine ⟨fun entry hentry => ?_, List.pairwise_cons.2 hsorted⟩
        rcases List.mem_cons.1 hentry with rfl | hrest
        · exact hlt
        · exact String.lt_trans hlt (hsorted.1 entry hrest)
      case isFalse hnot =>
        split
        case isTrue hlt =>
          rw [List.pairwise_cons]
          refine ⟨fun entry hentry => ?_, ih hsorted.2⟩
          rcases mem_insertEntry hentry with rfl | hold
          · exact hlt
          · exact hsorted.1 entry hold
        case isFalse hnot' =>
          have heq : key = head.1 := eq_of_not_lt_of_not_lt hnot hnot'
          rw [List.pairwise_cons]
          exact ⟨fun entry hentry => heq ▸ hsorted.1 entry hentry, hsorted.2⟩

theorem pairwise_foldl_insertEntry {α : Type u} (entries sorted : List (String × α))
    (hsorted : sorted.Pairwise (fun left right => left.1 < right.1)) :
    (entries.foldl (fun sorted entry => insertEntry entry.1 entry.2 sorted) sorted).Pairwise
      (fun left right => left.1 < right.1) := by
  induction entries generalizing sorted with
  | nil => exact hsorted
  | cons entry rest ih => exact ih _ (pairwise_insertEntry entry.1 entry.2 hsorted)

namespace SortedMap

variable {α : Type u} {β : Type v}

def empty : SortedMap α := ⟨[], List.Pairwise.nil⟩

instance : Inhabited (SortedMap α) := ⟨empty⟩

def insert (map : SortedMap α) (key : String) (value : α) : SortedMap α :=
  ⟨insertEntry key value map.entries, pairwise_insertEntry key value map.ascending⟩

def erase (map : SortedMap α) (key : String) : SortedMap α :=
  ⟨map.entries.filter (fun entry => entry.1 != key), map.ascending.filter _⟩

/-- The map of a list of entries; of two entries with one key the later wins. -/
def ofList (entries : List (String × α)) : SortedMap α :=
  ⟨insertEntries entries, pairwise_foldl_insertEntry entries [] List.Pairwise.nil⟩

def get? (map : SortedMap α) (key : String) : Option α :=
  (map.entries.find? (fun entry => entry.1 == key)).map (·.2)

/-- Change every value and no key. -/
def mapValues (change : α → β) (map : SortedMap α) : SortedMap β :=
  ⟨map.entries.map (fun entry => (entry.1, change entry.2)), by
    rw [List.pairwise_map]
    exact map.ascending⟩

end SortedMap

/-- Change the values of a list of entries from left to right, with a state that is handed on. -/
def mapAccumEntries {σ : Type w} {α : Type u} {β : Type v} (change : σ → α → β × σ) :
    σ → List (String × α) → List (String × β)
  | _, [] => []
  | state, (key, value) :: rest =>
      let (changed, next) := change state value
      (key, changed) :: mapAccumEntries change next rest

/-- Changing values leaves the keys as they are. -/
theorem keys_mapAccumEntries {σ : Type w} {α : Type u} {β : Type v}
    (change : σ → α → β × σ) (state : σ) (entries : List (String × α)) :
    (mapAccumEntries change state entries).map (·.1) = entries.map (·.1) := by
  induction entries generalizing state with
  | nil => rfl
  | cons entry rest ih => simp [mapAccumEntries, ih]

/-- Change every value in the order of the keys, with a state that is handed on. -/
def SortedMap.mapAccum {σ : Type w} {α : Type u} {β : Type v}
    (change : σ → α → β × σ) (state : σ) (map : SortedMap α) : SortedMap β :=
  ⟨mapAccumEntries change state map.entries, by
    have keys : ((mapAccumEntries change state map.entries).map (·.1)).Pairwise (· < ·) := by
      rw [keys_mapAccumEntries, List.pairwise_map]
      exact map.ascending
    rwa [List.pairwise_map] at keys⟩

end StackBridge
