/-
Reading and writing files. A write that succeeds puts bytes where its path leads: what was written
is read there, and every path that leads elsewhere shows what it showed. What can be read and
written under a path depends only on what stands at it.
-/
import StackBridge.Proofs.PathNames
import StackBridge.Proofs.Records

namespace StackBridge

namespace FileTree

variable {host : Host}

/-- Whether two trees have files at the same paths, with the same bytes at all but one of them. -/
structure DiffersOnlyAt (before after : FileTree host) (key : String) : Prop where
  keys : after.files.entries.map (·.1) = before.files.entries.map (·.1)
  elsewhere : ∀ other, other ≠ key → after.files.get? other = before.files.get? other

variable {before after : FileTree host} {key : String}

/-- New bytes in a file that exists. -/
theorem differsOnlyAt_insert {held : ByteArray} (hheld : before.files.get? key = some held)
    (bytes : ByteArray) : before.DiffersOnlyAt ⟨before.files.insert key bytes⟩ key where
  keys := by
    refine keys_insertEntry before.files.ascending ?_ bytes
    rw [SortedMap.get?_eq_lookup] at hheld
    exact isSome_lookup_iff.1 (by rw [hheld]; rfl)
  elsewhere other hother := by
    rw [SortedMap.get?_eq_lookup, SortedMap.get?_eq_lookup]
    exact (lookup_insertEntry other key bytes before.files.entries).trans (if_neg hother)

theorem DiffersOnlyAt.anyBelow (hdiffers : before.DiffersOnlyAt after key) (path : String) :
    after.anyBelow path = before.anyBelow path := by
  have hany : ∀ entries : List (String × ByteArray),
      entries.any (fun file => (path ++ "/").isPrefixOf file.1) =
        (entries.map (·.1)).any (path ++ "/").isPrefixOf := by
    intro entries
    rw [List.any_map]
    rfl
  rw [FileTree.anyBelow, FileTree.anyBelow, hany, hany, hdiffers.keys]

theorem DiffersOnlyAt.isSome_get? (hdiffers : before.DiffersOnlyAt after key) :
    (after.files.get? key).isSome = (before.files.get? key).isSome := by
  rw [SortedMap.get?_eq_lookup, SortedMap.get?_eq_lookup, Bool.eq_iff_iff, isSome_lookup_iff,
    isSome_lookup_iff, hdiffers.keys]

/-- At every place there is what there was, but for the bytes of the one file. -/
theorem DiffersOnlyAt.entry (hdiffers : before.DiffersOnlyAt after key) (location : Location) :
    after.entry location = before.entry location ∨
      host.pathOf location = key ∧ ∃ held bytes,
        before.entry location = .file held ∧ after.entry location = .file bytes := by
  unfold FileTree.entry
  by_cases habove : location <:+ host.workingDirectory
  · rw [if_pos habove, if_pos habove]
    exact Or.inl rfl
  rw [if_neg habove, if_neg habove, hdiffers.anyBelow]
  by_cases hkey : host.pathOf location = key
  · have hsome := hdiffers.isSome_get?
    rw [hkey]
    cases hbefore : before.files.get? key with
    | none =>
        rw [hbefore, Option.isSome_none, Option.isSome_eq_false_iff,
          Option.isNone_iff_eq_none] at hsome
        rw [hsome]
        exact Or.inl rfl
    | some held =>
        rw [hbefore, Option.isSome_some, Option.isSome_iff_exists] at hsome
        obtain ⟨bytes, hbytes⟩ := hsome
        rw [hbytes]
        exact Or.inr ⟨rfl, held, bytes, rfl, rfl⟩
  · rw [hdiffers.elsewhere _ hkey]
    exact Or.inl rfl

theorem DiffersOnlyAt.pass (hdiffers : before.DiffersOnlyAt after key) (location : Location)
    (name : String) : after.pass location name = before.pass location name := by
  unfold FileTree.pass
  rcases hdiffers.entry location with hsame | ⟨-, held, bytes, hbefore, hafter⟩
  · rw [hsame]
  · rw [hbefore, hafter]

/-- So every path leads where it led. -/
theorem DiffersOnlyAt.locate (hdiffers : before.DiffersOnlyAt after key) (path : String) :
    after.locate path = before.locate path := by
  have hpass : after.pass = before.pass := funext₂ hdiffers.pass
  rw [FileTree.locate, FileTree.locate, FileTree.walk, FileTree.walk, hpass]

/-- Every path that does not lead to the one file shows what it showed. -/
theorem DiffersOnlyAt.read (hdiffers : before.DiffersOnlyAt after key) {path : String}
    (hpath : ∀ location, before.locate path = .ok location → host.pathOf location ≠ key) :
    after.read path = before.read path := by
  rw [FileTree.read, FileTree.read, hdiffers.locate]
  cases hlocation : before.locate path with
  | error fault => rfl
  | ok location =>
      simp only [bind, Except.bind]
      rcases hdiffers.entry location with hsame | ⟨hkey, -⟩
      · rw [hsame]
      · exact absurd hkey (hpath location hlocation)

/-- What is found at a path. -/
def shown (tree : FileTree host) (path : String) : Except FileFault Entry :=
  (tree.locate path).map tree.entry

variable {tree other : FileTree host} {path : String} {location : Location} {held bytes : ByteArray}

theorem shown_eq_ok_iff {found : Entry} : tree.shown path = .ok found ↔
    ∃ location, tree.locate path = .ok location ∧ tree.entry location = found := by
  rw [shown]
  cases tree.locate path <;> simp [Except.map]

theorem exists?_eq_shown : tree.exists? path =
    match tree.shown path with
    | .ok .absent => false
    | .ok _ => true
    | .error _ => false := by
  rw [FileTree.exists?, shown]
  cases hlocate : tree.locate path with
  | error fault => rfl
  | ok location => cases hentry : tree.entry location <;> simp [Except.map, hentry]

/-- Two trees that show the same at a path have it at the same place, since a path leads nowhere but
where its names lead. -/
theorem locate_of_shown (hshown : tree.shown path = other.shown path)
    (hlocate : tree.locate path = .ok location) :
    other.locate path = .ok location ∧ tree.entry location = other.entry location := by
  obtain ⟨place, hplace, hentry⟩ :=
    shown_eq_ok_iff.1 (hshown.symm.trans (shown_eq_ok_iff.2 ⟨location, hlocate, rfl⟩))
  cases (locate_eq_ok hplace).trans (locate_eq_ok hlocate).symm
  exact ⟨hplace, hentry.symm⟩

theorem read_of_shown (hshown : tree.shown path = other.shown path) :
    tree.read path = other.read path := by
  cases hlocate : tree.locate path with
  | ok location =>
      obtain ⟨hother, hentry⟩ := locate_of_shown hshown hlocate
      rw [FileTree.read, FileTree.read, hlocate, hother]
      simp only [bind, Except.bind, hentry]
  | error fault =>
      rw [shown, shown, hlocate] at hshown
      rw [FileTree.read, FileTree.read, hlocate]
      cases hother : other.locate path with
      | ok location =>
          rw [hother] at hshown
          cases hshown
      | error found =>
          rw [hother] at hshown
          cases hshown
          rfl

/-- A file is read where its path leads to one that may be read. -/
theorem read_eq_ok_iff : tree.read path = .ok bytes ↔ ∃ location,
    tree.locate path = .ok location ∧ tree.entry location = .file bytes ∧
      host.fault? .read location = none := by
  rw [FileTree.read]
  cases tree.locate path with
  | error fault => simp [bind, Except.bind]
  | ok location =>
      simp only [bind, Except.bind, Except.ok.injEq, exists_eq_left']
      cases tree.entry location <;> cases host.fault? .read location <;>
        simp [pure, Except.pure, throw, throwThe, MonadExceptOf.throw]

theorem shown_of_read (hread : tree.read path = .ok bytes) :
    tree.shown path = .ok (.file bytes) := by
  obtain ⟨location, hlocate, hentry, -⟩ := read_eq_ok_iff.1 hread
  exact shown_eq_ok_iff.2 ⟨location, hlocate, hentry⟩

theorem get?_of_entry (hentry : tree.entry location = .file bytes) :
    ¬ location <:+ host.workingDirectory ∧
      tree.files.get? (host.pathOf location) = some bytes := by
  unfold FileTree.entry at hentry
  split at hentry
  case isTrue => cases hentry
  case isFalse habove =>
    refine ⟨habove, ?_⟩
    cases hheld : tree.files.get? (host.pathOf location) with
    | some held =>
        rw [hheld] at hentry
        exact congrArg some (Entry.file.inj hentry)
    | none =>
        rw [hheld] at hentry
        simp only at hentry
        split at hentry <;> cases hentry

theorem entry_root (tree : FileTree host) : tree.entry [] = .directory :=
  if_pos (List.nil_suffix)

/-- There is a directory where a file is below. -/
theorem entry_of_anyBelow (hfile : tree.files.get? (host.pathOf location) = none)
    (hbelow : tree.anyBelow (host.pathOf location) = true) : tree.entry location = .directory := by
  rw [FileTree.entry, hfile]
  simp only [hbelow, if_true, ite_self]

/-- A path that does not end with a slash has none to take off. -/
theorem withoutSlashes_eq (hslash : path.toList.getLast? ≠ some '/') :
    String.ofList (path.toList.reverse.dropWhile (· = '/')).reverse = path := by
  have hkeep : path.toList.reverse.dropWhile (· = '/') = path.toList.reverse := by
    rw [List.getLast?_eq_head?_reverse] at hslash
    cases hchars : path.toList.reverse with
    | nil => rfl
    | cons last rest =>
        rw [hchars, List.head?_cons, ne_eq, Option.some.injEq] at hslash
        rw [List.dropWhile_cons_of_neg (by simpa using hslash)]
  rw [hkeep, List.reverse_reverse, String.ofList_toList]

/-- A file is written where its path leads, if no directory is there and it may be written. -/
theorem write_eq_ok_iff {written : FileTree host} :
    tree.write path bytes = .ok written ↔ path.toList.getLast? ≠ some '/' ∧
      ∃ location, tree.locate path = .ok location ∧ tree.entry location ≠ .directory ∧
        host.fault? .write location = none ∧
        written = ⟨tree.files.insert (host.pathOf location) bytes⟩ := by
  unfold FileTree.write
  by_cases hslash : path.toList.getLast? = some '/'
  · simp only [if_pos hslash]
    cases tree.locate (String.ofList (path.toList.reverse.dropWhile (· = '/')).reverse) <;>
      simp [hslash, bind, Except.bind, throw, throwThe, MonadExceptOf.throw]
  · simp only [if_neg hslash, withoutSlashes_eq hslash]
    cases tree.locate path with
    | error fault => simp [bind, Except.bind]
    | ok location =>
        simp only [bind, Except.bind, hslash, not_false_eq_true, ne_eq, true_and,
          Except.ok.injEq, exists_eq_left']
        cases tree.entry location <;> cases host.fault? .write location <;>
          simp [pure, Except.pure, throw, throwThe, MonadExceptOf.throw, eq_comm]

/-- A file that is there is written unless the machine refuses it. -/
theorem write_of_entry (hslash : path.toList.getLast? ≠ some '/')
    (hlocate : tree.locate path = .ok location) (hentry : tree.entry location = .file held)
    (bytes : ByteArray) : tree.write path bytes =
      match host.fault? .write location with
      | some fault => .error fault
      | none => .ok ⟨tree.files.insert (host.pathOf location) bytes⟩ := by
  rw [FileTree.write, withoutSlashes_eq hslash, hlocate]
  simp only [bind, Except.bind, if_neg hslash, hentry]
  cases host.fault? .write location <;> rfl

theorem entry_insert (habove : ¬ location <:+ host.workingDirectory) (files : SortedMap ByteArray)
    (bytes : ByteArray) :
    (⟨files.insert (host.pathOf location) bytes⟩ : FileTree host).entry location = .file bytes := by
  have hnew : (files.insert (host.pathOf location) bytes).get? (host.pathOf location) =
      some bytes := by
    rw [SortedMap.get?_eq_lookup]
    exact (lookup_insertEntry _ _ bytes files.entries).trans (if_pos rfl)
  rw [FileTree.entry, if_neg habove, hnew]

/-- What was written is read, and writing it again changes nothing. -/
theorem read_of_write (hread : before.read path = .ok held)
    (hwrite : before.write path bytes = .ok after) :
    after.read path = .ok bytes ∧ after.write path bytes = .ok after := by
  obtain ⟨location, hlocation, hheld, hreads⟩ := read_eq_ok_iff.1 hread
  obtain ⟨hslash, target, htarget, -, hwrites, rfl⟩ := write_eq_ok_iff.1 hwrite
  cases hlocation.symm.trans htarget
  obtain ⟨habove, hfound⟩ := get?_of_entry hheld
  have hafter := ((differsOnlyAt_insert hfound bytes).locate path).trans hlocation
  have hentry := entry_insert habove before.files bytes
  have hagain : before.files.insert (host.pathOf location) bytes =
      (before.files.insert (host.pathOf location) bytes).insert (host.pathOf location) bytes :=
    SortedMap.eq_of_entries (insertEntry_insertEntry _ _ _).symm
  exact ⟨read_eq_ok_iff.2 ⟨location, hafter, hentry, hreads⟩,
    write_eq_ok_iff.2 ⟨hslash, location, hafter, by rw [hentry]; nofun, hwrites,
      congrArg FileTree.mk hagain⟩⟩

/-- Writing to a file that can be read goes as it goes in any other tree that shows the same. -/
theorem write_of_shown (hshown : tree.shown path = other.shown path)
    (hread : tree.read path = .ok held) (hslash : path.toList.getLast? ≠ some '/')
    (bytes : ByteArray) :
    (∃ fault, tree.write path bytes = .error fault ∧ other.write path bytes = .error fault) ∨
    ∃ after otherAfter, tree.write path bytes = .ok after ∧
      other.write path bytes = .ok otherAfter ∧ after.shown path = otherAfter.shown path := by
  have hother : other.read path = .ok held := (read_of_shown hshown).symm.trans hread
  obtain ⟨location, hlocate, hentry, -⟩ := read_eq_ok_iff.1 hread
  obtain ⟨hotherLocate, hsame⟩ := locate_of_shown hshown hlocate
  have hwrite := write_of_entry hslash hlocate hentry bytes
  have hotherWrite := write_of_entry hslash hotherLocate (hsame.symm.trans hentry) bytes
  cases hfault : host.fault? .write location with
  | some fault =>
      rw [hfault] at hwrite hotherWrite
      exact Or.inl ⟨fault, hwrite, hotherWrite⟩
  | none =>
      rw [hfault] at hwrite hotherWrite
      refine Or.inr ⟨_, _, hwrite, hotherWrite, ?_⟩
      rw [shown_of_read (read_of_write hread hwrite).1,
        shown_of_read (read_of_write hother hotherWrite).1]

end FileTree

end StackBridge
