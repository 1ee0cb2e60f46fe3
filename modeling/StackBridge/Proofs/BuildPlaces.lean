/-
Where the file of a build is, and that a run has to do with no other. A run that configures a build
sees and changes only what stands at one path. A build name is not checked, so the path lies below
the directory of the API unless the name is a path from the root, which then stands for itself, or
climbs out of the directory.
-/
import StackBridge.Proofs.Atomicity
import StackBridge.Proofs.PathNames
import StackBridge.Proofs.Reload

namespace StackBridge

theorem startsWith_iff {text beginning : String} :
    text.startsWith beginning = true ↔ ∃ rest, text = beginning ++ rest := by
  rw [String.startsWith_string_iff]
  constructor
  · rintro ⟨rest, hrest⟩
    exact ⟨String.ofList rest, by rw [← String.toList_inj]; simp [hrest]⟩
  · rintro ⟨rest, rfl⟩
    exact ⟨rest.toList, by simp⟩

theorem endsWith_iff {text ending : String} :
    text.endsWith ending = true ↔ ∃ stem, text = stem ++ ending := by
  have hchars : text.endsWith ending = true ↔ ending.toList <:+ text.toList := by
    simpa using @String.Slice.endsWith_string_iff ending text.toSlice
  rw [hchars]
  constructor
  · rintro ⟨stem, hstem⟩
    exact ⟨String.ofList stem, by rw [← String.toList_inj]; simp [hstem]⟩
  · rintro ⟨stem, rfl⟩
    exact ⟨stem.toList, by simp⟩

namespace Build

open FileTree

variable {host : Host} {files other : FileTree host} {path : String} {held : ByteArray}

/-- Whether acting on the files has to do with one path alone: of two trees it sees only what stands
there, and at most the file that is there changes. -/
structure ConcernsOnly {α : Type} (path : String) (act : FileTree host → α × FileTree host) :
    Prop where
  sees : ∀ files other : FileTree host, files.shown path = other.shown path →
    (act files).1 = (act other).1 ∧ (act files).2.shown path = (act other).2.shown path
  changes : ∀ files, (act files).2 ≠ files → ChangesOnly files (act files).2 path

theorem load_of_shown (hshown : files.shown path = other.shown path) :
    Package.load files path = Package.load other path := by
  rw [Package.load, Package.load, read_of_shown hshown]

/-- Saving to a file that can be read goes as it goes in any other tree that shows the same. -/
theorem save_of_shown (hshown : files.shown path = other.shown path)
    (hread : files.read path = .ok held) (hslash : path.toList.getLast? ≠ some '/')
    (package : Package) :
    (∃ failure, package.save files path = .error failure ∧
      package.save other path = .error failure) ∨
    ∃ after otherAfter, package.save files path = .ok after ∧
      package.save other path = .ok otherAfter ∧ after.shown path = otherAfter.shown path := by
  cases hbytes : package.bytes with
  | error failure =>
      exact Or.inl ⟨failure, save_of_unprintable files path hbytes,
        save_of_unprintable other path hbytes⟩
  | ok bytes =>
      rw [save_of_bytes files path hbytes, save_of_bytes other path hbytes]
      rcases write_of_shown hshown hread hslash bytes with
        ⟨fault, hwrite, hother⟩ | ⟨after, otherAfter, hwrite, hother, hafter⟩
      · exact Or.inl ⟨.file fault, by rw [hwrite]; rfl, by rw [hother]; rfl⟩
      · exact Or.inr ⟨after, otherAfter, by rw [hwrite]; rfl, by rw [hother]; rfl, hafter⟩

/-- So does configuring a build, by whatever means. -/
theorem configure_of_shown {σ : Type} (configurator : Configurator σ) (state : σ)
    (hshown : files.shown path = other.shown path) (hslash : path.toList.getLast? ≠ some '/') :
    let left := configure configurator files path state
    let right := configure configurator other path state
    left.outcome = right.outcome ∧ left.state = right.state ∧
      left.files.shown path = right.files.shown path := by
  intro left right
  have hload := load_of_shown hshown
  cases hheld : Package.load files path with
  | error failure =>
      rw [hheld] at hload
      simpa only [left, right, configure, hheld, ← hload, true_and] using hshown
  | ok package =>
      rw [hheld] at hload
      obtain ⟨held, hread⟩ := read_of_load hheld
      rcases hchange : configurator state package.providers with ⟨failure | providers, next⟩
      · simpa only [left, right, configure, hheld, ← hload, hchange, true_and] using hshown
      · rcases save_of_shown hshown hread hslash { package with providers } with
          ⟨failure, hleft, hright⟩ | ⟨after, otherAfter, hleft, hright, hafter⟩
        · simpa only [left, right, configure, hheld, ← hload, hchange, hleft, hright,
            true_and] using hshown
        · simpa only [left, right, configure, hheld, ← hload, hchange, hleft, hright,
            true_and] using hafter

theorem exists_joinPath_eq (base path : String) : ∃ front, joinPath base path = front ++ path := by
  unfold joinPath
  split
  case isTrue => exact ⟨"", by simp⟩
  case isFalse =>
    split
    case isTrue => exact ⟨base, rfl⟩
    case isFalse => exact ⟨base ++ "/", rfl⟩

theorem exists_buildFileName_eq (buildName : String) :
    ∃ stem, buildFileName buildName = stem ++ buildSuffix := by
  unfold buildFileName
  split
  case isTrue hends => exact endsWith_iff.1 hends
  case isFalse => exact ⟨buildName, rfl⟩

/-- A name that is long enough is a proper one. -/
theorem exists_names_of_ending {ending : String} (hnone : '/' ∉ ending.toList)
    (hlong : 2 < ending.length) (stem : String) :
    ∃ front last, (stem ++ ending).splitOn "/" = front ++ [last] ∧ last ∉ ["", ".", ".."] := by
  obtain ⟨parts, last, hparts⟩ := splitOn_append_of_not_mem stem.toList hnone
  refine ⟨parts.map String.ofList, String.ofList last ++ ending, ?_, ?_⟩
  · rw [splitOn_slash, String.toList_append, hparts]
    simp
  · have hshort : ∀ name ∈ ["", ".", ".."], name.length ≤ 2 := by decide
    intro hmem
    have hlength := hshort _ hmem
    rw [String.length_append] at hlength
    omega

/-- So the names of a build file lead to no place that has been passed before. -/
theorem ne_nil_of_followed_buildFileName {location place : Location} {buildName : String}
    (hfollowed : followed location ((buildFileName buildName).splitOn "/") = some place) :
    place ≠ [] := by
  obtain ⟨stem, hstem⟩ := exists_buildFileName_eq buildName
  obtain ⟨front, last, hnames, hproper⟩ :=
    exists_names_of_ending (show '/' ∉ buildSuffix.toList by decide) (by decide) stem
  rw [hstem, hnames, followed_append] at hfollowed
  obtain ⟨parent, -, hlast⟩ := Option.bind_eq_some_iff.1 hfollowed
  rw [followed_cons, stepped_of_proper hproper] at hlast
  cases hlast
  exact List.cons_ne_nil _ _

/-- A build file has an absolute name exactly if the build has one. -/
theorem startsWith_buildFileName (buildName : String) :
    (buildFileName buildName).startsWith "/" = buildName.startsWith "/" := by
  unfold buildFileName
  split
  case isTrue => rfl
  case isFalse =>
    rw [Bool.eq_iff_iff, String.startsWith_string_iff, String.startsWith_string_iff]
    rcases hchars : buildName.toList with _ | ⟨c, chars⟩ <;> simp [hchars, buildSuffix]

/-- The directory of an API has a name, for it ends with the one of the API. -/
theorem directory_ne_empty (root : String) (api : StackApi) : joinPath root api.name ≠ "" := by
  obtain ⟨front, hfront⟩ := exists_joinPath_eq root api.name
  rw [hfront]
  intro hempty
  cases api <;> simp [StackApi.name] at hempty

theorem endsWith_directory (root : String) (api : StackApi) :
    (joinPath root api.name).endsWith "/" = false := by
  obtain ⟨front, hfront⟩ := exists_joinPath_eq root api.name
  rw [hfront, Bool.eq_false_iff]
  intro hends
  obtain ⟨stem, hstem⟩ := endsWith_iff.1 hends
  have hlast := congrArg (fun text : String => text.toList.getLast?) hstem
  cases api <;> simp [StackApi.name] at hlast

/-- The directory of an API is somewhere below the root, wherever builds are kept. -/
theorem exists_names_directory (root : String) (api : StackApi) :
    ∃ front last, (joinPath root api.name).splitOn "/" = front ++ [last] ∧
      last ∉ ["", ".", ".."] := by
  obtain ⟨stem, hstem⟩ := exists_joinPath_eq root api.name
  rw [hstem]
  refine exists_names_of_ending ?_ ?_ stem
  · cases api <;> decide
  · cases api <;> decide

theorem buildPath_of_root {buildName : String} (hname : buildName.startsWith "/" = true)
    (root : String) (api : StackApi) :
    buildPath root api buildName = buildFileName buildName := by
  rw [buildPath, joinPath, startsWith_buildFileName, hname]
  rfl

theorem buildPath_of_relative {buildName : String} (hname : buildName.startsWith "/" = false)
    (root : String) (api : StackApi) :
    buildPath root api buildName = joinPath root api.name ++ "/" ++ buildFileName buildName := by
  rw [buildPath, joinPath, startsWith_buildFileName, hname, endsWith_directory]
  simp [directory_ne_empty]

/-- The path of a build file does not end with a slash. -/
theorem getLast?_buildPath (root : String) (api : StackApi) (buildName : String) :
    (buildPath root api buildName).toList.getLast? ≠ some '/' := by
  obtain ⟨front, hfront⟩ := exists_joinPath_eq (joinPath root api.name) (buildFileName buildName)
  obtain ⟨stem, hstem⟩ := exists_buildFileName_eq buildName
  rw [buildPath, hfront, hstem]
  simp [buildSuffix]

/-- Whether a path lies below a directory: it begins at the same top, and wherever it leads on a
machine, that is below where the directory is, as it is by the names alone. -/
structure LiesBelow (directory path : String) : Prop where
  sameTop : path.startsWith "/" = directory.startsWith "/"
  located : ∀ {host : Host} (tree : FileTree host) place, tree.locate path = .ok place →
    ∃ base, tree.locate directory = .ok base ∧ Below base place
  spelled : ∀ base, followed [] (directory.splitOn "/") = some base →
    ∃ place, followed [] (path.splitOn "/") = some place ∧ Below base place

/-- Whether a path leads where some names lead from what is above a directory. -/
structure LeadsFromAbove (directory path : String) (names : List String) : Prop where
  sameTop : path.startsWith "/" = directory.startsWith "/"
  located : ∀ {host : Host} (tree : FileTree host) place, tree.locate path = .ok place →
    ∃ last parent, tree.locate directory = .ok (last :: parent) ∧ place = reached parent names
  spelled : ∀ last parent, followed [] (directory.splitOn "/") = some (last :: parent) →
    followed [] (path.splitOn "/") = followed parent names

variable {directory name : String}

/-- A path that goes on from a directory leads where its further names lead from there. -/
theorem exists_locate_of_append (hdirectory : directory ≠ "") {tree : FileTree host}
    {place : Location} (hlocate : tree.locate (directory ++ "/" ++ name) = .ok place) :
    ∃ base, tree.locate directory = .ok base ∧ place = reached base (name.splitOn "/") := by
  rw [locate_append_slash hdirectory] at hlocate
  obtain ⟨base, hbase, hwalk⟩ := bind_eq_ok_iff.1 hlocate
  exact ⟨base, hbase, walk_eq_ok hwalk⟩

theorem followed_append_slash (directory name : String) :
    followed [] ((directory ++ "/" ++ name).splitOn "/") =
      (followed [] (directory.splitOn "/")).bind (followed · (name.splitOn "/")) := by
  rw [splitOn_append_slash, followed_append]

/-- Without a climb the file is below the directory. -/
theorem liesBelow_of_not_climbs {buildName : String} (hdirectory : directory ≠ "")
    (hstays : ¬ Climbs ((buildFileName buildName).splitOn "/")) :
    LiesBelow directory (directory ++ "/" ++ buildFileName buildName) := by
  obtain ⟨below, hbelow⟩ := Option.ne_none_iff_exists'.1 (mt followed_eq_none_iff.1 hstays)
  have hinside : ∀ base, followed base ((buildFileName buildName).splitOn "/") =
      some (below ++ base) := fun base => followed_below hbelow base
  have hproper := ne_nil_of_followed_buildFileName hbelow
  constructor
  case sameTop => exact startsWith_append_slash hdirectory _
  case located =>
    intro host tree place hlocate
    obtain ⟨base, hbase, hplace⟩ := exists_locate_of_append hdirectory hlocate
    rw [reached_of_followed (hinside base)] at hplace
    exact ⟨base, hbase, hplace ▸ below_append hproper base⟩
  case spelled =>
    intro base hbase
    rw [followed_append_slash, hbase, Option.bind_some, hinside]
    exact ⟨_, rfl, below_append hproper base⟩

/-- A climb leads out of the directory and on from the place above it. -/
theorem leadsFromAbove_of_climbs {front back : List String} (root : String) (api : StackApi)
    (hnames : name.splitOn "/" = front ++ ".." :: back) (hfront : followed [] front = some []) :
    LeadsFromAbove (joinPath root api.name) (joinPath root api.name ++ "/" ++ name) back := by
  have hdirectory := directory_ne_empty root api
  constructor
  case sameTop => exact startsWith_append_slash hdirectory _
  case located =>
    intro host tree place hlocate
    obtain ⟨base, hbase, hplace⟩ := exists_locate_of_append hdirectory hlocate
    obtain ⟨above, last, hlast, hproper⟩ := exists_names_directory root api
    have hplaced := locate_eq_ok hbase
    rw [hlast, reached_of_proper hproper] at hplaced
    rw [hplaced] at hbase hplace
    rw [hnames, reached_of_climb hfront] at hplace
    exact ⟨_, _, hbase, hplace⟩
  case spelled =>
    intro last parent hbase
    rw [followed_append_slash, hbase, Option.bind_some, hnames, followed_of_climb hfront]

end Build

namespace Command

open Build FileTree

/-- What a configuration does depends on the file at its path alone. -/
theorem configureAt_concernsOnly {host : Host} {path : String}
    (hslash : path.toList.getLast? ≠ some '/') (input : Bytes) :
    ConcernsOnly path (fun files : FileTree host => configureAt path files input) where
  sees files other hshown := by
    have hexists : files.exists? path = other.exists? path := by
      rw [exists?_eq_shown, exists?_eq_shown, hshown]
    obtain ⟨houtcome, hstate, hafter⟩ :=
      configure_of_shown prompting { unread := input } hshown hslash
    simp only [configureAt, ← hexists]
    split
    case isTrue => exact ⟨by rw [houtcome, hstate], hafter⟩
    case isFalse => exact ⟨rfl, hshown⟩
  changes files hchanged := by
    obtain ⟨ending, -, hbehind, hchanges⟩ := configureAt_ends path files input
    refine hchanges ?_
    by_contra hother
    exact hchanged (hbehind.untouched hother)

/-- A run that configures a build sees and changes only what stands at one path. A name that begins
at the root is that path, but for the ending, wherever builds are kept. Any other name goes on from
the directory of the API: the path lies below it, unless the name climbs, and then the path leads
from what is above the directory to where the rest of the name says. -/
theorem build_name_decides_place {arguments : List String} {environment : Environment}
    {api : StackApi} {buildName root : String}
    (haction : ofArguments arguments = .ok (.configure api buildName))
    (hroot : environment.buildsRoot = .ok root) :
    let directory := joinPath root api.name
    let fileName := buildFileName buildName
    let names := fileName.splitOn "/"
    let path := buildPath root api buildName
    (∀ {host : Host} (files : FileTree host) input,
      run arguments environment files input = configureAt path files input) ∧
    (∀ (host : Host) input,
      ConcernsOnly path fun files : FileTree host => run arguments environment files input) ∧
    ((∃ stem, buildName = stem ++ ".yaml") → fileName = buildName) ∧
    ((¬ ∃ stem, buildName = stem ++ ".yaml") → fileName = buildName ++ ".yaml") ∧
    ((∃ rest, buildName = "/" ++ rest) → path = fileName ∧
      ∀ {host : Host} (tree : FileTree host) place, tree.locate path = .ok place →
        place = reached [] names) ∧
    ((¬ ∃ rest, buildName = "/" ++ rest) →
      path = directory ++ "/" ++ fileName ∧
      (¬ Climbs names → LiesBelow directory path) ∧
      ∀ front back, names = front ++ ".." :: back → followed [] front = some [] →
        LeadsFromAbove directory path back) := by
  intro directory fileName names path
  have hrun : ∀ {host : Host} (files : FileTree host) input,
      run arguments environment files input = configureAt path files input := by
    intro host files input
    simp only [run, haction, Action.run, hroot, path]
  refine ⟨hrun, ?_, ?_, ?_, ?_, ?_⟩
  · intro host input
    simp only [hrun]
    exact configureAt_concernsOnly (getLast?_buildPath root api buildName) input
  · intro hends
    exact if_pos (endsWith_iff.2 hends)
  · intro hends
    exact if_neg (mt endsWith_iff.1 hends)
  · intro hfirst
    have hbegins := startsWith_iff.2 hfirst
    have hpath : path = fileName := buildPath_of_root hbegins root api
    refine ⟨hpath, fun tree place hplace => ?_⟩
    have hstart := (startsWith_buildFileName buildName).trans hbegins
    rw [hpath] at hplace
    rw [locate_eq_ok hplace, Host.startOf, if_pos hstart]
  · intro hfirst
    have hpath : path = directory ++ "/" ++ fileName :=
      buildPath_of_relative (Bool.eq_false_iff.2 (mt startsWith_iff.1 hfirst)) root api
    rw [hpath]
    exact ⟨rfl, liesBelow_of_not_climbs (directory_ne_empty root api),
      fun front back => leadsFromAbove_of_climbs root api⟩

/-- The general statement at a name that goes down and up again, in the directory where builds are
kept by default. -/
theorem detour_stays_below_directory :
    let arguments := ["api", "configure", "memory", "--build-name", "team/../b"]
    let root := "/home/u/.llama/builds"
    let path := "/home/u/.llama/builds/memory/team/../b.yaml"
    ofArguments arguments = .ok (.configure .memory "team/../b") ∧
      homeEnvironment.buildsRoot = .ok root ∧ buildPath root .memory "team/../b" = path ∧
      ConcernsOnly path (fun files : FileTree => run arguments homeEnvironment files []) ∧
      LiesBelow "/home/u/.llama/builds/memory" path := by
  intro arguments root path
  have haction : ofArguments arguments = .ok (.configure .memory "team/../b") := by decide +kernel
  have hroot : homeEnvironment.buildsRoot = .ok root := by decide +kernel
  have hpath : buildPath root .memory "team/../b" = path := by decide +kernel
  have hfile : buildFileName "team/../b" = "team/../b.yaml" := by decide +kernel
  have hdirectory : joinPath root StackApi.memory.name = "/home/u/.llama/builds/memory" := by
    decide +kernel
  have hnames : ("team/../b.yaml".toList.splitOn '/').map String.ofList =
      ["team", "..", "b.yaml"] := by decide
  have hstays : ¬ Climbs ["team", "..", "b.yaml"] := by decide
  have hrelative : ¬ ∃ rest, "team/../b" = "/" ++ rest := by
    rw [← startsWith_iff]
    decide +kernel
  obtain ⟨-, hconcerns, -, -, -, hplace⟩ := build_name_decides_place haction hroot
  obtain ⟨-, hinside, -⟩ := hplace hrelative
  rw [hfile, splitOn_slash, hnames, hpath, hdirectory] at hinside
  rw [hpath] at hconcerns
  exact ⟨haction, hroot, hpath, hconcerns {} [], hinside hstays⟩

/-- A tree with a directory for an API, a build file beside it, and one at the root. -/
def besideTree (atRoot beside : String) : FileTree :=
  ⟨SortedMap.ofList [("/x.yaml", atRoot.toUTF8), ("b/inference/k", ByteArray.empty),
    ("b/x.yaml", beside.toUTF8)]⟩

theorem entries_beside (atRoot beside : String) : (besideTree atRoot beside).files.entries =
    [("/x.yaml", atRoot.toUTF8), ("b/inference/k", ByteArray.empty),
      ("b/x.yaml", beside.toUTF8)] := by
  have hfirst : ¬ "b/inference/k" < "/x.yaml" ∧ "/x.yaml" < "b/inference/k" := by decide
  have hsecond : ¬ "b/x.yaml" < "b/inference/k" ∧ "b/inference/k" < "b/x.yaml" := by decide
  have hthird : ¬ "b/x.yaml" < "/x.yaml" ∧ "/x.yaml" < "b/x.yaml" := by decide
  simp [besideTree, SortedMap.ofList, insertEntries, insertEntry, hfirst, hsecond, hthird]

theorem entry_beside_file (atRoot beside : String) :
    (besideTree atRoot beside).entry ["x.yaml"] = .file atRoot.toUTF8 ∧
      (besideTree atRoot beside).entry ["x.yaml", "b", "work"] = .file beside.toUTF8 := by
  have hpaths : ({} : Host).pathOf ["x.yaml"] = "/x.yaml" ∧
      ({} : Host).pathOf ["x.yaml", "b", "work"] = "b/x.yaml" := by
    decide +kernel
  have habove : ¬ ["x.yaml"] <:+ ["work"] ∧ ¬ ["x.yaml", "b", "work"] <:+ ["work"] := by decide
  simp [FileTree.entry, hpaths, habove, SortedMap.get?_eq_lookup, entries_beside, lookup_cons]

theorem entry_beside_directory (atRoot beside : String) {place : Location}
    (hplace : place = ["b", "work"] ∨ place = ["inference", "b", "work"]) :
    (besideTree atRoot beside).entry place = .directory := by
  have hpath : ({} : Host).pathOf place = "b" ∨ ({} : Host).pathOf place = "b/inference" := by
    rcases hplace with rfl | rfl <;> decide +kernel
  have hfile : (besideTree atRoot beside).files.get? (({} : Host).pathOf place) = none := by
    rcases hpath with hpath | hpath <;>
      simp [hpath, SortedMap.get?_eq_lookup, entries_beside, lookup_cons]
  have hbelow : ∀ path, (besideTree atRoot beside).anyBelow path =
      ["/x.yaml", "b/inference/k", "b/x.yaml"].any (path ++ "/").isPrefixOf := by
    intro path
    simp [anyBelow, entries_beside]
  refine entry_of_anyBelow hfile ((hbelow _).trans ?_)
  rcases hpath with hpath | hpath <;> rw [hpath] <;> decide +kernel

theorem locate_beside (atRoot beside : String) :
    (besideTree atRoot beside).locate "b/inference" = .ok ["inference", "b", "work"] ∧
      (besideTree atRoot beside).locate "b/inference/../x.yaml" = .ok ["x.yaml", "b", "work"] ∧
      (besideTree atRoot beside).locate "/x.yaml" = .ok ["x.yaml"] := by
  have hstart : ({} : Host).startOf "b/inference" = ["work"] ∧
      ({} : Host).startOf "b/inference/../x.yaml" = ["work"] ∧
      ({} : Host).startOf "/x.yaml" = [] := by
    decide +kernel
  have hnames : ("b/inference".toList.splitOn '/').map String.ofList = ["b", "inference"] ∧
      ("b/inference/../x.yaml".toList.splitOn '/').map String.ofList =
        ["b", "inference", "..", "x.yaml"] ∧
      ("/x.yaml".toList.splitOn '/').map String.ofList = ["", "x.yaml"] := by
    decide
  have hdirectory : ∀ place, place = [] ∨ place = ["work"] ∨ place = ["b", "work"] ∨
      place = ["inference", "b", "work"] → (besideTree atRoot beside).entry place = .directory := by
    rintro place (rfl | rfl | hplace)
    · rfl
    · rfl
    · exact entry_beside_directory atRoot beside hplace
  refine ⟨?_, ?_, ?_⟩
  · rw [locate_of_names (by decide) hnames.1, hstart.1]
    simp [walk_cons_of_directory, hdirectory, step]
  · rw [locate_of_names (by decide) hnames.2.1, hstart.2.1]
    simp [walk_cons_of_directory, hdirectory, step]
  · rw [locate_of_names (by decide) hnames.2.2, hstart.2.2]
    simp [walk_cons_of_directory, hdirectory, step]

theorem read_beside (atRoot beside : String) :
    (besideTree atRoot beside).read "/x.yaml" = .ok atRoot.toUTF8 ∧
      (besideTree atRoot beside).read "b/inference/../x.yaml" = .ok beside.toUTF8 := by
  obtain ⟨-, hbeside, hroot⟩ := locate_beside atRoot beside
  obtain ⟨hatRoot, hfile⟩ := entry_beside_file atRoot beside
  exact ⟨read_eq_ok_iff.2 ⟨_, hroot, hatRoot, rfl⟩, read_eq_ok_iff.2 ⟨_, hbeside, hfile, rfl⟩⟩

theorem write_beside (atRoot beside after : String) :
    (besideTree atRoot beside).write "/x.yaml" after.toUTF8 = .ok (besideTree after beside) ∧
      (besideTree atRoot beside).write "b/inference/../x.yaml" after.toUTF8 =
        .ok (besideTree atRoot after) := by
  obtain ⟨-, hbeside, hroot⟩ := locate_beside atRoot beside
  obtain ⟨hatRoot, hfile⟩ := entry_beside_file atRoot beside
  have hpaths : ({} : Host).pathOf ["x.yaml"] = "/x.yaml" ∧
      ({} : Host).pathOf ["x.yaml", "b", "work"] = "b/x.yaml" := by
    decide +kernel
  have hsecond : ¬ "b/x.yaml" < "b/inference/k" ∧ "b/inference/k" < "b/x.yaml" := by decide
  have hthird : ¬ "b/x.yaml" < "/x.yaml" ∧ "/x.yaml" < "b/x.yaml" := by decide
  constructor
  · refine write_eq_ok_iff.2 ⟨by decide +kernel, _, hroot, by rw [hatRoot]; nofun, rfl, ?_⟩
    refine congrArg FileTree.mk (SortedMap.eq_of_entries ((entries_beside after beside).trans ?_))
    simp [SortedMap.insert, entries_beside, insertEntry, hpaths.1]
  · refine write_eq_ok_iff.2 ⟨by decide +kernel, _, hbeside, by rw [hfile]; nofun, rfl, ?_⟩
    refine congrArg FileTree.mk (SortedMap.eq_of_entries ((entries_beside atRoot after).trans ?_))
    simp [SortedMap.insert, entries_beside, insertEntry, hpaths.2, hsecond, hthird]

/-- A run without answers rewrites the file with a note, wherever its path leads. -/
theorem configureAt_noted {host : Host} {files after : FileTree host} {path : String}
    (hread : files.read path = .ok notedText.toUTF8)
    (hwrite : files.write path renotedText.toUTF8 = .ok after) :
    (configureAt path files []).1.code = 0 ∧ (configureAt path files []).2 = after := by
  obtain ⟨houtcome, hfiles⟩ := configure_noted hread hwrite
  have hexists : files.exists? path = true := by rw [exists?_eq_shown, shown_of_read hread]
  rw [configureAt, if_pos hexists]
  exact ⟨by simp only [houtcome]; rfl, hfiles⟩

/-- A name that climbs makes a run read and rewrite a file outside of the directory of the API, and
so does a name from the root. -/
theorem climbing_name_rewrites_file_outside :
    let environment : Environment := ⟨some "b", none⟩
    let configuring (name : String) := ["api", "configure", "inference", "--build-name", name]
    let before := besideTree notedText notedText
    let left := run (configuring "../x") environment before []
    let leftAtRoot := run (configuring "/x") environment before []
    ofArguments (configuring "../x") = .ok (.configure .inference "../x") ∧
      ofArguments (configuring "/x") = .ok (.configure .inference "/x") ∧
      environment.buildsRoot = .ok "b" ∧
      before.locate (joinPath "b" StackApi.inference.name) = .ok ["inference", "b", "work"] ∧
      before.locate (buildPath "b" .inference "../x") = .ok ["x.yaml", "b", "work"] ∧
      before.locate (buildPath "b" .inference "/x") = .ok ["x.yaml"] ∧
      ¬ Below ["inference", "b", "work"] ["x.yaml", "b", "work"] ∧
      ¬ Below ["inference", "b", "work"] ["x.yaml"] ∧
      ¬ LiesBelow (joinPath "b" StackApi.inference.name) (buildPath "b" .inference "../x") ∧
      left.1.code = 0 ∧ left.2 = besideTree notedText renotedText ∧
      leftAtRoot.1.code = 0 ∧ leftAtRoot.2 = besideTree renotedText notedText ∧
      notedText ≠ renotedText := by
  intro environment configuring before left leftAtRoot
  have haction : ofArguments (configuring "../x") = .ok (.configure .inference "../x") ∧
      ofArguments (configuring "/x") = .ok (.configure .inference "/x") := by
    decide +kernel
  have hroot : environment.buildsRoot = .ok "b" := by decide +kernel
  have hpath : buildPath "b" .inference "../x" = "b/inference/../x.yaml" ∧
      buildPath "b" .inference "/x" = "/x.yaml" := by
    decide +kernel
  have hdirectory : joinPath "b" StackApi.inference.name = "b/inference" := by decide +kernel
  have houtside : ¬ Below ["inference", "b", "work"] ["x.yaml", "b", "work"] := by decide
  obtain ⟨hbase, hplace, hatRoot⟩ := locate_beside notedText notedText
  obtain ⟨hreadRoot, hread⟩ := read_beside notedText notedText
  obtain ⟨hwriteRoot, hwrite⟩ := write_beside notedText notedText renotedText
  have hleft : left = configureAt "b/inference/../x.yaml" before [] := by
    simp only [left, run, haction.1, Action.run, hroot, hpath.1]
  have hleftAtRoot : leftAtRoot = configureAt "/x.yaml" before [] := by
    simp only [leftAtRoot, run, haction.2, Action.run, hroot, hpath.2]
  obtain ⟨hcode, hfiles⟩ := configureAt_noted hread hwrite
  obtain ⟨hcodeRoot, hfilesRoot⟩ := configureAt_noted hreadRoot hwriteRoot
  rw [hpath.1, hpath.2, hdirectory, hleft, hleftAtRoot]
  refine ⟨haction.1, haction.2, hroot, hbase, hplace, hatRoot, houtside, by decide, ?_, hcode,
    hfiles, hcodeRoot, hfilesRoot, by decide⟩
  intro hbelow
  obtain ⟨base, hfound, hinside⟩ := hbelow.located before _ hplace
  cases hbase.symm.trans hfound
  exact houtside hinside

end Command

end StackBridge
