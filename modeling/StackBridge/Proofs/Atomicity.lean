/-
What a run does to the files. A run that fails leaves all of them as they are, wherever it fails and
however much was answered before; so does one that only shows a text. Only a configuration that
succeeds writes, and then to the one file that holds the build.
-/
import StackBridge.Command.Run
import StackBridge.Proofs.FileAccess
import StackBridge.Proofs.Rewrite

namespace StackBridge

namespace Build

variable {host : Host}

/-- Whether at most the file that a path leads to has other bytes. -/
structure ChangesOnly (before after : FileTree host) (path : String) : Prop where
  located : ∃ location, before.locate path = .ok location ∧
    before.DiffersOnlyAt after (host.pathOf location)
  /-- Every path leads where it led. -/
  locate : ∀ other, after.locate other = before.locate other
  /-- Every path that leads elsewhere shows what it showed. -/
  read : ∀ other, (∀ location target, before.locate other = .ok location →
    before.locate path = .ok target → host.pathOf location ≠ host.pathOf target) →
      after.read other = before.read other

/-- A file that was read is the only one that writing to its path changes. -/
theorem changesOnly_of_write {before after : FileTree host} {path : String}
    {held bytes : ByteArray} (hread : before.read path = .ok held)
    (hwrite : before.write path bytes = .ok after) : ChangesOnly before after path := by
  obtain ⟨location, hlocation, hentry, -⟩ := FileTree.read_eq_ok_iff.1 hread
  obtain ⟨-, target, htarget, -, -, rfl⟩ := FileTree.write_eq_ok_iff.1 hwrite
  cases hlocation.symm.trans htarget
  have hdiffers := FileTree.differsOnlyAt_insert (FileTree.get?_of_entry hentry).2 bytes
  exact ⟨⟨location, hlocation, hdiffers⟩, hdiffers.locate,
    fun other hother => hdiffers.read fun place hplace => hother place location hplace hlocation⟩

theorem read_of_load {files : FileTree host} {path : String} {package : Package}
    (hload : Package.load files path = .ok package) : ∃ bytes, files.read path = .ok bytes := by
  unfold Package.load at hload
  cases hread : files.read path with
  | ok bytes => exact ⟨bytes, rfl⟩
  | error fault => rw [hread] at hload; cases hload

theorem write_of_save {package : Package} {files after : FileTree host} {path : String}
    (hsave : package.save files path = .ok after) :
    ∃ bytes, files.write path bytes = .ok after := by
  obtain ⟨text, -, hwrite⟩ := text_of_save hsave
  exact ⟨_, hwrite⟩

theorem save_of_unprintable {package : Package} {failure : Failure} (files : FileTree host)
    (path : String) (hbytes : package.bytes = .error failure) :
    package.save files path = .error failure := by
  rw [Package.save, hbytes]
  rfl

theorem save_of_bytes {package : Package} {bytes : ByteArray} (files : FileTree host)
    (path : String) (hbytes : package.bytes = .ok bytes) :
    package.save files path = (files.write path bytes).mapError .file := by
  rw [Package.save, hbytes]
  rfl

/-- A configuration that fails leaves all files alone, whatever changes the providers. -/
theorem files_of_failure {σ : Type} {configurator : Configurator σ} {files : FileTree host}
    {path : String} {state : σ} {failure : Failure}
    (hfails : (configure configurator files path state).outcome = .error failure) :
    (configure configurator files path state).files = files := by
  unfold configure at hfails ⊢
  cases hload : Package.load files path with
  | error failure => rfl
  | ok package =>
      rw [hload] at hfails
      simp only at hfails ⊢
      rcases hchange : configurator state package.providers with ⟨failure | providers, state⟩
      · rfl
      · rw [hchange] at hfails
        simp only at hfails ⊢
        cases hsave : Package.save { package with providers := providers } files path with
        | error failure => rfl
        | ok after => rw [hsave] at hfails; cases hfails

/-- One that succeeds changes only the file of the build. -/
theorem changesOnly_of_success {σ : Type} {configurator : Configurator σ} {files : FileTree host}
    {path : String} {state : σ} {package : Package}
    (hsucceeds : (configure configurator files path state).outcome = .ok package) :
    ChangesOnly files (configure configurator files path state).files path := by
  unfold configure at hsucceeds ⊢
  cases hload : Package.load files path with
  | error failure => rw [hload] at hsucceeds; cases hsucceeds
  | ok package =>
      rw [hload] at hsucceeds
      simp only at hsucceeds ⊢
      rcases hchange : configurator state package.providers with ⟨failure | providers, state⟩
      · rw [hchange] at hsucceeds; cases hsucceeds
      · rw [hchange] at hsucceeds
        simp only at hsucceeds ⊢
        cases hsave : Package.save { package with providers := providers } files path with
        | error failure => rw [hsave] at hsucceeds; cases hsucceeds
        | ok after =>
            obtain ⟨held, hread⟩ := read_of_load hload
            obtain ⟨bytes, hwrite⟩ := write_of_save hsave
            exact changesOnly_of_write hread hwrite

end Build

namespace Command

open Build

variable {host : Host}

/-- The ways in which a run can end. -/
inductive Ending where
  | usageWrong
  | textShown
  | rootUnresolved
  | buildMissing
  /-- The file of the build cannot be read, or holds no package. -/
  | buildUnreadable
  /-- A line of the answers is not text. -/
  | answerUnreadable
  /-- The package has no text. -/
  | unprintable
  /-- The file cannot be written. -/
  | notWritten
  | written
deriving DecidableEq, Repr

def Ending.code : Ending → UInt32
  | .textShown | .written => 0
  | .rootUnresolved | .buildUnreadable | .answerUnreadable | .unprintable | .notWritten => 1
  | .usageWrong | .buildMissing => 2

/-- What makes a configuration of the build at a path end in a way. -/
inductive ConfigureEnds (path : String) (files : FileTree host) (input : Bytes) : Ending → Prop
  | buildMissing (hmissing : files.exists? path = false) :
      ConfigureEnds path files input .buildMissing
  | buildUnreadable {failure : Failure} (hexists : files.exists? path = true)
      (hload : Package.load files path = .error failure) :
      ConfigureEnds path files input .buildUnreadable
  | answerUnreadable {package : Package} {fault : FileFault} (hexists : files.exists? path = true)
      (hload : Package.load files path = .ok package)
      (hanswer : (Dialogue.repliesTo package.providers.prompts { unread := input }).1 =
        .error fault) :
      ConfigureEnds path files input .answerUnreadable
  | unprintable {package : Package} {replies : List (Option Yaml.Value)} {failure : Failure}
      (hexists : files.exists? path = true) (hload : Package.load files path = .ok package)
      (hanswers : (Dialogue.repliesTo package.providers.prompts { unread := input }).1 =
        .ok replies)
      (hbytes : Package.bytes { package with
        providers := package.providers.withReplies replies } = .error failure) :
      ConfigureEnds path files input .unprintable
  | notWritten {package : Package} {replies : List (Option Yaml.Value)} {bytes : ByteArray}
      {fault : FileFault} (hexists : files.exists? path = true)
      (hload : Package.load files path = .ok package)
      (hanswers : (Dialogue.repliesTo package.providers.prompts { unread := input }).1 =
        .ok replies)
      (hbytes : Package.bytes { package with
        providers := package.providers.withReplies replies } = .ok bytes)
      (hwrite : files.write path bytes = .error fault) :
      ConfigureEnds path files input .notWritten
  | written {package : Package} {replies : List (Option Yaml.Value)} {bytes : ByteArray}
      {after : FileTree host} (hexists : files.exists? path = true)
      (hload : Package.load files path = .ok package)
      (hanswers : (Dialogue.repliesTo package.providers.prompts { unread := input }).1 =
        .ok replies)
      (hbytes : Package.bytes { package with
        providers := package.providers.withReplies replies } = .ok bytes)
      (hwrite : files.write path bytes = .ok after) :
      ConfigureEnds path files input .written

/-- What makes a run end in a way. -/
inductive RunEnds (arguments : List String) (environment : Environment) (files : FileTree host)
    (input : Bytes) : Ending → Prop
  | usageWrong {error : UsageError} (hwrong : ofArguments arguments = .error error) :
      RunEnds arguments environment files input .usageWrong
  | versionShown (haction : ofArguments arguments = .ok .version) :
      RunEnds arguments environment files input .textShown
  | helpShown (haction : ofArguments arguments = .ok .help) :
      RunEnds arguments environment files input .textShown
  | rootUnresolved {api : StackApi} {buildName : String} {failure : Failure}
      (haction : ofArguments arguments = .ok (.configure api buildName))
      (hroot : environment.buildsRoot = .error failure) :
      RunEnds arguments environment files input .rootUnresolved
  | configured {api : StackApi} {buildName root : String} {ending : Ending}
      (haction : ofArguments arguments = .ok (.configure api buildName))
      (hroot : environment.buildsRoot = .ok root)
      (hends : ConfigureEnds (buildPath root api buildName) files input ending) :
      RunEnds arguments environment files input ending

/-- No more than one thing makes a configuration end. -/
theorem ConfigureEnds.unique {path : String} {files : FileTree host} {input : Bytes}
    {ending other : Ending} (hends : ConfigureEnds path files input ending)
    (hother : ConfigureEnds path files input other) : ending = other := by
  cases hends <;> cases hother <;> simp_all

/-- A run ends in one way only. -/
theorem RunEnds.unique {arguments : List String} {environment : Environment}
    {files : FileTree host} {input : Bytes} {ending other : Ending}
    (hends : RunEnds arguments environment files input ending)
    (hother : RunEnds arguments environment files input other) : ending = other := by
  cases hends with
  | configured haction hroot hends =>
      cases hother with
      | configured haction' hroot' hends' =>
          cases haction.symm.trans haction'
          cases hroot.symm.trans hroot'
          exact hends.unique hends'
      | _ => simp_all
  | _ => cases hother <;> simp_all

/-- What a run leaves behind: its code goes with its ending, and unless the file was written all
files are as they were. -/
structure LeavesBehind (files : FileTree host) (left : Report × FileTree host)
    (ending : Ending) : Prop where
  code : left.1.code = ending.code
  untouched : ending ≠ .written → left.2 = files

/-- Every configuration ends in one of the ways and leaves behind what that way says. -/
theorem configureAt_ends (path : String) (files : FileTree host) (input : Bytes) :
    ∃ ending, ConfigureEnds path files input ending ∧
      LeavesBehind files (configureAt path files input) ending ∧
      (ending = .written → ChangesOnly files (configureAt path files input).2 path) := by
  cases hexists : files.exists? path with
  | false =>
      have hleft : configureAt path files input = (.ofMissingBuild path, files) := by
        rw [configureAt, hexists]
        rfl
      rw [hleft]
      exact ⟨.buildMissing, .buildMissing hexists, ⟨rfl, fun _ => rfl⟩, by simp⟩
  | true =>
      let configured := configure prompting files path { unread := input }
      have hleft : configureAt path files input =
          (.ofOutcome configured.state.transcript path configured.outcome, configured.files) := by
        rw [configureAt, if_pos hexists]
      have hfails : ∀ {failure}, configured.outcome = .error failure →
          (configureAt path files input).1.code = 1 ∧ (configureAt path files input).2 = files := by
        intro failure hfailure
        rw [hleft]
        exact ⟨by rw [hfailure]; rfl, files_of_failure hfailure⟩
      cases hload : Package.load files path with
      | error failure =>
          have hfailure : configured.outcome = .error failure := by
            simp only [configured, configure, hload]
          exact ⟨.buildUnreadable, .buildUnreadable hexists hload,
            ⟨(hfails hfailure).1, fun _ => (hfails hfailure).2⟩, by simp⟩
      | ok package =>
          cases hreplies : (Dialogue.repliesTo package.providers.prompts { unread := input }).1 with
          | error fault =>
              have hfailure : configured.outcome = .error (.file fault) := by
                simp only [configured, configure, hload, prompting, Dialogue.configure, hreplies]
              exact ⟨.answerUnreadable, .answerUnreadable hexists hload hreplies,
                ⟨(hfails hfailure).1, fun _ => (hfails hfailure).2⟩, by simp⟩
          | ok replies =>
              let written := { package with providers := package.providers.withReplies replies }
              have hchanged : ∀ {result}, written.save files path = result →
                  configured.outcome = result.map fun _ => written := by
                intro result hsave
                simp only [written] at hsave
                simp only [configured, configure, hload, prompting, Dialogue.configure, hreplies,
                  hsave]
                cases result <;> rfl
              cases hbytes : written.bytes with
              | error failure =>
                  have hfailure := hchanged (save_of_unprintable files path hbytes)
                  exact ⟨.unprintable, .unprintable hexists hload hreplies hbytes,
                    ⟨(hfails hfailure).1, fun _ => (hfails hfailure).2⟩, by simp⟩
              | ok bytes =>
                  have hsuccess := hchanged (save_of_bytes files path hbytes)
                  cases hwrite : files.write path bytes with
                  | error fault =>
                      rw [hwrite] at hsuccess
                      exact ⟨.notWritten, .notWritten hexists hload hreplies hbytes hwrite,
                        ⟨(hfails hsuccess).1, fun _ => (hfails hsuccess).2⟩, by simp⟩
                  | ok after =>
                      rw [hwrite] at hsuccess
                      refine ⟨.written, .written hexists hload hreplies hbytes hwrite,
                        ⟨?_, fun hwritten => absurd rfl hwritten⟩, fun _ => ?_⟩
                      · rw [hleft, hsuccess]
                        rfl
                      · rw [hleft]
                        exact changesOnly_of_success hsuccess

/-- Every run ends in exactly one of the ways there are and with the code of that way. A run whose
code is not zero leaves all files as they are, and so does one that only shows a text; only a
configuration that succeeds changes anything, and that is at most the file of the build. A
configuration by other means than the dialogue leaves all files alone too when it fails. -/
theorem failed_runs_leave_files_alone (arguments : List String) (environment : Environment)
    (files : FileTree host) (input : Bytes) :
    let left := run arguments environment files input
    (∃ ending, RunEnds arguments environment files input ending ∧
      (∀ other, RunEnds arguments environment files input other → other = ending) ∧
      LeavesBehind files left ending) ∧
    (left.1.code ≠ 0 → left.2 = files) ∧
    (left.2 ≠ files → ∃ api buildName root, left.1.code = 0 ∧
      ofArguments arguments = .ok (.configure api buildName) ∧
      environment.buildsRoot = .ok root ∧
      ChangesOnly files left.2 (buildPath root api buildName)) ∧
    ∀ (σ : Type) (configurator : Configurator σ) (path : String) (state : σ),
      (∀ package failure, Package.load files path = .ok package →
        (configurator state package.providers).1 = .error failure →
          (configure configurator files path state).outcome = .error failure) ∧
      ∀ failure, (configure configurator files path state).outcome = .error failure →
        (configure configurator files path state).files = files := by
  intro left
  have hends : ∃ ending, RunEnds arguments environment files input ending ∧
      LeavesBehind files left ending ∧
      (ending = .written → ∃ api buildName root,
        ofArguments arguments = .ok (.configure api buildName) ∧
        environment.buildsRoot = .ok root ∧
        ChangesOnly files left.2 (buildPath root api buildName)) := by
    cases haction : ofArguments arguments with
    | error error =>
        have hleft : left = (.ofUsageError error, files) := by simp only [left, run, haction]
        rw [hleft]
        exact ⟨.usageWrong, .usageWrong haction, ⟨rfl, fun _ => rfl⟩, by simp⟩
    | ok action =>
        have hleft : left = action.run environment files input := by
          simp only [left, run, haction]
        cases action with
        | version =>
            rw [hleft]
            exact ⟨.textShown, .versionShown haction, ⟨rfl, fun _ => rfl⟩, by simp⟩
        | help =>
            rw [hleft]
            exact ⟨.textShown, .helpShown haction, ⟨rfl, fun _ => rfl⟩, by simp⟩
        | configure api buildName =>
            cases hroot : environment.buildsRoot with
            | error failure =>
                rw [hleft, Action.run, hroot]
                exact ⟨.rootUnresolved, .rootUnresolved haction hroot, ⟨rfl, fun _ => rfl⟩, by simp⟩
            | ok root =>
                rw [hleft, Action.run, hroot]
                obtain ⟨ending, hending, hbehind, hchanges⟩ :=
                  configureAt_ends (buildPath root api buildName) files input
                exact ⟨ending, .configured haction hroot hending, hbehind,
                  fun hwritten => ⟨api, buildName, root, rfl, rfl, hchanges hwritten⟩⟩
  obtain ⟨ending, hending, hbehind, hchanges⟩ := hends
  refine ⟨⟨ending, hending, fun other hother => hother.unique hending, hbehind⟩, ?_, ?_, ?_⟩
  · intro hcode
    refine hbehind.untouched ?_
    rintro rfl
    exact hcode hbehind.code
  · intro hchanged
    have hwritten : ending = .written := by
      by_contra hother
      exact hchanged (hbehind.untouched hother)
    obtain ⟨api, buildName, root, haction, hroot, honly⟩ := hchanges hwritten
    refine ⟨api, buildName, root, ?_, haction, hroot, honly⟩
    rw [hbehind.code, hwritten]
    rfl
  · intro σ configurator path state
    refine ⟨?_, fun failure => files_of_failure⟩
    intro package failure hload hfails
    rcases hchange : configurator state package.providers with ⟨found | providers, next⟩
    · rw [hchange] at hfails
      cases hfails
      simp only [configure, hload, hchange]
    · rw [hchange] at hfails
      cases hfails

def buildArguments : List String := ["api", "configure", "memory", "--build-name", "b"]

/-- An environment that says nothing of builds. -/
def homeEnvironment : Environment where
  buildsDir := none
  home := some "/home/u"

/-- A machine that lets files be written or refuses it. -/
def machine (writable : Bool) : Host where
  fault?
    | .write, _ => if writable then none else some .refused
    | _, _ => none

/-- A tree with one file, below the directory where builds are kept by default. -/
def buildTree (writable : Bool) (text : String) : FileTree (machine writable) :=
  ⟨SortedMap.ofList [("/home/u/.llama/builds/memory/b.yaml", text.toUTF8)]⟩

def buildLocation : Location := ["b.yaml", "memory", "builds", ".llama", "u", "home"]

theorem anyBelow_build (writable : Bool) (text path : String) :
    (buildTree writable text).anyBelow path =
      (path ++ "/").isPrefixOf "/home/u/.llama/builds/memory/b.yaml" := by
  simp [FileTree.anyBelow, buildTree, SortedMap.ofList, insertEntries, insertEntry]

theorem entry_above_build (writable : Bool) (text : String) {place : Location}
    (hplace : place = [] ∨ place = ["home"] ∨ place = ["u", "home"] ∨
      place = [".llama", "u", "home"] ∨ place = ["builds", ".llama", "u", "home"] ∨
      place = ["memory", "builds", ".llama", "u", "home"]) :
    (buildTree writable text).entry place = .directory := by
  rcases hplace with rfl | hplace
  · exact FileTree.entry_root _
  rcases hplace with rfl | rfl | rfl | rfl | rfl <;>
    exact FileTree.entry_of_anyBelow rfl
      ((anyBelow_build writable text _).trans (by revert writable; decide +kernel))

theorem locate_build (writable : Bool) (text : String) :
    (buildTree writable text).locate "/home/u/.llama/builds/memory/b.yaml" = .ok buildLocation := by
  have hnames : ("/home/u/.llama/builds/memory/b.yaml".toList.splitOn '/').map String.ofList =
      ["", "home", "u", ".llama", "builds", "memory", "b.yaml"] := by decide
  have hstart : (machine writable).startOf "/home/u/.llama/builds/memory/b.yaml" = [] := by
    revert writable
    decide +kernel
  have hsearch : ∀ place, (machine writable).fault? .search place = none := fun _ => rfl
  rw [FileTree.locate_of_names (by decide) hnames, hstart]
  simp [FileTree.walk_cons_of_directory, entry_above_build, hsearch, FileTree.step, buildLocation]

theorem read_build (writable : Bool) (text : String) :
    (buildTree writable text).read "/home/u/.llama/builds/memory/b.yaml" = .ok text.toUTF8 :=
  FileTree.read_eq_ok_iff.2 ⟨buildLocation, locate_build writable text, rfl, rfl⟩

theorem load_build (writable : Bool) :
    Package.load (buildTree writable notedText) "/home/u/.llama/builds/memory/b.yaml" =
      .ok notedPackage :=
  (load_eq_ok_iff (read_build writable notedText)).2 ofText_noted

theorem exists_build (writable : Bool) (text : String) :
    (buildTree writable text).exists? "/home/u/.llama/builds/memory/b.yaml" = true := by
  rw [FileTree.exists?_eq_shown, FileTree.shown_of_read (read_build writable text)]

theorem run_build_ends {writable : Bool} {input : Bytes} {ending : Ending}
    (hends : ConfigureEnds "/home/u/.llama/builds/memory/b.yaml" (buildTree writable notedText)
      input ending) :
    RunEnds buildArguments homeEnvironment (buildTree writable notedText) input ending := by
  have haction : ofArguments buildArguments = .ok (.configure .memory "b") := by decide +kernel
  have hroot : homeEnvironment.buildsRoot = .ok "/home/u/.llama/builds" := by decide +kernel
  have hpath : buildPath "/home/u/.llama/builds" .memory "b" =
      "/home/u/.llama/builds/memory/b.yaml" := by
    decide +kernel
  exact .configured haction hroot (hpath ▸ hends)

/-- The general statement at a file whose only setting is answered by bytes that are no text, at
one that may be read but not written, and at a configurator that fails. -/
theorem broken_off_run_leaves_file_alone :
    let files := buildTree true notedText
    let left := run buildArguments homeEnvironment files [0xff, 0x0a]
    let guarded := buildTree false notedText
    let kept := run buildArguments homeEnvironment guarded []
    let refusing : Configurator Unit := fun state _ => (.error (.chunkSource "no"), state)
    let path := "/home/u/.llama/builds/memory/b.yaml"
    Package.load files path = .ok notedPackage ∧
      RunEnds buildArguments homeEnvironment files [0xff, 0x0a] .answerUnreadable ∧
      left.1.code = 1 ∧ left.1.code ≠ 0 ∧ left.2 = files ∧
      RunEnds buildArguments homeEnvironment guarded [] .notWritten ∧
      kept.1.code = 1 ∧ kept.2 = guarded ∧
      (configure refusing files path ()).files = files := by
  intro files left guarded kept refusing path
  have hanswer : (Dialogue.repliesTo notedPackage.providers.prompts
      { unread := [0xff, 0x0a] }).1 = .error .notText := by
    decide +kernel
  have hends := run_build_ends
    (.answerUnreadable (exists_build true notedText) (load_build true) hanswer)
  obtain ⟨⟨ending, -, hunique, hbehind⟩, huntouched, -, hconfigure⟩ :=
    failed_runs_leave_files_alone buildArguments homeEnvironment files [0xff, 0x0a]
  cases hunique _ hends
  have hcode : left.1.code ≠ 0 := by
    rw [hbehind.code]
    decide
  have hreplies : (Dialogue.repliesTo notedPackage.providers.prompts { unread := [] }).1 =
      .ok [none] := by
    decide +kernel
  have hbytes : notedPackage.bytes = .ok renotedText.toUTF8 := by
    rw [Package.bytes, Package.text, text_noted]
    rfl
  have hwrite : guarded.write path renotedText.toUTF8 = .error .refused :=
    FileTree.write_of_entry (by decide +kernel) (locate_build false notedText) rfl _
  have hguarded : RunEnds buildArguments homeEnvironment guarded [] .notWritten :=
    run_build_ends (.notWritten (exists_build false notedText) (load_build false) hreplies hbytes
      hwrite)
  obtain ⟨⟨ended, -, honly, hkept⟩, -⟩ :=
    failed_runs_leave_files_alone buildArguments homeEnvironment guarded []
  cases honly _ hguarded
  obtain ⟨hrefused, hfails⟩ := hconfigure Unit refusing path ()
  exact ⟨load_build true, hends, hbehind.code, hcode, huntouched hcode, hguarded, hkept.code,
    hkept.untouched (by decide), hfails _ (hrefused notedPackage _ (load_build true) rfl)⟩

end Command

end StackBridge
