/-
A build that was configured is read back from its file as it is, and configuring it once more
without answers leaves the file alone. This is so if the settings are not nested too deep and their
tags are legible. Neither is looked at before the file is written, so an answer that breaks it makes
a file that cannot be loaded any more.
-/
import StackBridge.Proofs.AnswerValues
import StackBridge.Proofs.Atomicity
import StackBridge.Proofs.PrintedText
import StackBridge.Proofs.ReadValues

namespace StackBridge

namespace Build

open StackBridge.Yaml (Value Document)

variable {host : Host}

/-- What a build needs to be read back from its file. It is about the settings only: that they are
nested no deeper than a file allows below its three outer levels, and that their tags are legible.
-/
structure Package.Legible (package : Package) : Prop where
  depth : ∀ entry ∈ package.providers.entries, entry.2.config.depth ≤ Yaml.maxDepth - 3
  tags : ∀ entry ∈ package.providers.entries,
    entry.2.config.TagsWithin Yaml.LegibleTag false

/-- A package whose values are legible can be read back. -/
theorem readable_of_legible {package : Package} (hread : package.Read)
    {replies : List (Option Value)} (hreplies : UniqueReplies replies)
    (hlegible : Package.Legible
      { package with providers := package.providers.withReplies replies }) :
    Package.Readable { package with providers := package.providers.withReplies replies } where
  configs entry hentry := by
    have hunique := Providers.unique_withReplies hreplies
      (fun entry hentry => (hread.providers entry hentry).unique rfl) entry hentry
    exact ⟨(hlegible.tags entry hentry).imp fun _ hname => hname.1, hunique,
      hlegible.depth entry hentry⟩
  extra entry hentry := by
    obtain ⟨hname, hvalue, hunique⟩ := hread.extra entry hentry
    exact ⟨hname, hvalue.untagged rfl false, hunique, hvalue.depth⟩

/-- The tags within a package are those within the settings. -/
theorem tagsWithin_toValue {package : Package} (hlegible : package.Legible)
    (hreadable : package.Readable) : package.toValue.TagsWithin Yaml.LegibleTag false := by
  have htext : ∀ text, (optionalText text).TagsWithin Yaml.LegibleTag false := by
    intro text
    cases text <;> trivial
  refine Value.tagsWithinEntries_iff.2 fun entry hentry => ?_
  rcases List.mem_append.1 hentry with hknown | hextra
  · simp only [List.mem_cons, List.not_mem_nil, or_false] at hknown
    rcases hknown with rfl | rfl | rfl | rfl | rfl
    · exact ⟨trivial, trivial⟩
    · exact ⟨trivial, trivial⟩
    · exact ⟨trivial, htext _⟩
    · exact ⟨trivial, htext _⟩
    · refine ⟨trivial, Value.tagsWithinEntries_iff.2 fun entry hentry => ?_⟩
      obtain ⟨provider, hprovider, rfl⟩ := List.mem_map.1 hentry
      exact ⟨trivial, trivial, trivial, trivial, hlegible.tags provider hprovider, trivial⟩
  · obtain ⟨held, hheld, rfl⟩ := List.mem_map.1 hextra
    exact ⟨trivial, (hreadable.extra held hheld).2.tags.imp fun _ hname => hname.elim⟩

/-- A text that was written is read as what it was written from. -/
theorem ofText_of_text {package : Package} {text : String} (hreadable : package.Readable)
    (htags : package.toValue.TagsWithin Yaml.LegibleTag false)
    (htext : package.toValue.text = .ok text) : Package.ofText text = .ok package := by
  obtain ⟨entry, entries, hmapping⟩ :
    ∃ entry entries, package.toValue = .mapping (entry :: entries) :=
    ⟨_, _, rfl⟩
  have hchars : text = String.ofList package.toValue.chars := Yaml.text_eq_ok htext
  rw [hmapping] at htags
  obtain ⟨root, hshows, hdocument⟩ := Yaml.document_of_mapping htags
  rw [← hmapping] at hshows hdocument
  rw [← hchars] at hdocument
  have htaken : (takePackage (Document.ofText text) Yaml.maxDepth .root root).Yields package :=
    yields_takePackage hreadable hshows
  have hroot : (Document.ofText text).root = root := by rw [hdocument]
  have hread := htaken 0
  unfold Package.ofText Yaml.read
  simp only [hroot, hread, bind, Except.bind]
  rw [hdocument]
  rfl

/-- What was saved is loaded, and saving it again changes nothing. -/
theorem load_of_save {package : Package} {files after : FileTree host} {path : String}
    {held : ByteArray}
    (hreadable : package.Readable) (htags : package.toValue.TagsWithin Yaml.LegibleTag false)
    (hread : files.read path = .ok held) (hsave : package.save files path = .ok after) :
    Package.load after path = .ok package ∧ package.save after path = .ok after := by
  obtain ⟨text, htext, hwrite⟩ := text_of_save hsave
  obtain ⟨hafter, hagain⟩ := FileTree.read_of_write hread hwrite
  exact ⟨(load_eq_ok_iff hafter).2 (ofText_of_text hreadable htags htext),
    save_of_write htext hagain⟩

/-- Behind the end of the input no question has an answer. -/
theorem repliesTo_nothing (prompts : List Prompt) (transcript : String) :
    (Dialogue.repliesTo prompts ⟨transcript, []⟩).1 =
      .ok (List.replicate (prompts.countP (·.isQuestion)) none) := by
  induction prompts generalizing transcript with
  | nil => rfl
  | cons prompt rest ih =>
      have hblank : replyOf [] = .ok none := by decide +kernel
      by_cases hquestion : prompt.isQuestion
      · rw [List.countP_cons_of_pos hquestion, List.replicate_succ, Dialogue.repliesTo,
          if_pos hquestion]
        simp only [Dialogue.say, takeLine, hblank]
        rw [ih]
        rfl
      · rw [List.countP_cons_of_neg hquestion, Dialogue.repliesTo, if_neg hquestion]
        exact ih _

theorem changeValues_nothing (count : Nat) (settings : List (Value × Value)) :
    changeValues (List.replicate count none) settings =
      (settings, List.replicate (count - settings.length) none) := by
  induction settings generalizing count with
  | nil => cases count <;> rfl
  | cons setting rest ih =>
      cases count with
      | zero => simp [changeValues]
      | succ count =>
          rw [List.replicate_succ, changeValues, ih]
          simp

theorem Provider.withReplies_nothing (provider : Provider) (count : Nat) :
    ∃ left, provider.withReplies (List.replicate count none) =
      (provider, List.replicate left none) := by
  unfold Provider.withReplies
  cases hconfig : provider.config with
  | mapping settings =>
      refine ⟨count - settings.length, ?_⟩
      simp only [changeValues_nothing]
      rw [← hconfig]
  | _ => exact ⟨count, rfl⟩

/-- Without answers the providers stay as they are. -/
theorem withReplies_nothing (providers : Providers) (count : Nat) :
    providers.withReplies (List.replicate count none) = providers := by
  have hentries : ∀ (entries : List (String × Provider)) (count : Nat),
      mapAccumEntries (fun replies provider => provider.withReplies replies)
        (List.replicate count none) entries = entries := by
    intro entries
    induction entries with
    | nil => exact fun count => rfl
    | cons entry rest ih =>
        intro count
        obtain ⟨left, hleft⟩ := entry.2.withReplies_nothing count
        simp only [mapAccumEntries, hleft, ih]
  exact SortedMap.eq_of_entries (hentries providers.entries count)

/-- Without answers a file is loaded and saved as it is. -/
theorem configure_nothing {files : FileTree host} {path : String} {package : Package}
    (hload : Package.load files path = .ok package)
    (hsave : package.save files path = .ok files) (transcript : String) :
    (configure prompting files path ⟨transcript, []⟩).outcome = .ok package ∧
      (configure prompting files path ⟨transcript, []⟩).files = files := by
  have hreplies := repliesTo_nothing package.providers.prompts transcript
  have hproviders := withReplies_nothing package.providers
    (package.providers.prompts.countP (·.isQuestion))
  rw [configure, hload]
  simp only [prompting, Dialogue.configure, hreplies, hproviders, hsave]
  constructor <;> trivial

/-- A build that was configured is loaded from its file as it was written there, and configuring it
once more without answers gives the same build and the same file. -/
theorem configured_build_reads_back {files : FileTree host} {path : String} {dialogue : Dialogue}
    {written : Package}
    (hwritten : (configure prompting files path dialogue).outcome = .ok written)
    (hlegible : written.Legible) :
    let after := (configure prompting files path dialogue).files
    Package.load after path = .ok written ∧
      ∀ transcript, (configure prompting after path ⟨transcript, []⟩).outcome = .ok written ∧
        (configure prompting after path ⟨transcript, []⟩).files = after := by
  intro after
  obtain ⟨package, replies, hload, hreplies, rfl, hsave⟩ := configure_cases hwritten
  have hread : package.Read := by
    obtain ⟨text, -, htext⟩ := text_of_load hload
    exact read_of_takePackage (Yaml.answers_of_read htext)
  have hreadable := readable_of_legible hread (uniqueReplies_of_repliesTo hreplies) hlegible
  obtain ⟨held, hheld⟩ := read_of_load hload
  obtain ⟨hafter, hagain⟩ :=
    load_of_save hreadable (tagsWithin_toValue hlegible hreadable) hheld hsave
  exact ⟨hafter, configure_nothing hafter hagain⟩

def settingText : String :=
  "built_at: x\npackage_name: p\nproviders:\n  a:\n    provider_id: r\n    config:\n      k: 1\n"

/-- What is held of the file, up to the value of its setting. -/
def settingPackage (value : Value) : Package where
  builtAt := "x"
  packageName := "p"
  providers := .ofList [("a", { providerId := "r", config := .mapping [(.string "k", value)] })]

theorem load_setting : Package.load (singleFile settingText) "b.yaml" =
    .ok (settingPackage (.number (.whole (.ofInt64 1)))) :=
  (load_eq_ok_iff (read_singleFile settingText)).2 (by decide +kernel)

theorem configure_setting {dialogue : Dialogue} {value : Value} {text : String}
    (hasked : (dialogue.configure
      (settingPackage (.number (.whole (.ofInt64 1)))).providers).1 =
        .ok (settingPackage value).providers)
    (htext : (settingPackage value).toValue.text = .ok text) :
    let configured := configure prompting (singleFile settingText) "b.yaml" dialogue
    configured.outcome = .ok (settingPackage value) ∧ configured.files = singleFile text :=
  configure_of_answers load_setting hasked (save_of_write htext (write_singleFile settingText text))

theorem legible_setting {value : Value} (hdepth : value.depth < Yaml.maxDepth - 3)
    (htags : value.TagsWithin Yaml.LegibleTag false) : (settingPackage value).Legible where
  depth entry hentry := by
    obtain rfl := List.mem_singleton.1 hentry
    simp only [Value.depth, Value.depthOfEntries]
    omega
  tags entry hentry := by
    obtain rfl := List.mem_singleton.1 hentry
    exact ⟨trivial, htags, trivial⟩

/-- The file once the setting is answered with a number that is quoted and has a tag. -/
def quotedText : String :=
  "built_at: x\npackage_name: p\ndocker_image: null\nconda_env: null\nproviders:\n" ++
    "  a:\n    provider_id: r\n    config:\n      k: !a '1'\n"

theorem quoted_build_reads_back :
    let answered : Dialogue := { unread := "!a '1'\n".toUTF8.toList }
    let after := (configure prompting (singleFile settingText) "b.yaml" answered).files
    after.readText "b.yaml" = .ok quotedText ∧
      Package.load after "b.yaml" = .ok (settingPackage (.tagged "a" (.string "1"))) ∧
      ∀ transcript, (configure prompting after "b.yaml" ⟨transcript, []⟩).files = after := by
  intro answered after
  have hasked : (answered.configure
      (settingPackage (.number (.whole (.ofInt64 1)))).providers).1 =
        .ok (settingPackage (.tagged "a" (.string "1"))).providers := by
    decide +kernel
  have htext : (settingPackage (.tagged "a" (.string "1"))).toValue.text = .ok quotedText := by
    decide +kernel
  obtain ⟨houtcome, hfiles⟩ := configure_setting hasked htext
  have hback : Yaml.localTag? (Yaml.fullTag "a") = some "a" := by decide +kernel
  have hname : Yaml.LegibleTag "a" := ⟨hback, List.forall_mem_singleton.2 (by decide)⟩
  have hlegible : (settingPackage (.tagged "a" (.string "1"))).Legible :=
    legible_setting (by decide) ⟨rfl, hname, trivial⟩
  obtain ⟨hload, hagain⟩ := configured_build_reads_back houtcome hlegible
  refine ⟨?_, hload, fun transcript => (hagain transcript).2⟩
  rw [show after = _ from hfiles]
  exact readText_singleFile quotedText

/-- The file once the setting is answered with a text that has a tag. -/
def taggedText : String :=
  "built_at: x\npackage_name: p\ndocker_image: null\nconda_env: null\nproviders:\n" ++
    "  a:\n    provider_id: r\n    config:\n      k: !a,b x\n"

/-- The comma that the answer escapes is printed as it is, and no tag is read with a comma. -/
theorem configured_file_fails_to_load :
    let answered : Dialogue := { unread := "!a%2Cb x\n".toUTF8.toList }
    let configured := configure prompting (singleFile settingText) "b.yaml" answered
    configured.outcome = .ok (settingPackage (.tagged "a,b" (.string "x"))) ∧
      ∀ package, Package.load configured.files "b.yaml" ≠ .ok package := by
  intro answered configured
  have hasked : (answered.configure
      (settingPackage (.number (.whole (.ofInt64 1)))).providers).1 =
        .ok (settingPackage (.tagged "a,b" (.string "x"))).providers := by
    decide +kernel
  have htext : (settingPackage (.tagged "a,b" (.string "x"))).toValue.text = .ok taggedText := by
    decide +kernel
  obtain ⟨houtcome, hfiles⟩ := configure_setting hasked htext
  refine ⟨houtcome, fun package hpackage => ?_⟩
  have hrefused : (Package.ofText taggedText).isOk = false := by decide +kernel
  rw [show configured.files = _ from hfiles] at hpackage
  obtain ⟨text, htext, hparsed⟩ := text_of_load hpackage
  rw [readText_singleFile taggedText] at htext
  cases htext
  rw [hparsed] at hrefused
  cases hrefused

end Build

end StackBridge
