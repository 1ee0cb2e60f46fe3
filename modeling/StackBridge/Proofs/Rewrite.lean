/-
What a rewrite of a build file keeps. Every key at the top stays, and so does every API and every
setting of its provider, in their order; only the values that were answered change, and only what
may be absent is added, as null or empty. A provider keeps its identifier and its settings and
nothing else: a key of a provider that is not known is lost.
-/
import StackBridge.Build.Configure
import StackBridge.Proofs.PathNames
import StackBridge.Proofs.Settings

namespace StackBridge

open StackBridge.Yaml (Value Node Document)

/-- The value of a text key of a mapping. -/
def Yaml.Value.member? (name : String) : Value → Option Value
  | .mapping entries => (entries.find? fun entry => entry.1 == .string name).map (·.2)
  | _ => none

namespace Build

theorem find?_textKeys {α : Type} (value : α → Value) (name : String)
    (entries : List (String × α)) :
    ((entries.map fun (key, a) => (Value.string key, value a)).find?
        fun entry => entry.1 == .string name).map (·.2) = (entries.lookup name).map value := by
  induction entries with
  | nil => rfl
  | cons entry rest ih =>
      rw [List.map_cons, List.find?_cons, lookup_cons]
      by_cases hname : name = entry.1
      · simp [hname]
      · have hother : (Value.string entry.1 == Value.string name) = false := by
          simpa using Ne.symm hname
        simpa [hother, hname] using ih

theorem member?_mappingOf {α : Type} (value : α → Value) (map : SortedMap α) (name : String) :
    (mappingOf value map).member? name = (map.get? name).map value := by
  rw [SortedMap.get?_eq_lookup]
  exact find?_textKeys value name map.entries

theorem member?_toValue_of_unknown {name : String} (hname : name ∉ knownKeys) (package : Package) :
    package.toValue.member? name = package.extra.get? name := by
  simp only [knownKeys, List.mem_cons, List.not_mem_nil, or_false, not_or] at hname
  have hextra := find?_textKeys id name package.extra.entries
  rw [Option.map_id, ← SortedMap.get?_eq_lookup] at hextra
  rw [Package.toValue, Value.member?, List.find?_append]
  simpa [Ne.symm hname.1, Ne.symm hname.2.1, Ne.symm hname.2.2.1, Ne.symm hname.2.2.2.1,
    Ne.symm hname.2.2.2.2] using hextra

/-- What is kept of the settings of a provider: their keys in their order, each of which the
document has at the same place. -/
structure KeepsConfig (document : Document) (node : Node) (written : Value) : Prop where
  loaded : ∃ loaded, document.Denotes node loaded ∧
    List.Forall₂ (fun entry setting =>
      document.Denotes entry.1 setting.1 ∧ document.Denotes entry.2 setting.2)
      (document.entries node) loaded.contents ∧
    written.contents.map (·.1) = loaded.contents.map (·.1) ∧
    ((∀ settings, loaded ≠ .mapping settings) → written = loaded)

/-- What is kept of a provider: its identifier and its settings. Its other keys are lost. -/
structure KeepsProvider (document : Document) (node : Node) (written : Value) : Prop where
  textKeys : document.TextKeys node
  keys : written.contents.map (·.1) = [.string "provider_id", .string "config"]
  providerId : ∃ held text, document.member? node "provider_id" = some held ∧
    document.text? held = some text ∧ written.member? "provider_id" = some (.string text)
  config : ∀ held, document.member? node "config" = some held →
    ∃ config, written.member? "config" = some config ∧ KeepsConfig document held config
  added : document.member? node "config" = none → written.member? "config" = some .null

/-- What is kept of the mapping of providers: every API, with its last entry. -/
structure KeepsProviders (document : Document) (node : Node) (written : Value) : Prop where
  textKeys : document.TextKeys node
  apis : ∀ api, (written.member? api).isSome = (document.member? node api).isSome
  provider : ∀ api held, document.member? node api = some held →
    ∃ provider, written.member? api = some provider ∧ KeepsProvider document held provider

/-- What is kept of a build file: every key at the top, and what is kept of the providers. Only
fields that may be absent are added. -/
structure KeepsKeys (document : Document) (written : Value) : Prop where
  textKeys : document.TextKeys document.root
  kept : ∀ name, (document.member? document.root name).isSome → (written.member? name).isSome
  added : ∀ name value, written.member? name = some value →
    document.member? document.root name = none →
      (name = "docker_image" ∨ name = "conda_env") ∧ value = .null ∨
        name = "providers" ∧ value = .mapping []
  providers : ∀ held, document.member? document.root "providers" = some held →
    ∃ providers, written.member? "providers" = some providers ∧
      KeepsProviders document held providers

variable {document : Document} {node : Node}

/-- A rewritten configuration has the keys that it had. -/
theorem keepsConfig {before after : Provider} {held : Node}
    (hloaded : document.Denotes held before.config) (hdiffers : before.DiffersInValues after) :
    KeepsConfig document held after.config := by
  refine ⟨before.config, hloaded, Document.contents_of_denotes hloaded, ?_, ?_⟩
  · rcases hdiffers with rfl | ⟨settings, changed, hconfig, hkeys, rfl⟩
    · rfl
    · rw [hconfig]
      exact hkeys
  · intro hplain
    rcases hdiffers with rfl | ⟨settings, changed, hconfig, -, -⟩
    · rfl
    · exact absurd hconfig (hplain settings)

theorem keepsProvider {before after : Provider} (hloaded : before.LoadedFrom document node)
    (hdiffers : before.DiffersInValues after) :
    KeepsProvider document node after.toValue := by
  have hsame : after.providerId = before.providerId := by
    rcases hdiffers with rfl | ⟨settings, changed, -, -, rfl⟩ <;> rfl
  have hconfig := hloaded.config
  constructor
  case textKeys => exact hloaded.textKeys
  case keys => rfl
  case providerId =>
    obtain ⟨held, hheld, htext⟩ := hloaded.providerId
    exact ⟨held, before.providerId, hheld, htext, by rw [← hsame]; rfl⟩
  case config =>
    intro held hheld
    rw [hheld] at hconfig
    exact ⟨after.config, rfl, keepsConfig hconfig hdiffers⟩
  case added =>
    intro hmissing
    rw [hmissing] at hconfig
    rcases hdiffers with rfl | ⟨settings, changed, hmapping, -, -⟩
    · exact congrArg some hconfig
    · rw [hconfig] at hmapping
      cases hmapping

/-- A rewrite keeps every provider and what is known of it. -/
theorem keepsProviders {providers : Providers} (hloaded : providers.LoadedFrom document node)
    (replies : List (Option Value)) :
    KeepsProviders document node (providers.withReplies replies).toValue := by
  have hmissing : ∀ api, document.member? node api = none →
      (providers.withReplies replies).toValue.member? api = none := by
    intro api hmember
    have hprovider := hloaded.provider api
    have hafter := providers.withReplies_provider replies api
    simp only [hmember] at hprovider
    simp only [hprovider] at hafter
    rw [Providers.toValue, member?_mappingOf, hafter]
    rfl
  have hpresent : ∀ api held, document.member? node api = some held →
      ∃ provider, (providers.withReplies replies).toValue.member? api = some provider ∧
        KeepsProvider document held provider := by
    intro api held hmember
    have hprovider := hloaded.provider api
    have hafter := providers.withReplies_provider replies api
    simp only [hmember] at hprovider
    obtain ⟨before, hbefore, hheld⟩ := hprovider
    simp only [hbefore] at hafter
    obtain ⟨after, hafter, hdiffers⟩ := hafter
    rw [Providers.toValue, member?_mappingOf, hafter]
    exact ⟨after.toValue, rfl, keepsProvider hheld hdiffers⟩
  constructor
  case textKeys => exact hloaded.textKeys
  case apis =>
    intro api
    cases hmember : document.member? node api with
    | none => rw [hmissing api hmember]; rfl
    | some held =>
        obtain ⟨provider, hprovider, -⟩ := hpresent api held hmember
        rw [hprovider]
        rfl
  case provider => exact hpresent

theorem member?_toValue_of_known {name : String} (hname : name ∈ knownKeys) (package : Package) :
    package.toValue.member? name = some
      (if name = "built_at" then .string package.builtAt
      else if name = "package_name" then .string package.packageName
      else if name = "docker_image" then optionalText package.dockerImage
      else if name = "conda_env" then optionalText package.condaEnv
      else package.providers.toValue) := by
  simp only [knownKeys, List.mem_cons, List.not_mem_nil, or_false] at hname
  rcases hname with rfl | rfl | rfl | rfl | rfl <;> rfl

/-- A rewrite keeps the keys at the top: a known key is always written, and an unknown one if it was
loaded. -/
theorem keepsKeys {package : Package} (hloaded : package.LoadedFrom document document.root)
    (replies : List (Option Value)) :
    KeepsKeys document
      { package with providers := package.providers.withReplies replies }.toValue := by
  have hproviders := hloaded.providers
  constructor
  case textKeys => exact hloaded.textKeys
  case kept =>
    intro name hmember
    by_cases hname : name ∈ knownKeys
    · rw [member?_toValue_of_known hname]
      rfl
    · rw [member?_toValue_of_unknown hname, hloaded.extra name hname]
      exact hmember
  case added =>
    intro name value hvalue hmissing
    by_cases hname : name ∈ knownKeys
    · rw [member?_toValue_of_known hname] at hvalue
      cases hvalue
      simp only [knownKeys, List.mem_cons, List.not_mem_nil, or_false] at hname
      rcases hname with rfl | rfl | rfl | rfl | rfl
      · obtain ⟨held, hheld, -⟩ := hloaded.builtAt
        rw [hheld] at hmissing
        cases hmissing
      · obtain ⟨held, hheld, -⟩ := hloaded.packageName
        rw [hheld] at hmissing
        cases hmissing
      · exact Or.inl ⟨Or.inl rfl, congrArg optionalText (hloaded.dockerImage hmissing)⟩
      · exact Or.inl ⟨Or.inr rfl, congrArg optionalText (hloaded.condaEnv hmissing)⟩
      · rw [hmissing] at hproviders
        refine Or.inr ⟨rfl, ?_⟩
        rw [show package.providers = .empty from hproviders]
        rfl
    · rw [member?_toValue_of_unknown hname] at hvalue
      have hextra := hloaded.extra name hname
      rw [hmissing, show package.extra.get? name = some value from hvalue] at hextra
      cases hextra
  case providers =>
    intro held hheld
    rw [hheld] at hproviders
    exact ⟨_, rfl, keepsProviders hproviders replies⟩

theorem fromUTF8?_toUTF8 (text : String) : String.fromUTF8? text.toUTF8 = some text := by
  rw [String.fromUTF8?, String.toUTF8_eq_toByteArray, dif_pos text.isValidUTF8]
  rfl

theorem loadedFrom_of_ofText {text : String} {package : Package}
    (hpackage : Package.ofText text = .ok package) :
    package.LoadedFrom (Document.ofText text) (Document.ofText text).root :=
  Package.loadedFrom (Yaml.answers_of_read hpackage)

variable {host : Host}

/-- What is loaded is what the text of the file says. -/
theorem text_of_load {files : FileTree host} {path : String} {package : Package}
    (hpackage : Package.load files path = .ok package) :
    ∃ text, files.readText path = .ok text ∧ Package.ofText text = .ok package := by
  unfold Package.load at hpackage
  cases hread : files.read path with
  | error fault => rw [hread] at hpackage; cases hpackage
  | ok bytes =>
      rw [hread] at hpackage
      simp only [Package.ofBytes] at hpackage
      split at hpackage
      · cases hpackage
      · rename_i text htext
        cases hparsed : Package.ofText text with
        | error fault => rw [hparsed] at hpackage; cases hpackage
        | ok found =>
            rw [hparsed] at hpackage
            cases hpackage
            refine ⟨text, ?_, hparsed⟩
            rw [FileTree.readText, hread]
            simp only [bind, Except.bind, htext]
            rfl

/-- What is saved is the text of the package. -/
theorem text_of_save {package : Package} {files after : FileTree host} {path : String}
    (hsave : package.save files path = .ok after) :
    ∃ text, package.toValue.text = .ok text ∧ files.write path text.toUTF8 = .ok after := by
  obtain ⟨bytes, hbytes, hwrite⟩ := bind_eq_ok_iff.1 hsave
  unfold Package.bytes Package.text at hbytes
  cases htext : package.toValue.text with
  | error fault => rw [htext] at hbytes; cases hbytes
  | ok text =>
      rw [htext] at hbytes
      cases hbytes
      refine ⟨text, rfl, ?_⟩
      cases hresult : files.write path text.toUTF8 with
      | error fault => rw [hresult] at hwrite; cases hwrite
      | ok written =>
          rw [hresult] at hwrite
          cases hwrite
          rfl

theorem load_eq_ok_iff {files : FileTree host} {path text : String}
    (hread : files.read path = .ok text.toUTF8) {package : Package} :
    Package.load files path = .ok package ↔ Package.ofText text = .ok package := by
  rw [Package.load, hread]
  simp only [Package.ofBytes, fromUTF8?_toUTF8]
  cases Package.ofText text with
  | error fault => simp
  | ok found => simp [pure, Except.pure]

theorem save_of_write {package : Package} {files after : FileTree host} {path text : String}
    (htext : package.toValue.text = .ok text) (hwrite : files.write path text.toUTF8 = .ok after) :
    package.save files path = .ok after := by
  simp only [Package.save, Package.bytes, Package.text, htext, bind, Except.bind, pure,
    Except.pure]
  rw [hwrite]
  rfl

/-- A configuration that succeeds has loaded the file, asked for all settings and written the file
with the replies in place. -/
theorem configure_cases {files : FileTree host} {path : String} {dialogue : Dialogue}
    {written : Package}
    (hwritten : (configure prompting files path dialogue).outcome = .ok written) :
    ∃ package replies, Package.load files path = .ok package ∧
      (Dialogue.repliesTo package.providers.prompts dialogue).1 = .ok replies ∧
      written = { package with providers := package.providers.withReplies replies } ∧
      written.save files path = .ok (configure prompting files path dialogue).files := by
  unfold configure at hwritten ⊢
  cases hload : Package.load files path with
  | error failure => rw [hload] at hwritten; cases hwritten
  | ok package =>
      rw [hload] at hwritten
      simp only [prompting, Dialogue.configure] at hwritten ⊢
      cases hreplies : (Dialogue.repliesTo package.providers.prompts dialogue).1 with
      | error fault => simp [hreplies] at hwritten
      | ok replies =>
          simp only [hreplies] at hwritten ⊢
          split at hwritten
          · cases hwritten
          · rename_i after hsave
            cases hwritten
            exact ⟨package, replies, rfl, hreplies, rfl, by rw [hsave]⟩

/-- A configuration loads, asks and saves. -/
theorem configure_of_answers {files after : FileTree host} {path : String} {dialogue : Dialogue}
    {package : Package} {providers : Providers} (hload : Package.load files path = .ok package)
    (hasked : (dialogue.configure package.providers).1 = .ok providers)
    (hsave : Package.save { package with providers } files path = .ok after) :
    (configure prompting files path dialogue).outcome = .ok { package with providers } ∧
      (configure prompting files path dialogue).files = after := by
  rw [configure, hload]
  simp only [prompting]
  cases hdialogue : dialogue.configure package.providers with
  | mk found rest =>
      rw [hdialogue] at hasked
      simp only at hasked
      simp only [hasked, hsave]
      constructor <;> trivial

/-- A build file whose provider has a note. -/
def notedText : String :=
  "built_at: x\npackage_name: p\nproviders:\n  inference:\n    provider_id: r\n    note: keep\n" ++
    "    config:\n      a: 1\n"

/-- The file once no setting was answered. -/
def renotedText : String :=
  "built_at: x\npackage_name: p\ndocker_image: null\nconda_env: null\nproviders:\n" ++
    "  inference:\n    provider_id: r\n    config:\n      a: 1\n"

def notedPackage : Package where
  builtAt := "x"
  packageName := "p"
  providers := .ofList [("inference",
    { providerId := "r", config := .mapping [(.string "a", .number (.whole (.ofInt64 1)))] })]

/-- The keys of the provider of an API, as a text has them. -/
def providerKeys (text api : String) : List String :=
  let document := Document.ofText text
  let provider := document.member? document.root "providers" >>= (document.member? · api)
  (provider.map fun node => (document.named (document.entries node)).map (·.1)).getD []

def singleFile (text : String) : FileTree :=
  ⟨SortedMap.ofList [("b.yaml", text.toUTF8)]⟩

theorem locate_singleFile (text : String) :
    (singleFile text).locate "b.yaml" = .ok ["b.yaml", "work"] := by
  have hnames : ("b.yaml".toList.splitOn '/').map String.ofList = ["b.yaml"] := by decide
  have hstart : ({} : Host).startOf "b.yaml" = ["work"] := by decide +kernel
  rw [FileTree.locate_of_names (by decide) hnames, hstart]
  rfl

theorem entry_singleFile (text : String) :
    (singleFile text).entry ["b.yaml", "work"] = .file text.toUTF8 := rfl

theorem read_singleFile (text : String) : (singleFile text).read "b.yaml" = .ok text.toUTF8 := by
  rw [FileTree.read, locate_singleFile]
  simp only [bind, Except.bind, entry_singleFile]
  rfl

theorem write_singleFile (before after : String) :
    (singleFile before).write "b.yaml" after.toUTF8 = .ok (singleFile after) := by
  have hname : String.ofList ("b.yaml".toList.reverse.dropWhile (· = '/')).reverse = "b.yaml" := by
    decide
  have hinsert : (singleFile before).files.insert "b.yaml" after.toUTF8 =
      (singleFile after).files := by
    simp [singleFile, SortedMap.insert, SortedMap.ofList, insertEntries, insertEntry]
  rw [FileTree.write, hname, locate_singleFile]
  simp only [bind, Except.bind]
  rw [if_neg (by decide), entry_singleFile]
  exact congrArg (fun files => Except.ok (FileTree.mk files)) hinsert

theorem readText_singleFile (text : String) :
    (singleFile text).readText "b.yaml" = .ok text := by
  rw [FileTree.readText, read_singleFile]
  simp only [bind, Except.bind, fromUTF8?_toUTF8]
  rfl

theorem ofText_noted : Package.ofText notedText = .ok notedPackage := by decide +kernel

theorem text_noted : notedPackage.toValue.text = .ok renotedText := by decide +kernel

/-- Configuring the file without an answer, wherever it is. -/
theorem configure_noted {files after : FileTree host} {path : String}
    (hread : files.read path = .ok notedText.toUTF8)
    (hwrite : files.write path renotedText.toUTF8 = .ok after) :
    (configure prompting files path { unread := [] }).outcome = .ok notedPackage ∧
      (configure prompting files path { unread := [] }).files = after := by
  have hasked : (Dialogue.configure { unread := [] } notedPackage.providers).1 =
      .ok notedPackage.providers := by
    decide +kernel
  exact configure_of_answers ((load_eq_ok_iff hread).2 ofText_noted) hasked
    (save_of_write text_noted hwrite)

theorem configure_singleFile :
    (configure prompting (singleFile notedText) "b.yaml" { unread := [] }).outcome =
        .ok notedPackage ∧
      (configure prompting (singleFile notedText) "b.yaml" { unread := [] }).files =
        singleFile renotedText :=
  configure_noted (read_singleFile notedText) (write_singleFile notedText renotedText)

/-- A rewrite writes a document that has every key of the one before at the top, every API and every
setting of its provider; nothing is added but what may be absent. All values are those that were
loaded, except that each setting takes the reply to its question, if there is one. -/
theorem rewrite_keeps_known_keys {files : FileTree host} {path : String} {dialogue : Dialogue}
    {written : Package}
    (hwritten : (configure prompting files path dialogue).outcome = .ok written) :
    ∃ text package replies,
      files.readText path = .ok text ∧ Package.ofText text = .ok package ∧
      (Dialogue.repliesTo package.providers.prompts dialogue).1 = .ok replies ∧
      (∃ after, written.toValue.text = .ok after ∧
        files.write path after.toUTF8 = .ok (configure prompting files path dialogue).files) ∧
      KeepsKeys (Document.ofText text) written.toValue ∧
      written = { package with providers := written.providers } ∧
      (∀ api, match package.providers.get? api with
        | none => written.providers.get? api = none
        | some before => ∃ after, written.providers.get? api = some after ∧
            before.DiffersInValues after) ∧
      replies.length = package.providers.settings.length ∧
      written.providers.settings =
        List.zipWith answered package.providers.settings replies := by
  obtain ⟨package, replies, hload, hreplies, rfl, hsave⟩ := configure_cases hwritten
  obtain ⟨text, hread, hpackage⟩ := text_of_load hload
  have hlength : replies.length = package.providers.settings.length := by
    rw [length_of_repliesTo hreplies, countP_prompts]
  exact ⟨text, package, replies, hread, hpackage, hreplies, text_of_save hsave,
    keepsKeys (loadedFrom_of_ofText hpackage) replies, rfl,
    package.providers.withReplies_provider replies, hlength,
    Providers.settings_withReplies (Nat.le_of_eq hlength.symm)⟩

/-- The general statement at the file with a note. -/
theorem noted_keeps_known_keys :
    (configure prompting (singleFile notedText) "b.yaml" { unread := [] }).outcome =
        .ok notedPackage ∧
      ∃ text, (singleFile notedText).readText "b.yaml" = .ok text ∧
        KeepsKeys (Document.ofText text) notedPackage.toValue := by
  obtain ⟨text, -, -, hread, -, -, -, hkeeps, -⟩ := rewrite_keeps_known_keys configure_singleFile.1
  exact ⟨configure_singleFile.1, text, hread, hkeeps⟩

/-- The note is in the file before the rewrite and not in the one after it. -/
theorem rewrite_loses_note :
    let rewritten := configure prompting (singleFile notedText) "b.yaml" { unread := [] }
    rewritten.outcome = .ok notedPackage ∧
      (singleFile notedText).readText "b.yaml" = .ok notedText ∧
      rewritten.files.readText "b.yaml" = .ok renotedText ∧
      providerKeys notedText "inference" = ["provider_id", "note", "config"] ∧
      providerKeys renotedText "inference" = ["provider_id", "config"] := by
  refine ⟨configure_singleFile.1, ?_, ?_, ?_, ?_⟩
  · exact readText_singleFile notedText
  · rw [configure_singleFile.2]
    exact readText_singleFile renotedText
  · decide +kernel
  · decide +kernel

end Build

end StackBridge
