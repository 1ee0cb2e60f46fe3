/-
What a build file is loaded as. Every key at the top is loaded, and so is every API; of a provider
the identifier and the settings are loaded, and nothing is said about its other keys.
-/
import StackBridge.Build.Package
import StackBridge.Proofs.DocumentReading

namespace StackBridge.Build

open StackBridge.Yaml (Value Node Path Document Taking)

/-- A field is taken if it has not been given before and its value can be read. -/
theorem answers_takeField {α : Type} {name : String} {before after : Option α} {taking : Taking α}
    (hafter : (takeField name before taking).Answers after) :
    before = none ∧ ∃ value, after = some value ∧ taking.Answers value := by
  unfold takeField at hafter
  cases before with
  | some held => exact absurd hafter (Taking.not_answers_refuse _)
  | none =>
      obtain ⟨value, hvalue, rfl⟩ := hafter.of_map
      exact ⟨rfl, value, rfl, hvalue⟩

theorem answers_requireField {α : Type} {name : String} {held : Option α} {value : α}
    (hvalue : (requireField name held).Answers value) : held = some value := by
  cases held with
  | none => exact absurd hvalue (Taking.not_answers_refuse _)
  | some found => rw [hvalue.of_pure]

/-- What of a provider's entry is loaded. -/
structure Provider.LoadedFrom (document : Document) (node : Node) (provider : Provider) :
    Prop where
  textKeys : document.TextKeys node
  providerId : ∃ held, document.member? node "provider_id" = some held ∧
    document.text? held = some provider.providerId
  config : match document.member? node "config" with
    | none => provider.config = .null
    | some held => document.Denotes held provider.config

variable {document : Document} {depth : Nat} {path : Path} {entry : Node × Node}

/-- One entry of a provider fills the slot of its key, and no slot if its key is not known. -/
theorem ProviderFields.take_cases {fields next : ProviderFields}
    (hnext : (ProviderFields.take document depth path fields entry).Answers next) :
    ∃ name, document.text? entry.1 = some name ∧
      (name = "provider_id" ∧ fields.providerId = none ∧
          (∃ text, document.text? entry.2 = some text ∧
            next = { fields with providerId := some text }) ∨
        name = "config" ∧ fields.config = none ∧
          (∃ value, document.Denotes entry.2 value ∧
            next = { fields with config := some value }) ∨
        name ≠ "provider_id" ∧ name ≠ "config" ∧ next = fields) := by
  obtain ⟨name, hname, hrest⟩ := hnext.bind
  refine ⟨name, Document.text?_of_takeText hname, ?_⟩
  simp only at hrest
  split at hrest
  case isTrue hid =>
    obtain ⟨after, hafter, hrest⟩ := hrest.bind
    obtain ⟨hempty, text, rfl, htext⟩ := answers_takeField hafter
    exact Or.inl ⟨hid, hempty, text, Document.text?_of_takeText htext, hrest.of_pure⟩
  case isFalse hid =>
    split at hrest
    case isTrue hconfig =>
      obtain ⟨after, hafter, hrest⟩ := hrest.bind
      obtain ⟨hempty, value, rfl, hvalue⟩ := answers_takeField hafter
      exact Or.inr (Or.inl ⟨hconfig, hempty, value, ⟨depth, false, _, hvalue⟩, hrest.of_pure⟩)
    case isFalse hconfig =>
      obtain ⟨unused, -, hrest⟩ := hrest.bind
      exact Or.inr (Or.inr ⟨hid, hconfig, hrest.of_pure⟩)

theorem fillsSlot_providerId {fields next : ProviderFields}
    (hnext : (ProviderFields.take document depth path fields entry).Answers next) :
    document.FillsSlot ProviderFields.providerId "provider_id"
      (fun node text => document.text? node = some text) fields entry next := by
  obtain ⟨name, hname, ⟨rfl, hempty, text, htext, rfl⟩ | ⟨rfl, hempty, value, hvalue, rfl⟩ |
    ⟨hid, hconfig, rfl⟩⟩ := ProviderFields.take_cases hnext
  · exact ⟨_, hname, by simp [hempty, htext]⟩
  · exact ⟨_, hname, by simp⟩
  · exact ⟨_, hname, by simp [hid]⟩

theorem fillsSlot_config {fields next : ProviderFields}
    (hnext : (ProviderFields.take document depth path fields entry).Answers next) :
    document.FillsSlot ProviderFields.config "config" document.Denotes fields entry next := by
  obtain ⟨name, hname, ⟨rfl, hempty, text, htext, rfl⟩ | ⟨rfl, hempty, value, hvalue, rfl⟩ |
    ⟨hid, hconfig, rfl⟩⟩ := ProviderFields.take_cases hnext
  · exact ⟨_, hname, by simp⟩
  · exact ⟨_, hname, by simp [hempty, hvalue]⟩
  · exact ⟨_, hname, by simp [hconfig]⟩

/-- A provider is loaded from the entries of its mapping. -/
theorem Provider.loadedFrom {node : Node} {provider : Provider}
    (hprovider : (takeProvider document depth path node).Answers provider) :
    provider.LoadedFrom document node := by
  obtain ⟨below, inside, hbody⟩ := Document.body_of_takeMapping hprovider
  obtain ⟨fields, hfields, hrest⟩ := hbody.bind
  obtain ⟨providerId, hid, hrest⟩ := hrest.bind
  cases hrest.of_pure
  have hid := answers_requireField hid
  constructor
  · refine Document.text?_isSome_of_foldlM (fun state entry next hnext => ?_) hfields
    obtain ⟨name, hname, -⟩ := ProviderFields.take_cases hnext
    exact ⟨name, hname⟩
  · have hslot := (Document.slot_of_foldlM (fun _ _ _ => fillsSlot_providerId) hfields).2 rfl
    rw [hid] at hslot
    exact hslot.exists_of_some
  · have hslot := (Document.slot_of_foldlM (fun _ _ _ => fillsSlot_config) hfields).2 rfl
    rw [Document.member?]
    cases hfound : (document.named (document.entries node)).reverse.lookup "config" with
    | none =>
        rw [hfound] at hslot
        rw [show fields.config = none from hslot]
        rfl
    | some held =>
        rw [hfound] at hslot
        obtain ⟨value, hvalue, hdenotes⟩ := hslot
        rw [hvalue]
        exact hdenotes

/-- What of a mapping of providers is loaded: of each API the last entry. -/
structure Providers.LoadedFrom (document : Document) (node : Node) (providers : Providers) :
    Prop where
  textKeys : document.TextKeys node
  provider : ∀ api, match document.member? node api with
    | none => providers.get? api = none
    | some held => ∃ provider, providers.get? api = some provider ∧
        provider.LoadedFrom document held

def takeProviderEntry (document : Document) (depth : Nat) (path : Path) (providers : Providers)
    (entry : Node × Node) : Taking Providers := do
  let api ← document.takeText "a string" path entry.1
  return providers.insert api (← takeProvider document depth (path.under entry.1) entry.2)

theorem takeProviderEntry_cases {providers next : Providers}
    (hnext : (takeProviderEntry document depth path providers entry).Answers next) :
    ∃ api provider, document.text? entry.1 = some api ∧
      provider.LoadedFrom document entry.2 ∧ next = providers.insert api provider := by
  obtain ⟨api, hapi, hrest⟩ := hnext.bind
  obtain ⟨provider, hprovider, hrest⟩ := hrest.bind
  exact ⟨api, provider, Document.text?_of_takeText hapi, Provider.loadedFrom hprovider,
    hrest.of_pure⟩

/-- Of the entries about an API the last one counts, and without any the API keeps what it had. -/
theorem lookup_of_foldlM_takeProviderEntry {items : List (Node × Node)} {start last : Providers}
    (hlast : (items.foldlM (takeProviderEntry document depth path) start).Answers last)
    (api : String) :
    match (document.named items).reverse.lookup api with
    | none => last.get? api = start.get? api
    | some held => ∃ provider, last.get? api = some provider ∧
        provider.LoadedFrom document held := by
  induction items generalizing start with
  | nil => rw [hlast.of_pure]; rfl
  | cons first rest ih =>
      rw [List.foldlM_cons] at hlast
      obtain ⟨next, hnext, hrest⟩ := hlast.bind
      obtain ⟨name, provider, hname, hprovider, rfl⟩ := takeProviderEntry_cases hnext
      have hbehind := ih hrest
      rw [Document.named_cons hname, List.reverse_cons, List.lookup_append, lookup_cons,
        List.lookup_nil]
      cases hfound : (document.named rest).reverse.lookup api with
      | some held => simpa [hfound] using hbehind
      | none =>
          simp only [hfound] at hbehind
          rw [SortedMap.get?_eq_lookup (start.insert name provider), SortedMap.insert,
            lookup_insertEntry] at hbehind
          rw [Option.none_or]
          by_cases hapi : api = name
          · rw [if_pos hapi] at hbehind ⊢
            exact ⟨provider, hbehind, hprovider⟩
          · rw [if_neg hapi] at hbehind ⊢
            rw [SortedMap.get?_eq_lookup start]
            exact hbehind

theorem Providers.loadedFrom {node : Node} {providers : Providers}
    (hproviders : (takeProviders document depth path node).Answers providers) :
    providers.LoadedFrom document node := by
  obtain ⟨below, inside, hbody⟩ := Document.body_of_takeMapping hproviders
  change (List.foldlM (takeProviderEntry document below inside) _ _).Answers _ at hbody
  constructor
  · refine Document.text?_isSome_of_foldlM (fun state entry next hnext => ?_) hbody
    obtain ⟨api, provider, hapi, -⟩ := takeProviderEntry_cases hnext
    exact ⟨api, hapi⟩
  · exact lookup_of_foldlM_takeProviderEntry hbody

/-- The keys at the top that have a meaning. -/
def knownKeys : List String :=
  ["built_at", "package_name", "docker_image", "conda_env", "providers"]

/-- What of a build file is loaded. -/
structure Package.LoadedFrom (document : Document) (node : Node) (package : Package) : Prop where
  textKeys : document.TextKeys node
  builtAt : ∃ held, document.member? node "built_at" = some held ∧
    document.text? held = some package.builtAt
  packageName : ∃ held, document.member? node "package_name" = some held ∧
    document.text? held = some package.packageName
  dockerImage : document.member? node "docker_image" = none → package.dockerImage = none
  condaEnv : document.member? node "conda_env" = none → package.condaEnv = none
  providers : match document.member? node "providers" with
    | none => package.providers = .empty
    | some held => package.providers.LoadedFrom document held
  extra : ∀ name ∉ knownKeys,
    (package.extra.get? name).isSome = (document.member? node name).isSome

/-- The slot that a known key fills, and what fills it. -/
theorem PackageFields.take_cases {fields next : PackageFields}
    (hnext : (PackageFields.take document depth path fields entry).Answers next) :
    ∃ name, document.text? entry.1 = some name ∧
      (name = "built_at" ∧ fields.builtAt = none ∧
          (∃ text, document.text? entry.2 = some text ∧
            next = { fields with builtAt := some text }) ∨
        name = "package_name" ∧ fields.packageName = none ∧
          (∃ text, document.text? entry.2 = some text ∧
            next = { fields with packageName := some text }) ∨
        name = "docker_image" ∧ fields.dockerImage = none ∧
          (∃ text, next = { fields with dockerImage := some text }) ∨
        name = "conda_env" ∧ fields.condaEnv = none ∧
          (∃ text, next = { fields with condaEnv := some text }) ∨
        name = "providers" ∧ fields.providers = none ∧
          (∃ providers : Providers, providers.LoadedFrom document entry.2 ∧
            next = { fields with providers := some providers }) ∨
        name ∉ knownKeys ∧
          ∃ value, next = { fields with extra := fields.extra ++ [(name, value)] }) := by
  obtain ⟨name, hname, hrest⟩ := hnext.bind
  refine ⟨name, Document.text?_of_takeText hname, ?_⟩
  simp only at hrest
  split at hrest
  case isTrue hkey =>
    obtain ⟨after, hafter, hrest⟩ := hrest.bind
    obtain ⟨hempty, text, rfl, htext⟩ := answers_takeField hafter
    exact Or.inl ⟨hkey, hempty, text, Document.text?_of_takeText htext, hrest.of_pure⟩
  case isFalse hbuiltAt =>
  refine Or.inr ?_
  split at hrest
  case isTrue hkey =>
    obtain ⟨after, hafter, hrest⟩ := hrest.bind
    obtain ⟨hempty, text, rfl, htext⟩ := answers_takeField hafter
    exact Or.inl ⟨hkey, hempty, text, Document.text?_of_takeText htext, hrest.of_pure⟩
  case isFalse hpackageName =>
  refine Or.inr ?_
  split at hrest
  case isTrue hkey =>
    obtain ⟨after, hafter, hrest⟩ := hrest.bind
    obtain ⟨hempty, text, rfl, -⟩ := answers_takeField hafter
    exact Or.inl ⟨hkey, hempty, text, hrest.of_pure⟩
  case isFalse hdockerImage =>
  refine Or.inr ?_
  split at hrest
  case isTrue hkey =>
    obtain ⟨after, hafter, hrest⟩ := hrest.bind
    obtain ⟨hempty, text, rfl, -⟩ := answers_takeField hafter
    exact Or.inl ⟨hkey, hempty, text, hrest.of_pure⟩
  case isFalse hcondaEnv =>
  refine Or.inr ?_
  split at hrest
  case isTrue hkey =>
    obtain ⟨after, hafter, hrest⟩ := hrest.bind
    obtain ⟨hempty, providers, rfl, hproviders⟩ := answers_takeField hafter
    exact Or.inl ⟨hkey, hempty, providers, Providers.loadedFrom hproviders, hrest.of_pure⟩
  case isFalse hproviders =>
    obtain ⟨value, -, hrest⟩ := hrest.bind
    refine Or.inr ⟨?_, value, hrest.of_pure⟩
    simp [knownKeys, hbuiltAt, hpackageName, hdockerImage, hcondaEnv, hproviders]

/-- Each known key fills its own slot. -/
structure PackageFields.FillsSlots (document : Document) (fields : PackageFields)
    (entry : Node × Node) (next : PackageFields) : Prop where
  builtAt : document.FillsSlot PackageFields.builtAt "built_at"
    (fun node text => document.text? node = some text) fields entry next
  packageName : document.FillsSlot PackageFields.packageName "package_name"
    (fun node text => document.text? node = some text) fields entry next
  dockerImage : document.FillsSlot PackageFields.dockerImage "docker_image"
    (fun _ _ => True) fields entry next
  condaEnv : document.FillsSlot PackageFields.condaEnv "conda_env"
    (fun _ _ => True) fields entry next
  providers : document.FillsSlot PackageFields.providers "providers"
    (fun node providers => providers.LoadedFrom document node) fields entry next

/-- An entry fills the slot of its key and leaves the other slots alone. -/
theorem PackageFields.fillsSlots {fields next : PackageFields}
    (hnext : (PackageFields.take document depth path fields entry).Answers next) :
    fields.FillsSlots document entry next := by
  obtain ⟨name, hname, hcases⟩ := PackageFields.take_cases hnext
  rcases hcases with ⟨rfl, hempty, text, htext, rfl⟩ | ⟨rfl, hempty, text, htext, rfl⟩ |
    ⟨rfl, hempty, text, rfl⟩ | ⟨rfl, hempty, text, rfl⟩ | ⟨rfl, hempty, providers, hloaded, rfl⟩ |
    ⟨hunknown, value, rfl⟩
  case inl => constructor <;> exact ⟨_, hname, by simp [hempty, htext]⟩
  case inr.inl => constructor <;> exact ⟨_, hname, by simp [hempty, htext]⟩
  case inr.inr.inl => constructor <;> exact ⟨_, hname, by simp [hempty]⟩
  case inr.inr.inr.inl => constructor <;> exact ⟨_, hname, by simp [hempty]⟩
  case inr.inr.inr.inr.inl => constructor <;> exact ⟨_, hname, by simp [hempty, hloaded]⟩
  case inr.inr.inr.inr.inr =>
    simp only [knownKeys, List.mem_cons, List.not_mem_nil, or_false, not_or] at hunknown
    constructor <;> exact ⟨_, hname, by simp [hunknown]⟩

/-- The keys that are not known, in the order of the file. -/
theorem mem_extra_of_foldlM {items : List (Node × Node)} {start last : PackageFields}
    (hlast : (items.foldlM (PackageFields.take document depth path) start).Answers last)
    {name : String} (hname : name ∉ knownKeys) :
    name ∈ last.extra.map (·.1) ↔
      name ∈ start.extra.map (·.1) ∨ ((document.named items).reverse.lookup name).isSome := by
  induction items generalizing start with
  | nil => rw [hlast.of_pure]; simp [Document.named]
  | cons first rest ih =>
      rw [List.foldlM_cons] at hlast
      obtain ⟨next, hnext, hrest⟩ := hlast.bind
      obtain ⟨found, hfound, hcases⟩ := PackageFields.take_cases hnext
      have hmore : name ∈ next.extra.map (·.1) ↔ name ∈ start.extra.map (·.1) ∨ name = found := by
        have hdiffers := hname
        simp only [knownKeys, List.mem_cons, List.not_mem_nil, or_false, not_or] at hdiffers
        rcases hcases with ⟨rfl, -, text, -, rfl⟩ | ⟨rfl, -, text, -, rfl⟩ | ⟨rfl, -, text, rfl⟩ |
          ⟨rfl, -, text, rfl⟩ | ⟨rfl, -, providers, -, rfl⟩ | ⟨-, value, rfl⟩
        case inr.inr.inr.inr.inr => simp [eq_comm]
        all_goals simp [hdiffers]
      rw [ih hrest, hmore, Document.named_cons hfound, List.reverse_cons, List.lookup_append,
        lookup_cons, List.lookup_nil]
      by_cases hsame : name = found
      · simp [hsame]
      · simp [hsame]

/-- A package is loaded from the entries of its document, those with unknown keys included. -/
theorem Package.loadedFrom {node : Node} {package : Package}
    (hpackage : (takePackage document depth path node).Answers package) :
    package.LoadedFrom document node := by
  obtain ⟨below, inside, hbody⟩ := Document.body_of_takeMapping hpackage
  obtain ⟨fields, hfields, hrest⟩ := hbody.bind
  obtain ⟨builtAt, hbuiltAt, hrest⟩ := hrest.bind
  obtain ⟨packageName, hpackageName, hrest⟩ := hrest.bind
  have hbuiltAt := answers_requireField hbuiltAt
  have hpackageName := answers_requireField hpackageName
  split at hrest
  case h_1 => exact absurd hrest (Taking.not_answers_refuse _)
  case h_2 hunique =>
    cases hrest.of_pure
    constructor
    case textKeys =>
      refine Document.text?_isSome_of_foldlM (fun state entry next hnext => ?_) hfields
      obtain ⟨name, hname, -⟩ := PackageFields.take_cases hnext
      exact ⟨name, hname⟩
    case builtAt =>
      have hslot := (Document.slot_of_foldlM
        (fun _ _ _ hnext => (PackageFields.fillsSlots hnext).builtAt) hfields).2 rfl
      rw [hbuiltAt] at hslot
      exact hslot.exists_of_some
    case packageName =>
      have hslot := (Document.slot_of_foldlM
        (fun _ _ _ hnext => (PackageFields.fillsSlots hnext).packageName) hfields).2 rfl
      rw [hpackageName] at hslot
      exact hslot.exists_of_some
    case dockerImage =>
      have hslot := (Document.slot_of_foldlM
        (fun _ _ _ hnext => (PackageFields.fillsSlots hnext).dockerImage) hfields).2 rfl
      intro hmissing
      rw [← Document.member?, hmissing] at hslot
      rw [show fields.dockerImage = none from hslot]
      rfl
    case condaEnv =>
      have hslot := (Document.slot_of_foldlM
        (fun _ _ _ hnext => (PackageFields.fillsSlots hnext).condaEnv) hfields).2 rfl
      intro hmissing
      rw [← Document.member?, hmissing] at hslot
      rw [show fields.condaEnv = none from hslot]
      rfl
    case providers =>
      have hslot := (Document.slot_of_foldlM
        (fun _ _ _ hnext => (PackageFields.fillsSlots hnext).providers) hfields).2 rfl
      rw [← Document.member?] at hslot
      cases hfound : document.member? node "providers" with
      | none =>
          rw [hfound] at hslot
          rw [show fields.providers = none from hslot]
          rfl
      | some held =>
          rw [hfound] at hslot
          obtain ⟨providers, hproviders, hloaded⟩ := hslot
          rw [hproviders]
          exact hloaded
    case extra =>
      intro name hname
      have hmem := mem_extra_of_foldlM hfields hname
      rw [SortedMap.get?_ofList_eq_lookup, Document.member?, Bool.eq_iff_iff, isSome_lookup_iff,
        List.map_reverse, List.mem_reverse, hmem]
      simp

end StackBridge.Build
