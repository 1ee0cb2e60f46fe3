/-
Reading a build file from the tree that shows it. The known keys fill their slots, each provider is
put in its place, and what is not known is put aside, so that the package comes back as it was.
-/
import StackBridge.Proofs.BuildFile
import StackBridge.Proofs.ShownValues

namespace StackBridge.Build

open StackBridge.Yaml (Value Node Path Document Taking Mark Properties ScalarStyle)
open StackBridge.Yaml.Taking (yields_pure)

variable {document : Document} {node : Node} {path : Path} {depth : Nat}

theorem yields_takeText (wanted text : String) {mark : Mark} {properties : Properties}
    {style : ScalarStyle} :
    (document.takeText wanted path (.scalar mark properties text style)).Yields text :=
  fun _ => rfl

theorem yields_takeOptionalText (wanted : String) (text : Option String)
    (hshows : (optionalText text).Shows none node) :
    (document.takeOptionalText wanted path node).Yields text := by
  cases text with
  | none =>
      obtain ⟨mark, rfl⟩ := hshows
      exact fun _ => rfl
  | some text =>
      obtain ⟨mark, rfl⟩ := hshows
      cases hstyle : Yaml.styleOf text with
      | plain =>
          have htext := Yaml.not_nothing_of_styleOf hstyle
          unfold Document.takeOptionalText
          simp only [Document.settle, pure_bind, if_neg htext]
          exact yields_pure (some text)
      | _ => exact fun _ => rfl

theorem yields_takeMapping {α : Type} (wanted : String) {mark : Mark} {properties : Properties}
    {nodes : List (Node × Node)} {body : Nat → Path → List (Node × Node) → Taking α} {value : α}
    (hbody : (body depth path nodes).Yields value) :
    (document.takeMapping wanted (depth + 1) path (.mapping mark properties nodes) body).Yields
      value :=
  hbody.placedAt mark path

theorem yields_takeField {α : Type} (name : String) {taking : Taking α} {value : α}
    (hvalue : taking.Yields value) : (takeField name none taking).Yields (some value) :=
  hvalue.map some

namespace ProviderFields

variable {fields : ProviderFields} {keyMark mark : Mark} {properties : Properties}
  {keyStyle style : ScalarStyle}

theorem yields_providerId (text : String) (hempty : fields.providerId = none) :
    (take document depth path fields
      (.scalar keyMark .none "provider_id" keyStyle, .scalar mark properties text style)).Yields
        { fields with providerId := some text } := by
  refine (yields_takeText _ _).bind ?_
  rw [if_pos rfl, hempty]
  exact (yields_takeField _ (yields_takeText _ _)).bind (yields_pure _)

theorem yields_config {value : Value} (hvalue : value.Readable Yaml.TagReadsBack depth)
    (hshows : value.Shows none node) (hempty : fields.config = none) :
    (take document depth path fields (.scalar keyMark .none "config" keyStyle, node)).Yields
      { fields with config := some value } := by
  refine (yields_takeText _ _).bind ?_
  rw [if_neg (by decide), if_pos rfl, hempty]
  exact (yields_takeField _ (Document.yields_free hvalue _ hshows)).bind (yields_pure _)

end ProviderFields

/-- A provider is read back from the node that shows it. -/
theorem yields_takeProvider {provider : Provider}
    (hconfig : provider.config.Readable Yaml.TagReadsBack depth)
    (hshows : provider.toValue.Shows none node) :
    (takeProvider document (depth + 1) path node).Yields provider := by
  obtain ⟨mark, nodes, rfl, hentries⟩ := hshows
  obtain ⟨_, idNode, _, rfl, ⟨idKeyMark, rfl⟩, ⟨idMark, rfl⟩, hentries⟩ := hentries
  obtain ⟨_, configNode, _, rfl, ⟨configKeyMark, rfl⟩, hconfigNode, rfl⟩ := hentries
  apply yields_takeMapping
  refine Taking.Yields.bind
    (show Taking.Yields _ (⟨some provider.providerId, some provider.config⟩ : ProviderFields) from
      Taking.yields_foldlM_cons (ProviderFields.yields_providerId _ rfl)
        (Taking.yields_foldlM_cons (ProviderFields.yields_config hconfig hconfigNode rfl)
          (yields_pure _)))
    ((yields_pure _).bind (yields_pure _))

/-- Providers are read back entry by entry. Their names ascend, so each is put behind those before
it. -/
theorem yields_providerEntries (before : Providers) {entries : List (String × Provider)}
    {nodes : List (Node × Node)}
    (hsorted : (before.entries ++ entries).Pairwise fun left right => left.1 < right.1)
    (hconfigs : ∀ entry ∈ entries, entry.2.config.Readable Yaml.TagReadsBack depth)
    (hshows : Value.ShowsEntries (entries.map fun entry => (.string entry.1, entry.2.toValue))
      nodes) :
    ∃ after : Providers, after.entries = before.entries ++ entries ∧
      (nodes.foldlM (takeProviderEntry document (depth + 1) path) before).Yields after := by
  induction entries generalizing before nodes with
  | nil =>
      obtain rfl := hshows
      exact ⟨before, by simp, yields_pure before⟩
  | cons entry rest ih =>
      obtain ⟨_, valueNode, others, rfl, ⟨mark, rfl⟩, hvalue, hothers⟩ := hshows
      have hlast : (before.insert entry.1 entry.2).entries = before.entries ++ [entry] :=
        insertEntry_of_all_lt (fun earlier hearlier =>
          (List.pairwise_append.1 hsorted).2.2 earlier hearlier entry List.mem_cons_self) entry.2
      obtain ⟨after, hafter, hrest⟩ := ih (before.insert entry.1 entry.2)
        (by rw [hlast, List.append_assoc]; exact hsorted)
        (fun other hother => hconfigs other (List.mem_cons_of_mem entry hother)) hothers
      refine ⟨after, by rw [hafter, hlast, List.append_assoc]; rfl, ?_⟩
      refine Taking.yields_foldlM_cons ((yields_takeText _ _).bind ?_) hrest
      exact (yields_takeProvider (hconfigs entry List.mem_cons_self) hvalue).bind (yields_pure _)

theorem yields_takeProviders {providers : Providers}
    (hconfigs : ∀ entry ∈ providers.entries, entry.2.config.Readable Yaml.TagReadsBack depth)
    (hshows : providers.toValue.Shows none node) :
    (takeProviders document (depth + 2) path node).Yields providers := by
  obtain ⟨mark, nodes, rfl, hentries⟩ := hshows
  obtain ⟨after, hafter, hread⟩ :=
    yields_providerEntries .empty providers.ascending hconfigs hentries
  obtain rfl : after = providers := SortedMap.eq_of_entries hafter
  exact yields_takeMapping _ hread

namespace PackageFields

variable {fields : PackageFields} {keyMark mark : Mark} {properties : Properties}
  {keyStyle style : ScalarStyle}

theorem yields_builtAt (text : String) (hempty : fields.builtAt = none) :
    (take document depth path fields
      (.scalar keyMark .none "built_at" keyStyle, .scalar mark properties text style)).Yields
        { fields with builtAt := some text } := by
  refine (yields_takeText _ _).bind ?_
  rw [if_pos rfl, hempty]
  exact (yields_takeField _ (yields_takeText _ _)).bind (yields_pure _)

theorem yields_packageName (text : String) (hempty : fields.packageName = none) :
    (take document depth path fields
      (.scalar keyMark .none "package_name" keyStyle, .scalar mark properties text style)).Yields
        { fields with packageName := some text } := by
  refine (yields_takeText _ _).bind ?_
  rw [if_neg (by decide), if_pos rfl, hempty]
  exact (yields_takeField _ (yields_takeText _ _)).bind (yields_pure _)

theorem yields_dockerImage (text : Option String) (hempty : fields.dockerImage = none)
    (hshows : (optionalText text).Shows none node) :
    (take document depth path fields (.scalar keyMark .none "docker_image" keyStyle, node)).Yields
      { fields with dockerImage := some text } := by
  refine (yields_takeText _ _).bind ?_
  rw [if_neg (by decide), if_neg (by decide), if_pos rfl, hempty]
  exact (yields_takeField _ (yields_takeOptionalText _ text hshows)).bind (yields_pure _)

theorem yields_condaEnv (text : Option String) (hempty : fields.condaEnv = none)
    (hshows : (optionalText text).Shows none node) :
    (take document depth path fields (.scalar keyMark .none "conda_env" keyStyle, node)).Yields
      { fields with condaEnv := some text } := by
  refine (yields_takeText _ _).bind ?_
  rw [if_neg (by decide), if_neg (by decide), if_neg (by decide), if_pos rfl, hempty]
  exact (yields_takeField _ (yields_takeOptionalText _ text hshows)).bind (yields_pure _)

theorem yields_providers {providers : Providers}
    (hconfigs : ∀ entry ∈ providers.entries, entry.2.config.Readable Yaml.TagReadsBack depth)
    (hempty : fields.providers = none) (hshows : providers.toValue.Shows none node) :
    (take document (depth + 2) path fields
      (.scalar keyMark .none "providers" keyStyle, node)).Yields
        { fields with providers := some providers } := by
  refine (yields_takeText _ _).bind ?_
  rw [if_neg (by decide), if_neg (by decide), if_neg (by decide), if_neg (by decide), if_pos rfl,
    hempty]
  exact (yields_takeField _ (yields_takeProviders hconfigs hshows)).bind (yields_pure _)

theorem yields_unknown {name : String} {value : Value} (hname : name ∉ knownKeys)
    (hvalue : value.Readable (fun _ => False) depth) (hshows : value.Shows none node) :
    (take document depth path fields (.scalar keyMark properties name keyStyle, node)).Yields
      { fields with extra := fields.extra ++ [(name, value)] } := by
  simp only [knownKeys, List.mem_cons, List.not_mem_nil, or_false, not_or] at hname
  refine (yields_takeText _ _).bind ?_
  rw [if_neg hname.1, if_neg hname.2.1, if_neg hname.2.2.1, if_neg hname.2.2.2.1,
    if_neg hname.2.2.2.2]
  exact (Document.yields_aside hvalue _ hshows).bind (yields_pure _)

theorem yields_extra {entries : List (String × Value)} {nodes : List (Node × Node)}
    (hentries : ∀ entry ∈ entries, entry.1 ∉ knownKeys ∧ entry.2.Readable (fun _ => False) depth)
    (hshows : Value.ShowsEntries (entries.map fun entry => (.string entry.1, entry.2)) nodes) :
    (nodes.foldlM (take document depth path) fields).Yields
      { fields with extra := fields.extra ++ entries } := by
  induction entries generalizing fields nodes with
  | nil =>
      obtain rfl := hshows
      rw [List.append_nil]
      exact yields_pure fields
  | cons entry rest ih =>
      obtain ⟨_, valueNode, others, rfl, ⟨mark, rfl⟩, hvalue, hothers⟩ := hshows
      obtain ⟨hentry, hrest⟩ := List.forall_mem_cons.1 hentries
      refine Taking.yields_foldlM_cons (yields_unknown hentry.1 hentry.2 hvalue) ?_
      rw [List.append_cons _ entry rest]
      exact ih hrest hothers

end PackageFields

/-- What a package needs to be read back from its text: settings that can be read, and under keys
that are not known values without tags. -/
structure Package.Readable (package : Package) : Prop where
  configs : ∀ entry ∈ package.providers.entries,
    entry.2.config.Readable Yaml.TagReadsBack (Yaml.maxDepth - 3)
  extra : ∀ entry ∈ package.extra.entries,
    entry.1 ∉ knownKeys ∧ entry.2.Readable (fun _ => False) (Yaml.maxDepth - 1)

/-- A package is read back from the node that shows it. -/
theorem yields_takePackage {package : Package} (hpackage : package.Readable)
    (hshows : package.toValue.Shows none node) :
    (takePackage document Yaml.maxDepth path node).Yields package := by
  obtain ⟨mark, nodes, rfl, hentries⟩ := hshows
  obtain ⟨_, _, _, rfl, ⟨_, rfl⟩, ⟨_, rfl⟩, hentries⟩ := hentries
  obtain ⟨_, _, _, rfl, ⟨_, rfl⟩, ⟨_, rfl⟩, hentries⟩ := hentries
  obtain ⟨_, dockerImage, _, rfl, ⟨_, rfl⟩, hdockerImage, hentries⟩ := hentries
  obtain ⟨_, condaEnv, _, rfl, ⟨_, rfl⟩, hcondaEnv, hentries⟩ := hentries
  obtain ⟨_, providers, others, rfl, ⟨_, rfl⟩, hproviders, hothers⟩ := hentries
  refine yields_takeMapping _ ?_
  refine Taking.Yields.bind (show Taking.Yields _ (⟨some package.builtAt, some package.packageName,
      some package.dockerImage, some package.condaEnv, some package.providers,
      package.extra.entries⟩ : PackageFields) from
    Taking.yields_foldlM_cons (PackageFields.yields_builtAt _ rfl)
      (Taking.yields_foldlM_cons (PackageFields.yields_packageName _ rfl)
        (Taking.yields_foldlM_cons (PackageFields.yields_dockerImage _ rfl hdockerImage)
          (Taking.yields_foldlM_cons (PackageFields.yields_condaEnv _ rfl hcondaEnv)
            (Taking.yields_foldlM_cons
              (PackageFields.yields_providers hpackage.configs rfl hproviders)
              (PackageFields.yields_extra hpackage.extra hothers)))))) ?_
  have hunique : package.extra.entries.findSome? (·.2.repeatedKey?) = none := by
    rw [List.findSome?_eq_none_iff]
    exact fun entry hentry => (hpackage.extra entry hentry).2.unique
  refine (yields_pure _).bind ((yields_pure _).bind ?_)
  simp only [hunique]
  rw [SortedMap.ofList_entries]
  exact yields_pure package

end StackBridge.Build
