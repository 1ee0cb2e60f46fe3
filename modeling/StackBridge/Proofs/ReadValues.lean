/-
What holds of every value that was read: it has no more levels than the reader allows, no mapping
within it repeats a key, and what was put aside has no tags. Replies do not change the keys of the
settings, so these stay apart.
-/
import StackBridge.Proofs.Settings
import StackBridge.Proofs.ShownPackages

namespace StackBridge.Yaml

namespace Value

theorem depthOfItems_le {depth : Nat} {items : List Value} :
    depthOfItems items ≤ depth ↔ ∀ item ∈ items, item.depth ≤ depth := by
  induction items with
  | nil => simp [depthOfItems]
  | cons item rest ih => rw [depthOfItems, Nat.max_le, ih, List.forall_mem_cons]

theorem depthOfEntries_le {depth : Nat} {entries : List (Value × Value)} :
    depthOfEntries entries ≤ depth ↔
      ∀ entry ∈ entries, entry.1.depth ≤ depth ∧ entry.2.depth ≤ depth := by
  induction entries with
  | nil => simp [depthOfEntries]
  | cons entry rest ih =>
      rw [depthOfEntries, Nat.max_le, Nat.max_le, ih, List.forall_mem_cons]

theorem repeatedKeyOfItems?_eq_none {items : List Value} :
    repeatedKeyOfItems? items = none ↔ ∀ item ∈ items, item.repeatedKey? = none := by
  induction items with
  | nil => simp [repeatedKeyOfItems?]
  | cons item rest ih => rw [repeatedKeyOfItems?, Option.or_eq_none_iff, ih, List.forall_mem_cons]

theorem tagsWithinItems_iff {names : String → Prop} {items : List Value} :
    TagsWithinItems names items ↔ ∀ item ∈ items, item.TagsWithin names false := by
  induction items with
  | nil => simp [TagsWithinItems]
  | cons item rest ih => rw [TagsWithinItems, ih, List.forall_mem_cons]

theorem tagsWithinEntries_iff {names : String → Prop} {tagTaken : Bool}
    {entries : List (Value × Value)} :
    TagsWithinEntries names tagTaken entries ↔ ∀ entry ∈ entries,
      entry.1.TagsWithin names tagTaken ∧ entry.2.TagsWithin names false := by
  induction entries with
  | nil => simp [TagsWithinEntries]
  | cons entry rest ih => rw [TagsWithinEntries, ih, List.forall_mem_cons, and_assoc]

/-- What a reader with some rules lets through. -/
structure ReadUnder (rules : ValueRules) (depth : Nat) (value : Value) : Prop where
  depth : value.depth ≤ depth
  unique : rules.uniqueKeys = true → value.repeatedKey? = none
  untagged : rules.keepsTags = false → ∀ tagTaken, value.TagsWithin (fun _ => False) tagTaken

variable {rules : ValueRules} {depth : Nat}

theorem readUnder_sequence {items : List Value}
    (hitems : ∀ item ∈ items, item.ReadUnder rules depth) :
    (sequence items).ReadUnder rules (depth + 1) where
  depth := Nat.succ_le_succ (depthOfItems_le.2 fun item hitem => (hitems item hitem).depth)
  unique hrules :=
    repeatedKeyOfItems?_eq_none.2 fun item hitem => (hitems item hitem).unique hrules
  untagged hrules _ :=
    tagsWithinItems_iff.2 fun item hitem => (hitems item hitem).untagged hrules false

theorem readUnder_mapping {entries : List (Value × Value)}
    (hentries : ∀ entry ∈ entries, entry.1.ReadUnder rules depth ∧ entry.2.ReadUnder rules depth)
    (hunique : rules.uniqueKeys = true → repeatedKeyOfEntries? [] entries = none) :
    (mapping entries).ReadUnder rules (depth + 1) where
  depth := Nat.succ_le_succ <| depthOfEntries_le.2 fun entry hentry =>
    ⟨(hentries entry hentry).1.depth, (hentries entry hentry).2.depth⟩
  unique := hunique
  untagged hrules tagTaken := tagsWithinEntries_iff.2 fun entry hentry =>
    ⟨(hentries entry hentry).1.untagged hrules tagTaken,
      (hentries entry hentry).2.untagged hrules false⟩

theorem readUnder_of_meaning {wanted : String} {meaning : Meaning} {value : Value}
    (hvalue : (meaning.value wanted).Answers value) : value.ReadUnder rules depth := by
  cases meaning with
  | wide n holder => exact absurd hvalue (Taking.not_answers_refuse _)
  | _ =>
      cases hvalue.of_pure
      exact ⟨Nat.zero_le depth, fun _ => rfl, fun _ _ => trivial⟩

end Value

namespace Taking

variable {α β : Type}

theorem Answers.of_mapM {read : α → Taking β} {items : List α} {values : List β}
    (hvalues : (items.mapM read).Answers values) :
    ∀ value ∈ values, ∃ item, (read item).Answers value := by
  induction items generalizing values with
  | nil =>
      cases hvalues.of_pure
      simp
  | cons item rest ih =>
      rw [List.mapM_cons] at hvalues
      obtain ⟨first, hfirst, hvalues⟩ := hvalues.bind
      obtain ⟨others, hothers, hvalues⟩ := hvalues.bind
      cases hvalues.of_pure
      exact List.forall_mem_cons.2 ⟨⟨item, hfirst⟩, ih hothers⟩

/-- What every step keeps holds at the end. -/
theorem Answers.foldlM_keeps {step : β → α → Taking β} {items : List α} {start last : β}
    (keeps : β → Prop) (hlast : (items.foldlM step start).Answers last) (hstart : keeps start)
    (hstep : ∀ state item next, keeps state → (step state item).Answers next → keeps next) :
    keeps last := by
  induction items generalizing start with
  | nil =>
      cases hlast.of_pure
      exact hstart
  | cons item rest ih =>
      rw [List.foldlM_cons] at hlast
      obtain ⟨next, hnext, hlast⟩ := hlast.bind
      exact ih hlast (hstep start item next hstart hnext)

end Taking

namespace Document

variable {document : Document} {rules : ValueRules} {depth : Nat} {path : Path} {node : Node}
  {tagTaken : Bool} {value : Value}

open Taking (not_answers_throw not_answers_refuse)

/-- Entries that were read, behind those that came before: none has the key of an earlier one. -/
theorem readUnder_of_takeEntries {inner : ValueReader} {before settings : List (Value × Value)}
    {items : List (Node × Node)}
    (hinner : ∀ tagTaken path node value, (inner tagTaken path node).Answers value →
      value.ReadUnder rules depth)
    (hsettings : (takeEntries rules inner tagTaken path before items).Answers settings) :
    ∃ read, settings = before ++ read ∧
      (∀ entry ∈ read, entry.1.ReadUnder rules depth ∧ entry.2.ReadUnder rules depth) ∧
      (rules.uniqueKeys = true → Value.repeatedKeyOfEntries? before read = none) := by
  induction items generalizing before with
  | nil =>
      cases hsettings.of_pure
      exact ⟨[], by simp, by simp, fun _ => rfl⟩
  | cons entry rest ih =>
      obtain ⟨key, hkey, hsettings⟩ := hsettings.bind
      have hbehind : (rules.uniqueKeys = true → Value.sameKey? key before = none) ∧
          ∃ value, (inner false (path.under entry.1) entry.2).Answers value ∧
            (takeEntries rules inner tagTaken path (before ++ [(key, value)]) rest).Answers
              settings := by
        simp only at hsettings
        split at hsettings
        · obtain ⟨unused, hrefused, -⟩ := hsettings.bind
          exact absurd hrefused (not_answers_refuse _)
        · rename_i hnew
          obtain ⟨value, hvalue, hsettings⟩ := hsettings.bind
          refine ⟨fun hrules => ?_, value, hvalue, hsettings⟩
          cases hsame : Value.sameKey? key before with
          | none => rfl
          | some earlier => exact absurd hrules (hnew earlier hsame)
      obtain ⟨hnew, value, hvalue, hrest⟩ := hbehind
      obtain ⟨read, rfl, hread, hunique⟩ := ih hrest
      have hkey := hinner _ _ _ _ hkey
      have hvalue := hinner _ _ _ _ hvalue
      refine ⟨(key, value) :: read, by simp, List.forall_mem_cons.2 ⟨⟨hkey, hvalue⟩, hread⟩, ?_⟩
      intro hrules
      rw [Value.repeatedKeyOfEntries?, hkey.unique hrules, hnew hrules, hvalue.unique hrules,
        hunique hrules]
      rfl

/-- The contents of a node are read under the rules if what is below them is. -/
theorem readUnder_of_takeContents
    (hinner : ∀ below tagTaken path node value, depth = below + 1 →
      (document.valueReader rules below tagTaken path node).Answers value →
        value.ReadUnder rules below)
    (hvalue : (document.takeContents rules (document.below rules depth) tagTaken path node).Answers
      value) :
    value.ReadUnder rules depth := by
  cases node with
  | scalar mark properties text style =>
      have hscalar := hvalue.of_placedAt
      split at hscalar
      · exact Value.readUnder_of_meaning hscalar
      · exact absurd hscalar (not_answers_refuse _)
  | sequence mark properties items =>
      cases depth with
      | zero => exact absurd hvalue (not_answers_throw _)
      | succ depth =>
          obtain ⟨values, hvalues, rfl⟩ := hvalue.of_placedAt.of_map
          refine Value.readUnder_sequence fun item hitem => ?_
          obtain ⟨_, hread⟩ := hvalues.of_mapM item hitem
          exact hinner depth _ _ _ _ rfl hread
  | mapping mark properties items =>
      cases depth with
      | zero => exact absurd hvalue (not_answers_throw _)
      | succ depth =>
          obtain ⟨settings, hsettings, rfl⟩ := hvalue.of_placedAt.of_map
          obtain ⟨read, rfl, hread, hunique⟩ := readUnder_of_takeEntries
            (fun _ _ _ _ hread => hinner depth _ _ _ _ rfl hread) hsettings
          exact Value.readUnder_mapping hread hunique
  | void mark =>
      cases hvalue.of_pure
      exact ⟨Nat.zero_le depth, fun _ => rfl, fun _ _ => trivial⟩
  | _ => exact absurd hvalue (not_answers_throw _)

theorem readUnder_of_valueReader
    (hvalue : (document.valueReader rules depth tagTaken path node).Answers value) :
    value.ReadUnder rules depth := by
  induction depth using Nat.strongRecOn generalizing tagTaken path node value with
  | ind depth ih =>
      have hinner : ∀ below tagTaken path node value, depth = below + 1 →
          (document.valueReader rules below tagTaken path node).Answers value →
            value.ReadUnder rules below :=
        fun below _ _ _ _ hbelow hread => ih below (by omega) hread
      rw [valueReader_eq] at hvalue
      obtain ⟨⟨after, found⟩, -, hvalue⟩ := hvalue.bind
      simp only at hvalue
      split at hvalue
      · exact readUnder_of_takeContents hinner hvalue
      · split at hvalue
        · rename_i hkeeps
          obtain ⟨held, hheld, rfl⟩ := hvalue.of_map
          have hheld := readUnder_of_takeContents hinner hheld
          exact ⟨hheld.depth, hheld.unique, fun hrules => absurd (hkeeps.symm.trans hrules)
            (by simp)⟩
        · exact absurd hvalue.of_placedAt (not_answers_refuse _)

end Document

end StackBridge.Yaml

namespace StackBridge.Build

open StackBridge.Yaml (Value Node Path Document Taking ValueRules)

variable {document : Document} {depth : Nat} {path : Path} {node : Node}

/-- What is made of a mapping is made of entries one level below, or of none. -/
theorem answers_takeMapping {α : Type} {wanted : String} {body : Nat → Path →
    List (Node × Node) → Taking α} {value : α}
    (hvalue : (document.takeMapping wanted depth path node body).Answers value) :
    ∃ below path entries, (body below path entries).Answers value ∧
      (entries = [] ∨ depth = below + 1) := by
  obtain ⟨⟨after, found⟩, -, hvalue⟩ := hvalue.bind
  simp only at hvalue
  split at hvalue
  · cases depth with
    | zero => exact absurd hvalue (Taking.not_answers_throw _)
    | succ depth => exact ⟨depth, after, _, hvalue.of_placedAt, Or.inr rfl⟩
  · exact ⟨depth, after, [], hvalue.of_placedAt, Or.inl rfl⟩
  · exact ⟨depth, after, [], hvalue.of_placedAt, Or.inl rfl⟩
  · exact absurd hvalue (Document.not_answers_refuseNode _ _ _ _)

/-- The settings of a provider have been read within so many levels. -/
def Provider.ReadWithin (depth : Nat) (provider : Provider) : Prop :=
  provider.config.ReadUnder .free depth

theorem readWithin_of_takeProvider {provider : Provider}
    (hprovider : (takeProvider document depth path node).Answers provider) :
    provider.ReadWithin (depth - 1) := by
  obtain ⟨below, inside, entries, hbody, hdepth⟩ := answers_takeMapping hprovider
  obtain ⟨fields, hfields, hrest⟩ := hbody.bind
  obtain ⟨providerId, -, hrest⟩ := hrest.bind
  cases hrest.of_pure
  have hempty : Value.null.ReadUnder .free (depth - 1) :=
    ⟨Nat.zero_le _, fun _ => rfl, fun _ _ => trivial⟩
  have hconfig : ∀ value, fields.config = some value → value.ReadUnder .free (depth - 1) := by
    rcases hdepth with rfl | rfl
    · cases hfields.of_pure
      simp
    · refine hfields.foldlM_keeps (fun fields : ProviderFields =>
        ∀ value, fields.config = some value → value.ReadUnder .free below) (by simp) ?_
      intro state entry next hkeeps hnext
      obtain ⟨name, -, hnext⟩ := hnext.bind
      simp only at hnext
      split at hnext
      · obtain ⟨found, -, hnext⟩ := hnext.bind
        cases hnext.of_pure
        exact hkeeps
      · split at hnext
        · obtain ⟨found, hfound, hnext⟩ := hnext.bind
          obtain ⟨-, value, rfl, hvalue⟩ := answers_takeField hfound
          cases hnext.of_pure
          rintro _ ⟨⟩
          exact Document.readUnder_of_valueReader hvalue
        · obtain ⟨unused, -, hnext⟩ := hnext.bind
          cases hnext.of_pure
          exact hkeeps
  change (fields.config.getD .null).ReadUnder .free (depth - 1)
  cases hheld : fields.config with
  | none => exact hempty
  | some value => exact hconfig value hheld

theorem readWithin_of_takeProviders {providers : Providers}
    (hproviders : (takeProviders document depth path node).Answers providers) :
    ∀ entry ∈ providers.entries, entry.2.ReadWithin (depth - 2) := by
  obtain ⟨below, inside, entries, hbody, hdepth⟩ := answers_takeMapping hproviders
  rcases hdepth with rfl | rfl
  · cases hbody.of_pure
    simp [SortedMap.empty]
  · refine hbody.foldlM_keeps (fun providers : Providers =>
      ∀ entry ∈ providers.entries, entry.2.ReadWithin (below - 1)) (by simp [SortedMap.empty]) ?_
    intro state entry next hkeeps hnext held hheld
    obtain ⟨api, -, hnext⟩ := hnext.bind
    obtain ⟨provider, hprovider, hnext⟩ := hnext.bind
    cases hnext.of_pure
    rcases mem_insertEntry hheld with rfl | hbefore
    · exact readWithin_of_takeProvider hprovider
    · exact hkeeps held hbefore

/-- What holds of the fields of a package that have been read. -/
structure PackageFields.Read (depth : Nat) (fields : PackageFields) : Prop where
  providers : ∀ providers, fields.providers = some providers →
    ∀ entry ∈ providers.entries, entry.2.ReadWithin (depth - 2)
  extra : ∀ entry ∈ fields.extra, entry.1 ∉ knownKeys ∧ entry.2.ReadUnder .aside depth

theorem PackageFields.read_of_take {fields next : PackageFields} {entry : Node × Node}
    (hread : fields.Read depth)
    (hnext : (PackageFields.take document depth path fields entry).Answers next) :
    next.Read depth := by
  obtain ⟨name, -, hnext⟩ := hnext.bind
  simp only at hnext
  split at hnext
  · obtain ⟨found, -, hnext⟩ := hnext.bind
    cases hnext.of_pure
    exact ⟨hread.providers, hread.extra⟩
  · split at hnext
    · obtain ⟨found, -, hnext⟩ := hnext.bind
      cases hnext.of_pure
      exact ⟨hread.providers, hread.extra⟩
    · split at hnext
      · obtain ⟨found, -, hnext⟩ := hnext.bind
        cases hnext.of_pure
        exact ⟨hread.providers, hread.extra⟩
      · split at hnext
        · obtain ⟨found, -, hnext⟩ := hnext.bind
          cases hnext.of_pure
          exact ⟨hread.providers, hread.extra⟩
        · split at hnext
          · obtain ⟨found, hfound, hnext⟩ := hnext.bind
            obtain ⟨-, providers, rfl, hproviders⟩ := answers_takeField hfound
            cases hnext.of_pure
            refine ⟨?_, hread.extra⟩
            rintro _ ⟨⟩
            exact readWithin_of_takeProviders hproviders
          · obtain ⟨value, hvalue, hnext⟩ := hnext.bind
            cases hnext.of_pure
            refine ⟨hread.providers, List.forall_mem_append.2 ⟨hread.extra, ?_⟩⟩
            simp only [forall_eq, knownKeys, List.mem_cons, List.not_mem_nil, or_false, not_or]
            exact ⟨by simp [*], Document.readUnder_of_valueReader hvalue⟩

/-- What holds of every package that was read. -/
structure Package.Read (package : Package) : Prop where
  providers : ∀ entry ∈ package.providers.entries, entry.2.ReadWithin (Yaml.maxDepth - 3)
  extra : ∀ entry ∈ package.extra.entries,
    entry.1 ∉ knownKeys ∧ entry.2.ReadUnder .aside (Yaml.maxDepth - 1) ∧
      entry.2.repeatedKey? = none

/-- Every package that was read keeps its bounds. -/
theorem read_of_takePackage {package : Package}
    (hpackage : (takePackage document Yaml.maxDepth path node).Answers package) :
    package.Read := by
  obtain ⟨below, inside, entries, hbody, hdepth⟩ := answers_takeMapping hpackage
  obtain ⟨fields, hfields, hrest⟩ := hbody.bind
  have hread : fields.Read (Yaml.maxDepth - 1) := by
    have hstart : ∀ depth, PackageFields.Read depth {} := fun depth => ⟨by simp, by simp⟩
    rcases hdepth with rfl | hdepth
    · cases hfields.of_pure
      exact hstart _
    · obtain rfl : below = Yaml.maxDepth - 1 := by omega
      exact hfields.foldlM_keeps (PackageFields.Read _) (hstart _)
        fun _ _ _ hkeeps hnext => PackageFields.read_of_take hkeeps hnext
  obtain ⟨builtAt, -, hrest⟩ := hrest.bind
  obtain ⟨packageName, -, hrest⟩ := hrest.bind
  split at hrest
  · exact absurd hrest (Taking.not_answers_refuse _)
  · rename_i hunique
    cases hrest.of_pure
    constructor
    · change ∀ entry ∈ (fields.providers.getD .empty).entries, _
      cases hproviders : fields.providers with
      | none => simp [SortedMap.empty]
      | some providers => exact hread.providers providers hproviders
    · intro entry hentry
      have hentry := mem_insertEntries hentry
      obtain ⟨hname, hvalue⟩ := hread.extra entry hentry
      exact ⟨hname, hvalue, List.findSome?_eq_none_iff.1 hunique entry hentry⟩

/-- Whether no mapping within any of the replies repeats a key. -/
def UniqueReplies (replies : List (Option Value)) : Prop :=
  ∀ value, some value ∈ replies → value.repeatedKey? = none

theorem repeatedKey?_answerValue (answer : String) : (answerValue answer).repeatedKey? = none := by
  unfold answerValue
  split
  · rename_i value hvalue
    exact (Document.readUnder_of_valueReader (Yaml.answers_of_read hvalue)).unique rfl
  · rfl

theorem answer_of_replyOf {line : Bytes} {value : Value}
    (hvalue : replyOf line = .ok (some value)) : ∃ answer, value = answerValue answer := by
  unfold replyOf at hvalue
  split at hvalue
  · cases hvalue
  · rename_i text htext
    have hanswer : (if Text.trim text = "" then none else some (answerValue (Text.trim text))) =
        some value := Except.ok.inj hvalue
    split at hanswer
    · cases hanswer
    · exact ⟨Text.trim text, (Option.some.inj hanswer).symm⟩

/-- Replies come from texts, in which no mapping repeats a key. -/
theorem uniqueReplies_of_repliesTo {prompts : List Prompt} {dialogue : Dialogue}
    {replies : List (Option Value)}
    (hreplies : (Dialogue.repliesTo prompts dialogue).1 = .ok replies) :
    UniqueReplies replies := by
  induction prompts generalizing dialogue replies with
  | nil =>
      cases hreplies
      exact fun value hvalue => by simp at hvalue
  | cons prompt rest ih =>
      rw [Dialogue.repliesTo] at hreplies
      split at hreplies
      · simp only at hreplies
        split at hreplies
        · cases hreplies
        · rename_i reply hreply
          obtain ⟨others, hothers, rfl⟩ := map_eq_ok_iff.1 hreplies
          intro value hvalue
          rcases List.mem_cons.1 hvalue with rfl | hvalue
          · obtain ⟨answer, rfl⟩ := answer_of_replyOf hreply
            exact repeatedKey?_answerValue answer
          · exact ih hothers value hvalue
      · exact ih hreplies

theorem repeatedKeyOfEntries?_congr {before after : List (Value × Value)}
    (hkeys : after.map (·.1) = before.map (·.1)) (entries : List (Value × Value)) :
    Value.repeatedKeyOfEntries? after entries = Value.repeatedKeyOfEntries? before entries := by
  have hsame : ∀ (key : Value) (entries : List (Value × Value)),
      Value.sameKey? key entries = (entries.map (·.1)).find? (·.same key) := by
    intro key entries
    rw [List.find?_map]
    rfl
  induction entries generalizing before after with
  | nil => rfl
  | cons entry rest ih =>
      have hrest : Value.repeatedKeyOfEntries? (after ++ [(entry.1, entry.2)]) rest =
          Value.repeatedKeyOfEntries? (before ++ [(entry.1, entry.2)]) rest :=
        ih (by simp [hkeys])
      rw [Value.repeatedKeyOfEntries?, Value.repeatedKeyOfEntries?, hsame, hsame, hkeys, hrest]

/-- Settings keep their keys apart when they are answered, since a setting keeps its key. -/
theorem unique_changeValues {replies : List (Option Value)} (hreplies : UniqueReplies replies)
    {before settings : List (Value × Value)}
    (hunique : Value.repeatedKeyOfEntries? before settings = none) :
    Value.repeatedKeyOfEntries? before (changeValues replies settings).1 = none ∧
      UniqueReplies (changeValues replies settings).2 := by
  induction settings generalizing replies before with
  | nil => cases replies <;> exact ⟨rfl, hreplies⟩
  | cons setting rest ih =>
      cases replies with
      | nil => exact ⟨hunique, hreplies⟩
      | cons reply replies =>
          obtain ⟨hkey, hunique⟩ := Option.or_eq_none_iff.1 hunique
          obtain ⟨hnew, hunique⟩ := Option.or_eq_none_iff.1 hunique
          obtain ⟨hvalue, hunique⟩ := Option.or_eq_none_iff.1 hunique
          have hothers : UniqueReplies replies :=
            fun value hvalue => hreplies value (List.mem_cons_of_mem reply hvalue)
          obtain ⟨hchanged, hleft⟩ := ih hothers hunique
          refine ⟨?_, hleft⟩
          have hanswer : (reply.getD setting.2).repeatedKey? = none := by
            cases reply with
            | none => exact hvalue
            | some value => exact hreplies value List.mem_cons_self
          have hrest : Value.repeatedKeyOfEntries? (before ++ [(setting.1, reply.getD setting.2)])
              (changeValues replies rest).1 = none :=
            (repeatedKeyOfEntries?_congr (by simp) _).trans hchanged
          change Value.repeatedKeyOfEntries? before
            ((setting.1, reply.getD setting.2) :: (changeValues replies rest).1) = none
          rw [Value.repeatedKeyOfEntries?, hkey, hnew, hanswer, hrest]
          rfl

theorem Provider.unique_withReplies {replies : List (Option Value)}
    (hreplies : UniqueReplies replies) {provider : Provider}
    (hunique : provider.config.repeatedKey? = none) :
    (provider.withReplies replies).1.config.repeatedKey? = none ∧
      UniqueReplies (provider.withReplies replies).2 := by
  unfold Provider.withReplies
  cases hconfig : provider.config with
  | mapping settings =>
      rw [hconfig] at hunique
      exact unique_changeValues hreplies hunique
  | _ => exact ⟨hunique, hreplies⟩

theorem Providers.unique_withReplies {replies : List (Option Value)}
    (hreplies : UniqueReplies replies) {providers : Providers}
    (hunique : ∀ entry ∈ providers.entries, entry.2.config.repeatedKey? = none) :
    ∀ entry ∈ (providers.withReplies replies).entries,
      entry.2.config.repeatedKey? = none := by
  change ∀ entry ∈ mapAccumEntries _ replies providers.entries, _
  generalize providers.entries = entries at hunique
  induction entries generalizing replies with
  | nil => simp [mapAccumEntries]
  | cons entry rest ih =>
      obtain ⟨hfirst, hrest⟩ := List.forall_mem_cons.1 hunique
      obtain ⟨hchanged, hleft⟩ := Provider.unique_withReplies hreplies hfirst
      rw [mapAccumEntries, List.forall_mem_cons]
      exact ⟨hchanged, ih hleft hrest⟩

end StackBridge.Build
