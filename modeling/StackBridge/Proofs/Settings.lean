/-
Replies in place of settings. The settings of all providers stand in one list, in the order in
which they are asked for, and each takes the reply that stands at its place in the list of replies.
Nothing else about the providers changes.
-/
import StackBridge.Build.Prompting
import StackBridge.Proofs.BuildFile

namespace StackBridge.Build

open StackBridge.Yaml (Value)

/-- A setting with the reply to the question for it. -/
def answered (setting : Value × Value) (reply : Option Value) : Value × Value :=
  (setting.1, reply.getD setting.2)

def Providers.settings (providers : Providers) : List (Value × Value) :=
  providers.entries.flatMap fun entry => entry.2.settings

/-- Settings take the replies in order, and the replies that are left are for others. -/
theorem changeValues_eq {replies : List (Option Value)} {settings : List (Value × Value)}
    (henough : settings.length ≤ replies.length) :
    changeValues replies settings =
      (List.zipWith answered settings replies, replies.drop settings.length) := by
  induction settings generalizing replies with
  | nil => cases replies <;> rfl
  | cons setting rest ih =>
      cases replies with
      | nil => simp at henough
      | cons reply replies =>
          rw [changeValues, ih (by simpa using henough)]
          rfl

/-- Replies change no key, be they enough or not. -/
theorem keys_changeValues (replies : List (Option Value)) (settings : List (Value × Value)) :
    (changeValues replies settings).1.map (·.1) = settings.map (·.1) := by
  induction settings generalizing replies with
  | nil => cases replies <;> rfl
  | cons setting rest ih =>
      cases replies with
      | nil => rfl
      | cons reply replies =>
          rw [changeValues, List.map_cons, List.map_cons]
          exact congrArg (setting.1 :: ·) (ih replies)

theorem Provider.withReplies_eq {provider : Provider} {replies : List (Option Value)}
    (henough : provider.settings.length ≤ replies.length) :
    (provider.withReplies replies).1.settings =
        List.zipWith answered provider.settings replies ∧
      (provider.withReplies replies).2 = replies.drop provider.settings.length := by
  unfold Provider.withReplies Provider.settings at *
  cases hconfig : provider.config with
  | mapping settings =>
      rw [hconfig] at henough
      simp only [changeValues_eq henough, and_self]
  | _ => simp [hconfig]

theorem zipWith_append_left {α β γ : Type} (combine : α → β → γ) (front back : List α)
    (others : List β) (henough : front.length ≤ others.length) :
    List.zipWith combine (front ++ back) others =
      List.zipWith combine front others ++
        List.zipWith combine back (others.drop front.length) := by
  induction front generalizing others with
  | nil => simp
  | cons first rest ih =>
      cases others with
      | nil => simp at henough
      | cons other others => simpa using ih others (by simpa using henough)

/-- Every setting takes the reply at its place: a provider takes one reply for each of its settings
and leaves the others. -/
theorem Providers.settings_withReplies {providers : Providers} {replies : List (Option Value)}
    (henough : providers.settings.length ≤ replies.length) :
    (providers.withReplies replies).settings =
      List.zipWith answered providers.settings replies := by
  have hentries : ∀ (entries : List (String × Provider)) (replies : List (Option Value)),
      (entries.flatMap fun entry => entry.2.settings).length ≤ replies.length →
        (mapAccumEntries (fun replies provider => provider.withReplies replies) replies
            entries).flatMap (fun entry => entry.2.settings) =
          List.zipWith answered (entries.flatMap fun entry => entry.2.settings) replies := by
    intro entries
    induction entries with
    | nil => simp [mapAccumEntries]
    | cons entry rest ih =>
        intro replies henough
        rw [List.flatMap_cons, List.length_append] at henough
        have hfirst : entry.2.settings.length ≤ replies.length := by omega
        obtain ⟨hsettings, hleft⟩ := Provider.withReplies_eq hfirst
        rw [mapAccumEntries, List.flatMap_cons, List.flatMap_cons,
          zipWith_append_left answered _ _ _ hfirst]
        simp only [hsettings, hleft]
        rw [ih _ (by rw [List.length_drop]; omega)]
  exact hentries providers.entries replies henough

/-- Whether a provider is another one but for the values of its settings. -/
def Provider.DiffersInValues (before after : Provider) : Prop :=
  after = before ∨ ∃ settings changed, before.config = .mapping settings ∧
    changed.map (·.1) = settings.map (·.1) ∧ after = { before with config := .mapping changed }

theorem Provider.withReplies_differsInValues (provider : Provider)
    (replies : List (Option Value)) :
    provider.DiffersInValues (provider.withReplies replies).1 := by
  unfold Provider.withReplies
  cases hconfig : provider.config with
  | mapping settings => exact Or.inr ⟨settings, _, hconfig, keys_changeValues replies settings, rfl⟩
  | _ => exact Or.inl rfl

/-- Every API keeps its provider but for the values of the settings. -/
theorem Providers.withReplies_provider (providers : Providers) (replies : List (Option Value))
    (api : String) :
    match providers.get? api with
    | none => (providers.withReplies replies).get? api = none
    | some before => ∃ after, (providers.withReplies replies).get? api = some after ∧
        before.DiffersInValues after := by
  have hentries : ∀ (entries : List (String × Provider)) (replies : List (Option Value)),
      match entries.lookup api with
      | none => (mapAccumEntries (fun replies provider => provider.withReplies replies) replies
          entries).lookup api = none
      | some before => ∃ after, (mapAccumEntries (fun replies provider =>
          provider.withReplies replies) replies entries).lookup api = some after ∧
            before.DiffersInValues after := by
    intro entries
    induction entries with
    | nil => exact fun _ => rfl
    | cons entry rest ih =>
        intro replies
        rw [mapAccumEntries, lookup_cons, lookup_cons]
        by_cases hapi : api = entry.1
        · rw [if_pos hapi, if_pos hapi]
          exact ⟨_, rfl, entry.2.withReplies_differsInValues replies⟩
        · rw [if_neg hapi, if_neg hapi]
          exact ih _
  rw [SortedMap.get?_eq_lookup, SortedMap.get?_eq_lookup]
  exact hentries providers.entries replies

/-- There is one reply for each question. -/
theorem length_of_repliesTo {prompts : List Prompt} {dialogue : Dialogue}
    {replies : List (Option Value)}
    (hreplies : (Dialogue.repliesTo prompts dialogue).1 = .ok replies) :
    replies.length = prompts.countP (·.isQuestion) := by
  induction prompts generalizing dialogue replies with
  | nil => cases hreplies; rfl
  | cons prompt rest ih =>
      rw [Dialogue.repliesTo] at hreplies
      by_cases hquestion : prompt.isQuestion
      · rw [if_pos hquestion] at hreplies
        rw [List.countP_cons_of_pos hquestion]
        simp only at hreplies
        split at hreplies
        · cases hreplies
        · obtain ⟨others, hothers, rfl⟩ := map_eq_ok_iff.1 hreplies
          rw [List.length_cons, ih hothers]
      · rw [if_neg hquestion] at hreplies
        rw [List.countP_cons_of_neg hquestion]
        exact ih hreplies

theorem Provider.countP_prompts (api : String) (provider : Provider) :
    (provider.prompts api).countP (·.isQuestion) = provider.settings.length := by
  have hquestions : ∀ settings : List (Value × Value),
      (settings.map fun setting => Prompt.question api setting.1 setting.2).countP
        (·.isQuestion) = settings.length := by
    intro settings
    induction settings with
    | nil => rfl
    | cons setting rest ih => rw [List.map_cons, List.countP_cons_of_pos rfl, ih, List.length_cons]
  rw [Provider.prompts, List.countP_cons_of_neg (by simp [Prompt.isQuestion])]
  exact hquestions provider.settings

theorem countP_prompts (providers : Providers) :
    providers.prompts.countP (·.isQuestion) = providers.settings.length := by
  have hentries : ∀ entries : List (String × Provider),
      (entries.flatMap fun entry => entry.2.prompts entry.1).countP (·.isQuestion) =
        (entries.flatMap fun entry => entry.2.settings).length := by
    intro entries
    induction entries with
    | nil => rfl
    | cons entry rest ih =>
        rw [List.flatMap_cons, List.flatMap_cons, List.countP_append, List.length_append, ih,
          Provider.countP_prompts]
  exact hentries providers.entries

end StackBridge.Build
