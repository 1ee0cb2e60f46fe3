/-
The grammar of the arguments behind `api configure`. A list of arguments is read from left to right
into tokens: options for the build name, with the name in the same argument or in the next one
whatever that looks like, and plain arguments. Arguments that are read to their end ask for a build
exactly if one of them is plain and names an API, and the last build name is not empty; otherwise
the first argument that does not fit is complained about, and if all of them fit, what is missing.
-/
import Mathlib.Data.List.Induction
import StackBridge.Command.Arguments

namespace StackBridge.Command

open StackBridge.Build (StackApi)

/-- What a list of arguments is made of. -/
inductive Token where
  /-- The option for the build name, with the name in the next argument. -/
  | separate (name : String)
  /-- The option with the name in the same argument. -/
  | joined (name : String)
  | positional (text : String)
deriving DecidableEq, Repr

/-- Whether an argument looks like an option. -/
def LooksLikeOption (argument : String) : Prop :=
  "--".toList <+: argument.toList

instance (argument : String) : Decidable (LooksLikeOption argument) :=
  inferInstanceAs (Decidable ("--".toList <+: argument.toList))

namespace Token

def arguments : Token → List String
  | .separate name => ["--build-name", name]
  | .joined name => ["--build-name=" ++ name]
  | .positional text => [text]

/-- A plain argument must not look like an option. The value of an option may. -/
def WellFormed : Token → Prop
  | .positional text => ¬ LooksLikeOption text
  | _ => True

def buildName? : Token → Option String
  | .separate name | .joined name => some name
  | .positional _ => none

def positional? : Token → Option String
  | .positional text => some text
  | _ => none

end Token

/-- The build names that tokens give, in their order. -/
def buildNames (tokens : List Token) : List String :=
  tokens.filterMap Token.buildName?

/-- The plain arguments among tokens, in their order. -/
def positionals (tokens : List Token) : List String :=
  tokens.filterMap Token.positional?

/-- Whether arguments begin with these tokens, of which no more than one is a plain argument, and
go on with the rest. -/
structure Begins (arguments : List String) (tokens : List Token) (rest : List String) : Prop where
  eq : arguments = tokens.flatMap Token.arguments ++ rest
  wellFormed : ∀ token ∈ tokens, token.WellFormed
  onePositional : (positionals tokens).length ≤ 1

/-- Why the next argument does not fit behind the tokens that were read. -/
inductive Misfit (tokens : List Token) : List String → UsageError → Prop
  /-- The option for the build name is the last argument. -/
  | dangling : Misfit tokens ["--build-name"] .buildNameDangling
  | unknownOption {argument : String} {rest : List String} (hoption : LooksLikeOption argument)
      (hseparate : argument ≠ "--build-name")
      (hjoined : ∀ name, argument ≠ "--build-name=" ++ name) :
      Misfit tokens (argument :: rest) (.unrecognized argument)
  | secondPositional {argument : String} {rest : List String}
      (hplain : ¬ LooksLikeOption argument) (hfirst : positionals tokens ≠ []) :
      Misfit tokens (argument :: rest) (.unrecognized argument)

/-- What is missing among tokens that all fit: first the API, then an API of that name, then a build
name that is not empty. -/
inductive Lacks (tokens : List Token) : UsageError → Prop
  | api (hnone : positionals tokens = []) : Lacks tokens .apiMissing
  | apiOfName {name : String} (hone : positionals tokens = [name])
      (hunknown : ∀ api : StackApi, api.name ≠ name) : Lacks tokens (.apiUnknown name)
  | buildName {api : StackApi} (hone : positionals tokens = [api.name])
      (hempty : ∀ name, (buildNames tokens).getLast? = some name → name = "") :
      Lacks tokens .buildNameMissing

/-- What the tokens ask for. -/
structure AsksFor (tokens : List Token) (api : StackApi) (name : String) : Prop where
  onePositional : positionals tokens = [api.name]
  lastName : (buildNames tokens).getLast? = some name
  nonempty : name ≠ ""

theorem textBehind?_eq_some_iff {beginning text rest : String} :
    textBehind? beginning text = some rest ↔ text = beginning ++ rest := by
  unfold textBehind?
  rw [← String.toList_inj, String.toList_append]
  split
  case isTrue hbegins =>
    obtain ⟨behind, hbehind⟩ := List.isPrefixOf_iff_prefix.1 hbegins
    rw [← hbehind, List.drop_left, Option.some.injEq, List.append_cancel_left_eq,
      ← String.toList_inj, String.toList_ofList]
  case isFalse hnot =>
    constructor
    · intro hnone
      cases hnone
    · intro htext
      exact absurd (List.isPrefixOf_iff_prefix.2 ⟨_, htext.symm⟩) hnot

theorem isSome_textBehind?_iff {beginning text : String} :
    (textBehind? beginning text).isSome ↔ beginning.toList <+: text.toList := by
  rw [Option.isSome_iff_exists]
  simp only [textBehind?_eq_some_iff, ← String.toList_inj, String.toList_append]
  constructor
  · rintro ⟨rest, hrest⟩
    exact ⟨rest.toList, hrest.symm⟩
  · rintro ⟨rest, hrest⟩
    exact ⟨String.ofList rest, by rw [String.toList_ofList, hrest]⟩

/-- What has been found once a token has been read. -/
def Found.withToken (found : Found) : Token → Found
  | .separate name | .joined name => { found with buildName := some name }
  | .positional text => { found with api := some text }

theorem joined_ne_separate (name : String) : "--build-name=" ++ name ≠ "--build-name" := by
  intro hsame
  have hlength := congrArg (·.toList.length) hsame
  simp at hlength

/-- Both forms of the option for the build name look like one. -/
theorem ne_buildName_of_plain {argument : String} (hplain : ¬ LooksLikeOption argument) :
    argument ≠ "--build-name" ∧ ∀ name, argument ≠ "--build-name=" ++ name := by
  constructor
  · rintro rfl
    exact hplain ⟨"build-name".toList, rfl⟩
  · rintro name rfl
    exact hplain ⟨"build-name=".toList ++ name.toList, by rw [String.toList_append]; rfl⟩

theorem Found.takeAll_separate (found : Found) (name : String) (rest : List String) :
    found.takeAll ("--build-name" :: name :: rest) =
      { found with buildName := some name }.takeAll rest := by
  rw [Found.takeAll.eq_def]
  simp only [if_true]

theorem Found.takeAll_joined (found : Found) (name : String) (rest : List String) :
    found.takeAll (("--build-name=" ++ name) :: rest) =
      { found with buildName := some name }.takeAll rest := by
  have hbehind : textBehind? "--build-name=" ("--build-name=" ++ name) = some name :=
    textBehind?_eq_some_iff.2 rfl
  rw [Found.takeAll.eq_def]
  simp only [if_neg (joined_ne_separate name), hbehind]

/-- An argument that is no option for the build name is the API, if it can be. -/
theorem Found.takeAll_other (found : Found) {argument : String}
    (hother : argument ≠ "--build-name" ∧ ∀ name, argument ≠ "--build-name=" ++ name)
    (rest : List String) :
    found.takeAll (argument :: rest) =
      if LooksLikeOption argument ∨ found.api.isSome then .error (.unrecognized argument)
      else { found with api := some argument }.takeAll rest := by
  have hnone : textBehind? "--build-name=" argument = none := by
    rw [Option.eq_none_iff_forall_ne_some]
    intro name hname
    exact hother.2 name (textBehind?_eq_some_iff.1 hname)
  rw [Found.takeAll.eq_def]
  simp only [if_neg hother.1, hnone, Bool.or_eq_true, isSome_textBehind?_iff]
  rfl

/-- Taking the arguments of a token notes what the token says. -/
theorem Found.takeAll_token {found : Found} {token : Token} (hform : token.WellFormed)
    (hfirst : token.positional?.isSome → found.api = none) (rest : List String) :
    found.takeAll (token.arguments ++ rest) = (found.withToken token).takeAll rest := by
  cases token with
  | separate name => exact found.takeAll_separate name rest
  | joined name => exact found.takeAll_joined name rest
  | positional text =>
      have hfits : ¬ (LooksLikeOption text ∨ found.api.isSome) := by
        rw [hfirst rfl]
        rintro (hoption | hsome)
        · exact hform hoption
        · cases hsome
      rw [Token.arguments, List.singleton_append,
        found.takeAll_other (ne_buildName_of_plain hform), if_neg hfits]
      rfl

/-- What tokens come to: the plain argument and the last build name. -/
def Found.ofTokens (tokens : List Token) : Found :=
  ⟨(positionals tokens).head?, (buildNames tokens).getLast?⟩

theorem positionals_append (tokens more : List Token) :
    positionals (tokens ++ more) = positionals tokens ++ positionals more :=
  List.filterMap_append ..

theorem positionals_cons (token : Token) (tokens : List Token) :
    positionals (token :: tokens) = token.positional?.toList ++ positionals tokens := by
  cases token <;> rfl

theorem buildNames_append (tokens more : List Token) :
    buildNames (tokens ++ more) = buildNames tokens ++ buildNames more :=
  List.filterMap_append ..

theorem withToken_ofTokens {tokens : List Token} {token : Token}
    (hfirst : token.positional?.isSome → positionals tokens = []) :
    (Found.ofTokens tokens).withToken token = Found.ofTokens (tokens ++ [token]) := by
  unfold Found.ofTokens
  rw [positionals_append, positionals_cons, buildNames_append]
  cases token with
  | separate name | joined name =>
      simp [Found.withToken, positionals, buildNames, Token.positional?, Token.buildName?]
  | positional text =>
      rw [hfirst rfl]
      simp [Found.withToken, positionals, buildNames, Token.positional?, Token.buildName?]

/-- Reading goes on behind the tokens with what they come to. -/
theorem takeAll_of_begins {arguments rest : List String} {tokens : List Token}
    (hbegins : Begins arguments tokens rest) :
    ({} : Found).takeAll arguments = (Found.ofTokens tokens).takeAll rest := by
  obtain ⟨rfl, hform, hone⟩ := hbegins
  induction tokens using List.reverseRecOn generalizing rest with
  | nil => rfl
  | append_singleton tokens token ih =>
      rw [positionals_append, List.length_append] at hone
      have hfirst : token.positional?.isSome → positionals tokens = [] := by
        intro hplain
        obtain ⟨text, htext⟩ := Option.isSome_iff_exists.1 hplain
        have hlast : (positionals [token]).length = 1 := by
          rw [positionals_cons, htext]
          rfl
        exact List.length_eq_zero_iff.1 (by omega)
      have hform := List.forall_mem_append.1 hform
      rw [List.flatMap_append, List.flatMap_singleton, List.append_assoc,
        ih hform.1 (Nat.le_trans (Nat.le_add_right _ _) hone),
        Found.takeAll_token (hform.2 token List.mem_cons_self), withToken_ofTokens hfirst]
      intro hplain
      simp [Found.ofTokens, hfirst hplain]

/-- An argument that does not fit is complained about. -/
theorem takeAll_of_misfit {tokens : List Token} {rest : List String} {error : UsageError}
    (hmisfit : Misfit tokens rest error) :
    (Found.ofTokens tokens).takeAll rest = .error error := by
  cases hmisfit with
  | dangling =>
      rw [Found.takeAll.eq_def]
      simp only [if_true]
      rfl
  | unknownOption hoption hseparate hjoined =>
      rw [Found.takeAll_other _ ⟨hseparate, hjoined⟩, if_pos (Or.inl hoption)]
  | secondPositional hplain hfirst =>
      have hsome : (Found.ofTokens tokens).api.isSome := by
        rw [Found.ofTokens, List.isSome_head?]
        simpa using hfirst
      rw [Found.takeAll_other _ (ne_buildName_of_plain hplain), if_pos (Or.inr hsome)]

/-- Either all arguments are tokens, or one of them does not fit behind those before it. By
induction on how many arguments are left. -/
theorem exists_begins {arguments rest : List String} {tokens : List Token}
    (hbegins : Begins arguments tokens rest) :
    (∃ all, Begins arguments all []) ∨
      ∃ read left error, Begins arguments read left ∧ Misfit read left error := by
  induction hlength : rest.length using Nat.strongRecOn generalizing tokens rest with
  | ind length ih =>
    have hnext : ∀ (token : Token) (left : List String), rest = token.arguments ++ left →
        token.WellFormed → (token.positional?.isSome → positionals tokens = []) →
          (∃ all, Begins arguments all []) ∨
            ∃ read left error, Begins arguments read left ∧ Misfit read left error := by
      intro token left hrest hform hfirst
      have hmore : Begins arguments (tokens ++ [token]) left := by
        refine ⟨?_, ?_, ?_⟩
        · rw [hbegins.eq, hrest, List.flatMap_append, List.flatMap_singleton, List.append_assoc]
        · exact List.forall_mem_append.2 ⟨hbegins.wellFormed, by simpa using hform⟩
        · rw [positionals_append, positionals_cons]
          cases htext : token.positional? with
          | none => simpa [positionals] using hbegins.onePositional
          | some text => rw [hfirst (by rw [htext]; rfl)]; exact Nat.le_refl 1
      refine ih left.length ?_ hmore rfl
      rw [← hlength, hrest, List.length_append]
      cases token <;> simp [Token.arguments]
    cases rest with
    | nil => exact Or.inl ⟨tokens, hbegins⟩
    | cons argument left =>
        by_cases hseparate : argument = "--build-name"
        · subst hseparate
          cases left with
          | nil => exact Or.inr ⟨tokens, _, _, hbegins, .dangling⟩
          | cons name left => exact hnext (.separate name) left rfl trivial nofun
        by_cases hjoined : ∃ name, argument = "--build-name=" ++ name
        · obtain ⟨name, rfl⟩ := hjoined
          exact hnext (.joined name) left rfl trivial nofun
        rw [not_exists] at hjoined
        by_cases hoption : LooksLikeOption argument
        · exact Or.inr ⟨tokens, _, _, hbegins, .unknownOption hoption hseparate hjoined⟩
        by_cases hfirst : positionals tokens = []
        · exact hnext (.positional argument) left rfl hoption fun _ => hfirst
        · exact Or.inr ⟨tokens, _, _, hbegins, .secondPositional hoption hfirst⟩

theorem find?_eq_some_iff {name : String} {api : StackApi} :
    StackApi.find? name = some api ↔ api.name = name := by
  constructor
  · intro hfound
    simpa using List.find?_some hfound
  · rintro rfl
    cases api <;> decide

theorem find?_eq_none_iff {name : String} :
    StackApi.find? name = none ↔ ∀ api : StackApi, api.name ≠ name := by
  rw [Option.eq_none_iff_forall_ne_some]
  simp only [ne_eq, find?_eq_some_iff]

/-- Tokens that ask for a build are answered by the action for it. -/
theorem action_of_asksFor {tokens : List Token} {api : StackApi} {name : String}
    (hasks : AsksFor tokens api name) :
    (Found.ofTokens tokens).action = .ok (.configure api name) := by
  have hname : (some name).filter (· ≠ "") = some name :=
    Option.filter_eq_some_iff.2 ⟨rfl, by simpa using hasks.nonempty⟩
  unfold Found.action Found.ofTokens
  simp only [hasks.onePositional, List.head?_cons, find?_eq_some_iff.2 rfl, hasks.lastName, hname]
  rfl

/-- Tokens that lack something are answered by the complaint about it. -/
theorem action_of_lacks {tokens : List Token} {error : UsageError} (hlacks : Lacks tokens error) :
    (Found.ofTokens tokens).action = .error error := by
  unfold Found.action Found.ofTokens
  cases hlacks with
  | api hnone =>
      simp only [hnone]
      rfl
  | apiOfName hone hunknown =>
      simp only [hone, List.head?_cons, find?_eq_none_iff.2 hunknown]
      rfl
  | buildName hone hempty =>
      have hname : (buildNames tokens).getLast?.filter (· ≠ "") = none := by
        rw [Option.filter_eq_none_iff]
        simpa using hempty
      simp only [hone, List.head?_cons, find?_eq_some_iff.2 rfl, hname]
      rfl

/-- Tokens either ask for a build, or something is missing among them. -/
theorem asksFor_or_lacks {tokens : List Token} (hone : (positionals tokens).length ≤ 1) :
    (∃ api name, AsksFor tokens api name) ∨ ∃ error, Lacks tokens error := by
  rcases hplain : positionals tokens with _ | ⟨text, _ | ⟨other, more⟩⟩
  · exact Or.inr ⟨_, .api hplain⟩
  · by_cases hknown : ∃ api : StackApi, api.name = text
    · obtain ⟨api, rfl⟩ := hknown
      by_cases hname : ∃ name, (buildNames tokens).getLast? = some name ∧ name ≠ ""
      · obtain ⟨name, hlast, hnonempty⟩ := hname
        exact Or.inl ⟨api, name, hplain, hlast, hnonempty⟩
      · simp only [not_exists, not_and, not_not] at hname
        exact Or.inr ⟨_, .buildName hplain hname⟩
    · exact Or.inr ⟨_, .apiOfName hplain (not_exists.1 hknown)⟩
  · rw [hplain] at hone
    simp at hone

/-- What the arguments behind `api configure` come to. -/
inductive ComesTo (arguments : List String) : Except UsageError Action → Prop
  | asks {tokens : List Token} {api : StackApi} {name : String}
      (hall : Begins arguments tokens []) (hasks : AsksFor tokens api name) :
      ComesTo arguments (.ok (.configure api name))
  | misfit {tokens : List Token} {rest : List String} {error : UsageError}
      (hbegins : Begins arguments tokens rest) (hmisfit : Misfit tokens rest error) :
      ComesTo arguments (.error error)
  | lacks {tokens : List Token} {error : UsageError}
      (hall : Begins arguments tokens []) (hlacks : Lacks tokens error) :
      ComesTo arguments (.error error)

theorem ofConfigureArguments_of_all {arguments : List String} {tokens : List Token}
    (hall : Begins arguments tokens []) :
    ofConfigureArguments arguments = (Found.ofTokens tokens).action := by
  rw [ofConfigureArguments, takeAll_of_begins hall, Found.takeAll.eq_def]
  rfl

theorem ComesTo.eq {arguments : List String} {result : Except UsageError Action}
    (hcomes : ComesTo arguments result) : ofConfigureArguments arguments = result := by
  cases hcomes with
  | asks hall hasks => rw [ofConfigureArguments_of_all hall, action_of_asksFor hasks]
  | misfit hbegins hmisfit =>
      rw [ofConfigureArguments, takeAll_of_begins hbegins, takeAll_of_misfit hmisfit]
      rfl
  | lacks hall hlacks => rw [ofConfigureArguments_of_all hall, action_of_lacks hlacks]

/-- All arguments come to something, which is what they are answered by. -/
theorem comesTo (arguments : List String) : ComesTo arguments (ofConfigureArguments arguments) := by
  have hcomes : ∃ result, ComesTo arguments result := by
    have hnone : Begins arguments [] arguments := ⟨rfl, nofun, Nat.zero_le _⟩
    rcases exists_begins hnone with ⟨tokens, hall⟩ | ⟨tokens, rest, error, hbegins, hmisfit⟩
    · rcases asksFor_or_lacks hall.onePositional with ⟨api, name, hasks⟩ | ⟨error, hlacks⟩
      · exact ⟨_, .asks hall hasks⟩
      · exact ⟨_, .lacks hall hlacks⟩
    · exact ⟨_, .misfit hbegins hmisfit⟩
  obtain ⟨result, hresult⟩ := hcomes
  rwa [hresult.eq]

/-- A plain argument among options is all the same wherever it stands. -/
theorem ofConfigureArguments_positional {text : String} (hplain : ¬ LooksLikeOption text)
    {before after : List Token} (hoptions : positionals (before ++ after) = []) :
    ofConfigureArguments ((before ++ .positional text :: after).flatMap Token.arguments) =
      Found.action ⟨some text, (buildNames (before ++ after)).getLast?⟩ := by
  rw [positionals_append, List.append_eq_nil_iff] at hoptions
  have hone : positionals (before ++ .positional text :: after) = [text] := by
    rw [positionals_append, hoptions.1, positionals_cons, hoptions.2]
    rfl
  have hnames : buildNames (before ++ .positional text :: after) =
      buildNames (before ++ after) := by
    rw [buildNames_append, buildNames_append]
    rfl
  have hform : ∀ token ∈ before ++ .positional text :: after, token.WellFormed := by
    intro token htoken
    cases token with
    | positional other =>
        have hmem : other ∈ positionals (before ++ .positional text :: after) :=
          List.mem_filterMap.2 ⟨_, htoken, rfl⟩
        rw [hone, List.mem_singleton] at hmem
        exact hmem ▸ hplain
    | _ => trivial
  have hall : Begins ((before ++ .positional text :: after).flatMap Token.arguments)
      (before ++ .positional text :: after) [] :=
    ⟨(List.append_nil _).symm, hform, by rw [hone]; exact Nat.le_refl 1⟩
  rw [ofConfigureArguments_of_all hall, Found.ofTokens, hone, hnames]
  rfl

/-- The arguments behind `api configure` follow their grammar: a build is asked for exactly if all
of them are tokens, one of these is plain and names an API, and the last build name is not empty.
Otherwise the complaint is about the first argument that does not fit, or, if all of them fit, about
what is missing. Where the plain argument stands among the options does not matter. -/
theorem configure_arguments_follow_grammar :
    (∀ arguments action, ofConfigureArguments arguments = .ok action ↔
      ∃ tokens api name, Begins arguments tokens [] ∧ AsksFor tokens api name ∧
        action = .configure api name) ∧
    (∀ arguments error, ofConfigureArguments arguments = .error error ↔
      (∃ tokens rest, Begins arguments tokens rest ∧ Misfit tokens rest error) ∨
        ∃ tokens, Begins arguments tokens [] ∧ Lacks tokens error) ∧
    ∀ (text : String) (before after before' after' : List Token), ¬ LooksLikeOption text →
      positionals (before ++ after) = [] → before' ++ after' = before ++ after →
      ofConfigureArguments ((before' ++ .positional text :: after').flatMap Token.arguments) =
        ofConfigureArguments ((before ++ .positional text :: after).flatMap Token.arguments) := by
  refine ⟨fun arguments action => ⟨fun hok => ?_, ?_⟩,
    fun arguments error => ⟨fun herror => ?_, ?_⟩, ?_⟩
  · cases hok ▸ comesTo arguments with
    | asks hall hasks => exact ⟨_, _, _, hall, hasks, rfl⟩
  · rintro ⟨tokens, api, name, hall, hasks, rfl⟩
    exact (ComesTo.asks hall hasks).eq
  · cases herror ▸ comesTo arguments with
    | misfit hbegins hmisfit => exact Or.inl ⟨_, _, hbegins, hmisfit⟩
    | lacks hall hlacks => exact Or.inr ⟨_, hall, hlacks⟩
  · rintro (⟨tokens, rest, hbegins, hmisfit⟩ | ⟨tokens, hall, hlacks⟩)
    · exact (ComesTo.misfit hbegins hmisfit).eq
    · exact (ComesTo.lacks hall hlacks).eq
  · intro text before after before' after' hplain hoptions hsame
    rw [ofConfigureArguments_positional hplain hoptions,
      ofConfigureArguments_positional hplain (hsame ▸ hoptions), hsame]

/-- The first option swallows what looks like another one, and the later name counts, wherever the
API stands; a second API is complained about before the name that is missing behind it. -/
theorem later_name_counts_wherever_api_stands :
    ¬ LooksLikeOption "memory" ∧
    positionals [.separate "--build-name", .joined "b"] = [] ∧
    ofConfigureArguments ["memory", "--build-name", "--build-name", "--build-name=b"] =
      ofConfigureArguments ["--build-name", "--build-name", "--build-name=b", "memory"] ∧
    ofConfigureArguments ["--build-name", "--build-name", "--build-name=b", "memory"] =
      .ok (.configure .memory "b") ∧
    ofConfigureArguments ["memory", "safety", "--build-name"] =
      .error (.unrecognized "safety") := by
  obtain ⟨haccepted, hrefused, hmoved⟩ := configure_arguments_follow_grammar
  have hplain : ¬ LooksLikeOption "memory" := by decide
  have hoptions : positionals [.separate "--build-name", .joined "b"] = [] := rfl
  refine ⟨hplain, hoptions,
    hmoved "memory" [.separate "--build-name", .joined "b"] [] [] _ hplain hoptions rfl, ?_, ?_⟩
  · rw [haccepted]
    exact ⟨[.separate "--build-name", .joined "b", .positional "memory"], .memory, "b",
      ⟨rfl, by simpa [Token.WellFormed] using hplain, by decide⟩, ⟨rfl, rfl, by decide⟩, rfl⟩
  · rw [hrefused]
    exact Or.inl ⟨[.positional "memory"], ["safety", "--build-name"],
      ⟨rfl, by simpa [Token.WellFormed] using hplain, by decide⟩,
      .secondPositional (by decide) (by decide)⟩

end StackBridge.Command
