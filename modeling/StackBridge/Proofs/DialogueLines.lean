/-
The lines of the input and the settings they answer. The j-th setting is asked for on the j-th line,
whichever provider it belongs to; behind the last line nothing is answered. A dialogue breaks off at
a line that is not text and changes nothing then.
-/
import StackBridge.Proofs.Settings

namespace StackBridge.Build

open StackBridge.Yaml (Value)

/-- The lines of an input, each with its end if it has one. -/
def linesOf : Bytes → List Bytes
  | [] => []
  | byte :: rest =>
      if byte = 10 then [byte] :: linesOf rest
      else
        match linesOf rest with
        | [] => [[byte]]
        | line :: lines => (byte :: line) :: lines

/-- Lines are what the input is cut into, and nothing is lost. -/
theorem flatten_linesOf (bytes : Bytes) : (linesOf bytes).flatten = bytes := by
  induction bytes with
  | nil => rfl
  | cons byte rest ih =>
      rw [linesOf]
      split
      · rw [List.flatten_cons, ih, List.singleton_append]
      · cases hlines : linesOf rest with
        | nil => rw [← ih, hlines]; rfl
        | cons line lines => rw [← ih, hlines]; rfl

/-- The first line is taken, or nothing if there is none. -/
theorem takeLine_eq (bytes : Bytes) :
    (takeLine bytes).1 = (linesOf bytes).headD [] ∧
      linesOf (takeLine bytes).2 = (linesOf bytes).tail := by
  induction bytes with
  | nil => exact ⟨rfl, rfl⟩
  | cons byte rest ih =>
      rw [takeLine, linesOf]
      split
      · exact ⟨rfl, rfl⟩
      · cases hlines : linesOf rest with
        | nil => simpa [hlines] using ih
        | cons line lines => simpa [hlines] using ih

/-- What so many questions find: the lines from the first on, and nothing behind the last. -/
def linesFor : Nat → List Bytes → List Bytes
  | 0, _ => []
  | count + 1, lines => lines.headD [] :: linesFor count lines.tail

/-- Each question takes the line at its place, which is empty behind the end of the input. -/
theorem getElem?_linesFor {count place : Nat} (hplace : place < count) (lines : List Bytes) :
    (linesFor count lines)[place]? = some (lines[place]?.getD []) := by
  induction count generalizing place lines with
  | zero => omega
  | succ count ih =>
      cases place with
      | zero => cases lines <;> rfl
      | succ place =>
          rw [linesFor, List.getElem?_cons_succ, ih (by omega), List.getElem?_tail]

theorem mem_linesFor {count : Nat} {lines : List Bytes} {line : Bytes}
    (hline : line ∈ linesFor count lines) : line = [] ∨ line ∈ lines.take count := by
  induction count generalizing lines with
  | zero => cases hline
  | succ count ih =>
      cases lines with
      | nil =>
          rcases List.mem_cons.1 hline with rfl | hrest
          · exact Or.inl rfl
          · simpa using ih hrest
      | cons first rest =>
          rw [List.take_succ_cons, List.mem_cons]
          rcases List.mem_cons.1 hline with rfl | hrest
          · exact Or.inr (Or.inl rfl)
          · exact (ih hrest).imp_right Or.inr

theorem mem_linesFor_of_mem_take {count : Nat} {lines : List Bytes} {line : Bytes}
    (hline : line ∈ lines.take count) : line ∈ linesFor count lines := by
  induction count generalizing lines with
  | zero => simp at hline
  | succ count ih =>
      cases lines with
      | nil => simp at hline
      | cons first rest =>
          rw [List.take_succ_cons] at hline
          exact (List.mem_cons.1 hline).elim (fun hfirst => hfirst ▸ List.mem_cons_self)
            fun hrest => List.mem_cons_of_mem _ (ih hrest)

/-- The questions of a dialogue are answered by the lines in turn. -/
theorem repliesTo_eq_mapM (prompts : List Prompt) (dialogue : Dialogue) :
    (Dialogue.repliesTo prompts dialogue).1 =
      (linesFor (prompts.countP (·.isQuestion)) (linesOf dialogue.unread)).mapM replyOf := by
  induction prompts generalizing dialogue with
  | nil => rfl
  | cons prompt rest ih =>
      rw [Dialogue.repliesTo]
      by_cases hquestion : prompt.isQuestion
      · obtain ⟨hline, hbehind⟩ := takeLine_eq dialogue.unread
        rw [if_pos hquestion, List.countP_cons_of_pos hquestion, linesFor, List.mapM_cons]
        simp only [Dialogue.say, hline]
        cases hreply : replyOf ((linesOf dialogue.unread).headD []) with
        | error fault => rfl
        | ok reply =>
            simp only [ih, hbehind]
            cases (linesFor (rest.countP (·.isQuestion)) (linesOf dialogue.unread).tail).mapM
              replyOf <;> rfl
      · rw [if_neg hquestion, List.countP_cons_of_neg hquestion, ih]
        rfl

/-- A dialogue without a fault shows everything and leaves the lines that no question took. -/
theorem repliesTo_after {prompts : List Prompt} {dialogue : Dialogue}
    {replies : List (Option Value)}
    (hreplies : (Dialogue.repliesTo prompts dialogue).1 = .ok replies) :
    (Dialogue.repliesTo prompts dialogue).2.transcript =
        dialogue.transcript ++ String.join (prompts.map Prompt.text) ∧
      linesOf (Dialogue.repliesTo prompts dialogue).2.unread =
        (linesOf dialogue.unread).drop (prompts.countP (·.isQuestion)) := by
  induction prompts generalizing dialogue replies with
  | nil => simp [Dialogue.repliesTo]
  | cons prompt rest ih =>
      rw [Dialogue.repliesTo] at hreplies ⊢
      rw [List.map_cons, String.join_cons, ← String.append_assoc]
      by_cases hquestion : prompt.isQuestion
      · obtain ⟨-, hbehind⟩ := takeLine_eq dialogue.unread
        rw [if_pos hquestion] at hreplies ⊢
        rw [List.countP_cons_of_pos hquestion, ← List.drop_tail, ← hbehind]
        simp only [Dialogue.say] at hreplies ⊢
        split at hreplies
        · cases hreplies
        · obtain ⟨others, hothers, -⟩ := map_eq_ok_iff.1 hreplies
          exact ih hothers
      · rw [if_neg hquestion] at hreplies ⊢
        rw [List.countP_cons_of_neg hquestion]
        exact ih hreplies

/-- What is left of a text without the blanks at its end. -/
def TrimmedEnd (text left : String) : Prop :=
  ∃ blanks : String, text = left ++ blanks ∧ (∀ c ∈ blanks.toList, Text.isBlank c) ∧
    ∀ c ∈ left.toList.getLast?, ¬ Text.isBlank c

/-- What is left of a text without the blanks at either end. -/
def Trimmed (text left : String) : Prop :=
  ∃ blanks rest : String, text = blanks ++ rest ∧ (∀ c ∈ blanks.toList, Text.isBlank c) ∧
    (∀ c ∈ rest.toList.head?, ¬ Text.isBlank c) ∧ TrimmedEnd rest left

/-- The blanks at the end, and only those, are cut off. -/
theorem trimmedEnd_trimEnd (text : String) : TrimmedEnd text (Text.trimEnd text) := by
  refine ⟨String.ofList (text.toList.reverse.takeWhile Text.isBlank).reverse, ?_, ?_, ?_⟩
  · rw [Text.trimEnd, ← String.ofList_append, ← List.reverse_append,
      List.takeWhile_append_dropWhile, List.reverse_reverse, String.ofList_toList]
  · intro c hc
    rw [String.toList_ofList, List.mem_reverse] at hc
    exact List.all_eq_true.1 List.all_takeWhile c hc
  · intro c hc
    rw [Text.trimEnd, String.toList_ofList, List.getLast?_reverse] at hc
    have hhead := List.head?_dropWhile_not Text.isBlank text.toList.reverse
    rw [Option.mem_def.1 hc] at hhead
    simpa using hhead

theorem trimmed_trim (text : String) : Trimmed text (Text.trim text) := by
  refine ⟨String.ofList (text.toList.takeWhile Text.isBlank),
    String.ofList (text.toList.dropWhile Text.isBlank), ?_, ?_, ?_, trimmedEnd_trimEnd _⟩
  · rw [← String.ofList_append, List.takeWhile_append_dropWhile, String.ofList_toList]
  · intro c hc
    rw [String.toList_ofList] at hc
    exact List.all_eq_true.1 List.all_takeWhile c hc
  · intro c hc
    rw [String.toList_ofList] at hc
    have hhead := List.head?_dropWhile_not Text.isBlank text.toList
    rw [Option.mem_def.1 hc] at hhead
    simpa using hhead

theorem dropWhile_of_head {chars : List Char} (hhead : ∀ c ∈ chars.head?, ¬ Text.isBlank c) :
    chars.dropWhile Text.isBlank = chars := by
  cases chars with
  | nil => rfl
  | cons c rest => exact List.dropWhile_cons_of_neg (hhead c rfl)

theorem TrimmedEnd.eq_trimEnd {text left : String} (htrimmed : TrimmedEnd text left) :
    left = Text.trimEnd text := by
  obtain ⟨blanks, rfl, hblanks, hlast⟩ := htrimmed
  rw [← List.head?_reverse] at hlast
  rw [Text.trimEnd, String.toList_append, List.reverse_append,
    List.dropWhile_append_of_pos (by simpa using hblanks), dropWhile_of_head hlast,
    List.reverse_reverse, String.ofList_toList]

/-- There is no other text without the blanks at either end. -/
theorem Trimmed.eq_trim {text left : String} (htrimmed : Trimmed text left) :
    left = Text.trim text := by
  obtain ⟨blanks, rest, rfl, hblanks, hhead, hend⟩ := htrimmed
  rw [Text.trim, String.toList_append, List.dropWhile_append_of_pos hblanks,
    dropWhile_of_head hhead, String.ofList_toList]
  exact hend.eq_trimEnd

def IsText (line : Bytes) : Prop :=
  (String.fromUTF8? ⟨line.toArray⟩).isSome

/-- What the value of a setting is once the line at its place has been read, if there is one. A line
of blanks leaves the value as it is; any other one is the value that it holds as a document, or else
its text. -/
inductive SettingAfter (before : Value) : Option Bytes → Value → Prop where
  | ended : SettingAfter before none before
  | blank {line : Bytes} {text : String} (htext : String.fromUTF8? ⟨line.toArray⟩ = some text)
      (hblank : Trimmed text "") : SettingAfter before (some line) before
  | document {line : Bytes} {text answer : String} {value : Value}
      (htext : String.fromUTF8? ⟨line.toArray⟩ = some text) (htrimmed : Trimmed text answer)
      (hanswer : answer ≠ "") (hvalue : Value.ofText answer = .ok value) :
      SettingAfter before (some line) value
  | verbatim {line : Bytes} {text answer : String} {fault : Yaml.Fault}
      (htext : String.fromUTF8? ⟨line.toArray⟩ = some text) (htrimmed : Trimmed text answer)
      (hanswer : answer ≠ "") (hfault : Value.ofText answer = .error fault) :
      SettingAfter before (some line) (.string answer)

theorem replyOf_nil : replyOf [] = .ok none := by
  decide +kernel

/-- Only a line that is not text is a fault. -/
theorem replyOf_eq_error_iff {line : Bytes} {fault : FileFault} :
    replyOf line = .error fault ↔ fault = .notText ∧ ¬ IsText line := by
  unfold replyOf IsText
  cases String.fromUTF8? ⟨line.toArray⟩ with
  | none =>
      constructor
      · rintro ⟨⟩
        exact ⟨rfl, nofun⟩
      · rintro ⟨rfl, -⟩
        rfl
  | some text => exact ⟨nofun, fun hfault => absurd rfl hfault.2⟩

/-- A setting holds what its line says afterwards. -/
theorem settingAfter_of_replyOf {line : Option Bytes} {reply : Option Value}
    (hreply : replyOf (line.getD []) = .ok reply) (before : Value) :
    SettingAfter before line (reply.getD before) := by
  cases line with
  | none =>
      cases replyOf_nil.symm.trans hreply
      exact .ended
  | some line =>
      unfold replyOf at hreply
      rw [Option.getD_some] at hreply
      cases htext : String.fromUTF8? ⟨line.toArray⟩ with
      | none =>
          rw [htext] at hreply
          cases hreply
      | some text =>
          rw [htext] at hreply
          have htrimmed := trimmed_trim text
          by_cases hblank : Text.trim text = ""
          · simp only [hblank, if_true] at hreply
            cases hreply
            exact .blank htext (hblank ▸ htrimmed)
          · simp only [hblank, if_false] at hreply
            cases hreply
            rw [Option.getD_some, answerValue]
            cases hvalue : Value.ofText (Text.trim text) with
            | ok value => exact .document htext htrimmed hblank hvalue
            | error fault => exact .verbatim htext htrimmed hblank hvalue

theorem Dialogue.configure_eq_error_iff {dialogue : Dialogue} {providers : Providers}
    {failure : Failure} :
    (dialogue.configure providers).1 = .error failure ↔
      ∃ fault, (Dialogue.repliesTo providers.prompts dialogue).1 = .error fault ∧
        failure = .file fault := by
  unfold Dialogue.configure
  rcases Dialogue.repliesTo providers.prompts dialogue with ⟨fault | replies, left⟩ <;>
    simp [eq_comm]

theorem Dialogue.configure_eq_ok {dialogue : Dialogue} {providers after : Providers}
    (hafter : (dialogue.configure providers).1 = .ok after) :
    ∃ replies, (Dialogue.repliesTo providers.prompts dialogue).1 = .ok replies ∧
      providers.withReplies replies = after ∧
      (dialogue.configure providers).2 = (Dialogue.repliesTo providers.prompts dialogue).2 := by
  unfold Dialogue.configure at hafter ⊢
  cases hrun : Dialogue.repliesTo providers.prompts dialogue with
  | mk result left =>
      rw [hrun] at hafter
      cases result with
      | error fault => cases hafter
      | ok replies =>
          cases hafter
          exact ⟨replies, rfl, rfl, rfl⟩

/-- Every provider keeps its API, and all but the values of its settings. -/
theorem Providers.entries_withReplies (providers : Providers) (replies : List (Option Value)) :
    List.Forall₂ (fun before after => after.1 = before.1 ∧ before.2.DiffersInValues after.2)
      providers.entries (providers.withReplies replies).entries := by
  have hentries : ∀ (entries : List (String × Provider)) (replies : List (Option Value)),
      List.Forall₂ (fun before after => after.1 = before.1 ∧ before.2.DiffersInValues after.2)
        entries (mapAccumEntries (fun replies provider => provider.withReplies replies) replies
          entries) := by
    intro entries
    induction entries with
    | nil => exact fun _ => .nil
    | cons entry rest ih =>
        intro replies
        exact .cons ⟨rfl, entry.2.withReplies_differsInValues replies⟩ (ih _)
  exact hentries providers.entries replies

/-- The settings that a provider is asked for: those of a mapping, and none of anything else. -/
inductive AskedOf (provider : Provider) : List (Value × Value) → Prop where
  | mapping {settings : List (Value × Value)} (hconfig : provider.config = .mapping settings) :
      AskedOf provider settings
  | other (hconfig : ∀ settings, provider.config ≠ .mapping settings) : AskedOf provider []

/-- The settings that all providers are asked for, in the order of the APIs. -/
def AskedOfAll (providers : Providers) (settings : List (Value × Value)) : Prop :=
  ∃ asked, List.Forall₂ (fun entry settings => AskedOf entry.2 settings) providers.entries asked ∧
    settings = asked.flatten

/-- How a value is shown: a text as it is, null by its name, and any other value as it is printed
as a document, without the blanks behind it, or not at all if it cannot be printed. -/
inductive ShownAs : Value → String → Prop where
  | text (s : String) : ShownAs (.string s) s
  | null : ShownAs .null "null"
  | document {value : Value} {text shown : String} (htext : ∀ s, value ≠ .string s)
      (hnull : value ≠ .null) (hdocument : value.text = .ok text)
      (hshown : TrimmedEnd text shown) : ShownAs value shown
  | nothing {value : Value} {fault : Yaml.Fault} (htext : ∀ s, value ≠ .string s)
      (hnull : value ≠ .null) (hfault : value.text = .error fault) : ShownAs value ""

/-- The question for a setting of an API, which shows the value that the setting has. -/
def QuestionFor (api : String) (setting : Value × Value) (question : String) : Prop :=
  ∃ key value, ShownAs setting.1 key ∧ ShownAs setting.2 value ∧
    question = api ++ "." ++ key ++ " (default: " ++ value ++ "): "

/-- What is shown of the provider of an API: a heading, and a question for each of its settings. -/
def ShownOf (api : String) (provider : Provider) (shown : String) : Prop :=
  ∃ settings questions, AskedOf provider settings ∧
    List.Forall₂ (QuestionFor api) settings questions ∧
    shown = "Configuring API `" ++ api ++ "` (provider: " ++ provider.providerId ++ ")\n" ++
      String.join questions

theorem Provider.askedOf_settings (provider : Provider) :
    AskedOf provider provider.settings := by
  unfold Provider.settings
  cases hconfig : provider.config with
  | mapping settings => exact .mapping hconfig
  | _ => exact .other fun settings hmapping => by cases hconfig.symm.trans hmapping

theorem Providers.askedOfAll_settings (providers : Providers) :
    AskedOfAll providers providers.settings := by
  refine ⟨providers.entries.map fun entry => entry.2.settings, ?_, ?_⟩
  · rw [List.forall₂_map_right_iff, List.forall₂_same]
    exact fun entry _ => entry.2.askedOf_settings
  · rw [Providers.settings, List.flatMap_def]

theorem displayValue_shownAs (value : Value) : ShownAs value (displayValue value) := by
  unfold displayValue
  split
  case h_1 s => exact .text s
  case h_2 => exact .null
  case h_3 htext hnull =>
    cases hdocument : value.text with
    | ok text => exact .document htext hnull hdocument (trimmedEnd_trimEnd text)
    | error fault => exact .nothing htext hnull hdocument

theorem join_flatMap {α : Type} (texts : α → List String) (items : List α) :
    String.join (items.flatMap texts) =
      String.join (items.map fun item => String.join (texts item)) := by
  induction items with
  | nil => rfl
  | cons item rest ih =>
      rw [List.flatMap_cons, String.join_append, List.map_cons, String.join_cons, ih]

/-- The prompts of a provider are its heading and its questions. -/
theorem Provider.shownOf_prompts (api : String) (provider : Provider) :
    ShownOf api provider (String.join ((provider.prompts api).map Prompt.text)) := by
  refine ⟨provider.settings,
    provider.settings.map fun setting => (Prompt.question api setting.1 setting.2).text,
    provider.askedOf_settings, ?_, ?_⟩
  · rw [List.forall₂_map_right_iff, List.forall₂_same]
    exact fun setting _ => ⟨_, _, displayValue_shownAs _, displayValue_shownAs _, rfl⟩
  · rw [Provider.prompts, List.map_cons, String.join_cons, List.map_map]
    rfl

/-- What a dialogue comes to that no line breaks off. The setting at each place takes the line at
that place; the lines that no setting took are left over, and all headings and questions have been
shown, each question with the value from before. -/
structure Dialogue.AnswersInTurn (dialogue : Dialogue) (providers after : Providers)
    (left : Dialogue) : Prop where
  frame : List.Forall₂
    (fun before after => after.1 = before.1 ∧ before.2.DiffersInValues after.2)
    providers.entries after.entries
  values : ∀ (place : Nat) (setting : Value × Value), providers.settings[place]? = some setting →
    ∃ value, SettingAfter setting.2 (linesOf dialogue.unread)[place]? value ∧
      after.settings[place]? = some (setting.1, value)
  consumed : ((linesOf dialogue.unread).take providers.settings.length).flatten ++ left.unread =
    dialogue.unread
  unread : linesOf left.unread = (linesOf dialogue.unread).drop providers.settings.length
  shown : ∃ shown, List.Forall₂ (fun entry shown => ShownOf entry.1 entry.2 shown)
      providers.entries shown ∧
    left.transcript = dialogue.transcript ++ String.join shown

/-- A dialogue that comes to its end has answered the settings in turn. -/
theorem Dialogue.answersInTurn {dialogue : Dialogue} {providers after : Providers}
    (hafter : (dialogue.configure providers).1 = .ok after) :
    dialogue.AnswersInTurn providers after (dialogue.configure providers).2 := by
  obtain ⟨replies, hreplies, rfl, hleft⟩ := Dialogue.configure_eq_ok hafter
  obtain ⟨hshown, hunread⟩ := repliesTo_after hreplies
  have hlength : replies.length = providers.settings.length := by
    rw [length_of_repliesTo hreplies, countP_prompts]
  rw [repliesTo_eq_mapM, mapM_eq_ok_iff, countP_prompts] at hreplies
  rw [countP_prompts, ← hleft] at hunread
  rw [← hleft] at hshown
  constructor
  case frame => exact providers.entries_withReplies replies
  case values =>
    intro place setting hsetting
    obtain ⟨hplace, -⟩ := List.getElem?_eq_some_iff.1 hsetting
    have hreply : replies[place]? = some replies[place] := List.getElem?_eq_getElem _
    have hread := (List.forall₂_iff_get.1 hreplies).2 place
      (by rw [(List.forall₂_iff_get.1 hreplies).1]; omega) (by omega)
    refine ⟨replies[place].getD setting.2, settingAfter_of_replyOf ?_ setting.2, ?_⟩
    · have hline := getElem?_linesFor hplace (linesOf dialogue.unread)
      rw [List.getElem?_eq_some_iff] at hline
      obtain ⟨hbound, hline⟩ := hline
      rw [← hline]
      exact hread
    · rw [Providers.settings_withReplies (Nat.le_of_eq hlength.symm), List.getElem?_zipWith,
        hsetting, hreply]
      rfl
  case consumed =>
    rw [← flatten_linesOf (dialogue.configure providers).2.unread, hunread, ← List.flatten_append,
      List.take_append_drop, flatten_linesOf]
  case unread => exact hunread
  case shown =>
    refine ⟨providers.entries.map fun entry =>
      String.join ((entry.2.prompts entry.1).map Prompt.text), ?_, ?_⟩
    · rw [List.forall₂_map_right_iff, List.forall₂_same]
      exact fun entry _ => entry.2.shownOf_prompts entry.1
    · rw [hshown, Providers.prompts, List.map_flatMap, join_flatMap]

/-- For all providers and every input, the dialogue fails exactly if one of the lines that it asks
for is not text, and then because of that. Else the settings are answered by the lines in turn. The
settings of any providers are those of the mappings among their configurations. Behind the end of
the input replies are blank, and never faults. -/
theorem dialogue_answers_in_turn (providers : Providers) (dialogue : Dialogue) :
    (∀ others : Providers, AskedOfAll others others.settings) ∧
      ((∃ failure, (dialogue.configure providers).1 = .error failure) ↔
        ∃ line ∈ (linesOf dialogue.unread).take providers.settings.length, ¬ IsText line) ∧
      (∀ failure, (dialogue.configure providers).1 = .error failure →
        failure = .file .notText) ∧
      ∀ after, (dialogue.configure providers).1 = .ok after →
        dialogue.AnswersInTurn providers after (dialogue.configure providers).2 := by
  have hfault : ∀ failure, (dialogue.configure providers).1 = .error failure →
      failure = .file .notText ∧
        ∃ line ∈ (linesOf dialogue.unread).take providers.settings.length, ¬ IsText line := by
    intro failure hfailure
    obtain ⟨fault, hreplies, rfl⟩ := Dialogue.configure_eq_error_iff.1 hfailure
    rw [repliesTo_eq_mapM, countP_prompts] at hreplies
    obtain ⟨line, hline, hreply⟩ := exists_of_mapM_eq_error hreplies
    obtain ⟨rfl, hnot⟩ := replyOf_eq_error_iff.1 hreply
    rcases mem_linesFor hline with rfl | htaken
    · cases replyOf_nil.symm.trans hreply
    · exact ⟨rfl, line, htaken, hnot⟩
  refine ⟨Providers.askedOfAll_settings,
    ⟨fun ⟨failure, hfailure⟩ => (hfault failure hfailure).2, ?_⟩,
    fun failure hfailure => (hfault failure hfailure).1, fun after => Dialogue.answersInTurn⟩
  rintro ⟨line, hline, hnot⟩
  cases houtcome : (dialogue.configure providers).1 with
  | error failure => exact ⟨failure, rfl⟩
  | ok after =>
      obtain ⟨replies, hreplies, -, -⟩ := Dialogue.configure_eq_ok houtcome
      rw [repliesTo_eq_mapM, countP_prompts] at hreplies
      obtain ⟨reply, hreply⟩ := exists_of_mapM_eq_ok hreplies (mem_linesFor_of_mem_take hline)
      cases (replyOf_eq_error_iff.2 ⟨rfl, hnot⟩).symm.trans hreply

/-- Providers of which the second has no settings. -/
def localProviders (address : Value) : Providers :=
  let settings : List (Value × Value) :=
    [(.string "url", address), (.string "timeout", .number (.whole (.ofInt64 60)))]
  .ofList [("inference", ⟨"remote::nvidia", .mapping settings⟩),
    ("memory", ⟨"meta-reference", .null⟩),
    ("safety", ⟨"guard", .mapping [(.string "enabled", .bool true)]⟩)]

/-- An address, a blank line, and a third line without an end. -/
def threeLines : Dialogue where
  unread := "https://x \n\t\ntrue".toUTF8.toList

/-- The address goes to the first setting and the blank line to the second; the third line is not
taken by the provider without settings. -/
theorem localProviders_answered_in_turn :
    (threeLines.configure (localProviders (.string "http://localhost:8000"))).1 =
        .ok (localProviders (.string "https://x")) ∧
      threeLines.AnswersInTurn (localProviders (.string "http://localhost:8000"))
        (localProviders (.string "https://x"))
        (threeLines.configure (localProviders (.string "http://localhost:8000"))).2 := by
  have hafter : (threeLines.configure (localProviders (.string "http://localhost:8000"))).1 =
      .ok (localProviders (.string "https://x")) := by
    decide +kernel
  exact ⟨hafter, (dialogue_answers_in_turn _ threeLines).2.2.2 _ hafter⟩

end StackBridge.Build
