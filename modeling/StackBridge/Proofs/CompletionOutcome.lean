/-
What a completion comes to. Its first choice is answered with if nothing is missing and every call
parses; otherwise the first thing that is wrong decides the failure, and what comes behind it in the
order of the checks plays no role. Nothing but the first choice matters, apart from the identifier
that is named where there is no choice.
-/
import StackBridge.Proofs.CallConversion

namespace StackBridge.Conversion

open Chat (StopReason)

/-- What a finish reason means. -/
inductive StopsFor : String → StopReason → Prop where
  | length : StopsFor "length" .outOfTokens
  | toolCalls : StopsFor "tool_calls" .endOfMessage
  | other {reason : String} (hlength : reason ≠ "length") (hcalls : reason ≠ "tool_calls") :
      StopsFor reason .endOfTurn

/-- Every finish reason is mapped to what it means. -/
theorem convertFinishReason_eq_iff (reason : String) (stop : StopReason) :
    convertFinishReason (some reason) = stop ↔ StopsFor reason stop := by
  unfold convertFinishReason
  constructor
  · rintro rfl
    by_cases hlength : reason = "length"
    · subst hlength
      exact .length
    · by_cases hcalls : reason = "tool_calls"
      · subst hcalls
        exact .toolCalls
      · simp only [hlength, hcalls, if_false]
        exact .other hlength hcalls
  · intro hstop
    cases hstop with
    | length => rfl
    | toolCalls => rfl
    | other hlength hcalls => simp only [hlength, hcalls, if_false]

/-- The calls of a message, with all that they are given with. -/
def messageCalls (message : Provider.ChoiceMessage) : List GivenCall :=
  (message.toolCalls.getD []).map givenWhole

/-- Whether a choice gives a reason why it ended. -/
def GivesReason (choice : Provider.Choice) (reason : String) : Prop :=
  choice.finishReason = some reason ∧ reason ≠ ""

/-- What a choice comes to. The checks are made in this order: the message, the finish reason, the
calls one by one. -/
inductive ChoiceOutcome (choice : Provider.Choice) : Except Failure Chat.Response → Prop where
  | noMessage (hmessage : choice.message = none) :
      ChoiceOutcome choice (.error (.malformedResponse "message not found"
        { fieldPath := some s!"choices[{choice.index.toNat}].message"
          source := some "choice_mapper" }))
  | noReason (hmessage : choice.message.isSome)
      (hreason : choice.finishReason = none ∨ choice.finishReason = some "") :
      ChoiceOutcome choice (.error (.malformedResponse "finish_reason not found"
        { fieldPath := some s!"choices[{choice.index.toNat}].finish_reason"
          source := some "choice_mapper" }))
  | badCall {message : Provider.ChoiceMessage} {reason : String} {before after : List GivenCall}
      {first : GivenCall} {failure : Failure} (hmessage : choice.message = some message)
      (hreason : GivesReason choice reason)
      (hcalls : messageCalls message = before ++ first :: after)
      (hbefore : ∀ call ∈ before, call.Parses) (hfirst : first.FailsWith failure) :
      ChoiceOutcome choice (.error failure)
  | answered {message : Provider.ChoiceMessage} {reason : String} {stop : StopReason}
      {calls : List Chat.ToolCall} (hmessage : choice.message = some message)
      (hreason : GivesReason choice reason) (hstop : StopsFor reason stop)
      (hcalls : List.Forall₂ GivenCall.Gives (messageCalls message) calls) :
      ChoiceOutcome choice (.ok
        { message :=
            { role := .assistant, content := message.content.getD "", stopReason := stop
              toolCalls := calls }
          logprobs := convertLogprobs choice.logprobs })

/-- What a completion comes to: what its first choice does, if there is one. -/
inductive CompletionOutcome (completion : Provider.Completion) :
    Except Failure Chat.Response → Prop where
  | noChoice (hchoices : completion.choices.head? = none) :
      CompletionOutcome completion (.error (.malformedResponse "no choices in response"
        { fieldPath := some "choices", details := some s!"completion id '{completion.id}'"
          source := some "choice_mapper" }))
  | choice {choice : Provider.Choice} {result : Except Failure Chat.Response}
      (hchoices : completion.choices.head? = some choice) (hresult : ChoiceOutcome choice result) :
      CompletionOutcome completion result

/-- The complaint names the part, and the choice by its own index. -/
theorem missingPart_eq (choice : Provider.Choice) {part message path : String}
    (hmessage : part ++ " not found" = message) (hpath : "]." ++ part = path) :
    missingPart choice part = .malformedResponse message
      { fieldPath := some ("choices[" ++ toString choice.index.toNat ++ path)
        source := some "choice_mapper" } := by
  subst hmessage hpath
  rw [← String.append_assoc]
  rfl

/-- A choice without a message fails for that. -/
theorem convertChoice_of_no_message {choice : Provider.Choice} (hmessage : choice.message = none) :
    convertChoice choice = .error (.malformedResponse "message not found"
      { fieldPath := some s!"choices[{choice.index.toNat}].message"
        source := some "choice_mapper" }) := by
  have hmissing : convertChoice choice = .error (missingPart choice "message") := by
    rw [convertChoice, hmessage]
    rfl
  rw [hmissing, missingPart_eq choice rfl rfl]
  rfl

/-- A choice with a message and no reason why it ended fails for that. -/
theorem convertChoice_of_no_reason {choice : Provider.Choice} (hmessage : choice.message.isSome)
    (hreason : choice.finishReason = none ∨ choice.finishReason = some "") :
    convertChoice choice = .error (.malformedResponse "finish_reason not found"
      { fieldPath := some s!"choices[{choice.index.toNat}].finish_reason"
        source := some "choice_mapper" }) := by
  obtain ⟨message, hmessage⟩ := Option.isSome_iff_exists.1 hmessage
  have hmissing : convertChoice choice = .error (missingPart choice "finish_reason") := by
    rw [convertChoice, hmessage]
    rcases hreason with hnone | hempty
    · rw [hnone]
      rfl
    · rw [hempty]
      rfl
  rw [hmissing, missingPart_eq choice rfl rfl]
  rfl

/-- With nothing missing the calls decide. -/
theorem convertChoice_of_given {choice : Provider.Choice} {message : Provider.ChoiceMessage}
    {reason : String} (hmessage : choice.message = some message)
    (hreason : GivesReason choice reason) :
    convertChoice choice =
      (convertToolCalls ((messageCalls message).map (·.record))).map fun calls =>
        { message :=
            { content := message.content.getD "", stopReason := convertFinishReason (some reason)
              toolCalls := calls }
          logprobs := convertLogprobs choice.logprobs } := by
  have hkept : choice.finishReason.filter (· ≠ "") = some reason := by
    rw [hreason.1, Option.filter_some, if_pos (decide_eq_true hreason.2)]
  rw [convertChoice, hmessage, messageCalls, ← map_record_whole]
  simp only [hkept]
  cases convertToolCalls ((message.toolCalls.getD []).map (·.record)) <;> rfl

theorem missing_or_givesReason (choice : Provider.Choice) :
    (choice.finishReason = none ∨ choice.finishReason = some "") ∨
      ∃ reason, GivesReason choice reason := by
  cases hreason : choice.finishReason with
  | none => exact Or.inl (Or.inl rfl)
  | some reason =>
      by_cases hempty : reason = ""
      · exact Or.inl (Or.inr (by rw [hempty]))
      · exact Or.inr ⟨reason, hreason, hempty⟩

/-- Every choice comes to something. -/
theorem convertChoice_outcome (choice : Provider.Choice) :
    ChoiceOutcome choice (convertChoice choice) := by
  cases hmessage : choice.message with
  | none =>
      rw [convertChoice_of_no_message hmessage]
      exact .noMessage hmessage
  | some message =>
      rcases missing_or_givesReason choice with hmissing | ⟨reason, hreason⟩
      · have hsome : choice.message.isSome := Option.isSome_iff_exists.2 ⟨message, hmessage⟩
        rw [convertChoice_of_no_reason hsome hmissing]
        exact .noReason hsome hmissing
      · rw [convertChoice_of_given hmessage hreason]
        have hall := allOrFirst (messageCalls message)
        cases hresult : convertToolCalls ((messageCalls message).map (·.record)) with
        | error failure =>
            obtain ⟨before, first, after, hcalls, hbefore, hfirst⟩ :=
              (hall.fails_iff failure).1 hresult
            exact .badCall hmessage hreason hcalls hbefore hfirst
        | ok calls =>
            exact .answered hmessage hreason ((convertFinishReason_eq_iff reason _).1 rfl)
              ((hall.calls_iff calls).1 hresult)

/-- It comes to nothing else. -/
theorem ChoiceOutcome.eq_convertChoice {choice : Provider.Choice}
    {result : Except Failure Chat.Response} (hresult : ChoiceOutcome choice result) :
    convertChoice choice = result := by
  cases hresult with
  | noMessage hmessage => exact convertChoice_of_no_message hmessage
  | noReason hmessage hreason => exact convertChoice_of_no_reason hmessage hreason
  | badCall hmessage hreason hcalls hbefore hfirst =>
      have hfails := ((allOrFirst _).fails_iff _).2 ⟨_, _, _, hcalls, hbefore, hfirst⟩
      rw [convertChoice_of_given hmessage hreason, hfails]
      rfl
  | answered hmessage hreason hstop hcalls =>
      have hconverted := ((allOrFirst _).calls_iff _).2 hcalls
      rw [convertChoice_of_given hmessage hreason, hconverted,
        (convertFinishReason_eq_iff _ _).2 hstop]
      rfl

/-- A completion comes to its outcome and to nothing else. -/
theorem convertCompletion_eq_iff (completion : Provider.Completion)
    (result : Except Failure Chat.Response) :
    convertCompletion completion = result ↔ CompletionOutcome completion result := by
  unfold convertCompletion
  constructor
  · rintro rfl
    cases hchoices : completion.choices with
    | nil => exact .noChoice (by rw [hchoices, List.head?_nil])
    | cons choice others =>
        exact .choice (by rw [hchoices, List.head?_cons]) (convertChoice_outcome choice)
  · intro hresult
    cases hresult with
    | noChoice hchoices =>
        rw [List.head?_eq_none_iff.1 hchoices]
        rfl
    | choice hchoices hresult =>
        obtain ⟨others, hchoices⟩ := List.head?_eq_some_iff.1 hchoices
        rw [hchoices]
        exact hresult.eq_convertChoice

theorem parses_givenWhole_iff (call : Provider.ToolCall) :
    (givenWhole call).Parses ↔ ∃ values, IsObjectText call.function.arguments values := by
  simp [GivenCall.Parses, givenWhole]

theorem parses_messageCalls_iff (message : Provider.ChoiceMessage) :
    (∀ call ∈ messageCalls message, call.Parses) ↔
      ∀ call ∈ message.toolCalls.getD [], ∃ values,
        IsObjectText call.function.arguments values := by
  simp only [messageCalls, List.forall_mem_map, parses_givenWhole_iff]

/-- Whether a choice lacks nothing that an answer needs. -/
def Answerable (choice : Provider.Choice) : Prop :=
  (∃ message, choice.message = some message ∧
    ∀ call ∈ message.toolCalls.getD [], ∃ values, IsObjectText call.function.arguments values) ∧
  ∃ reason, choice.finishReason = some reason ∧ reason ≠ ""

theorem exists_choiceOutcome_iff (choice : Provider.Choice) :
    (∃ response, ChoiceOutcome choice (.ok response)) ↔ Answerable choice := by
  constructor
  · rintro ⟨_, hresponse⟩
    cases hresponse with
    | answered hmessage hreason _ hcalls =>
        refine ⟨⟨_, hmessage, ?_⟩, _, hreason⟩
        rw [← parses_messageCalls_iff, ← exists_forall₂_gives_iff]
        exact ⟨_, hcalls⟩
  · rintro ⟨⟨message, hmessage, hparses⟩, reason, hreason⟩
    rw [← parses_messageCalls_iff, ← exists_forall₂_gives_iff] at hparses
    obtain ⟨calls, hcalls⟩ := hparses
    exact ⟨_, .answered hmessage hreason ((convertFinishReason_eq_iff reason _).1 rfl) hcalls⟩

theorem exists_completionOutcome_iff (completion : Provider.Completion) :
    (∃ response, CompletionOutcome completion (.ok response)) ↔
      ∃ choice, completion.choices.head? = some choice ∧ Answerable choice := by
  simp only [← exists_choiceOutcome_iff]
  constructor
  · rintro ⟨response, hresponse⟩
    cases hresponse with
    | choice hchoices hresponse => exact ⟨_, hchoices, response, hresponse⟩
  · rintro ⟨choice, hchoices, response, hresponse⟩
    exact ⟨response, .choice hchoices hresponse⟩

/-- Neither the model nor the usage nor the other choices play a role. -/
theorem CompletionOutcome.congr {completion other : Provider.Completion}
    {result : Except Failure Chat.Response} (hresult : CompletionOutcome completion result)
    (hid : completion.id = other.id)
    (hchoices : completion.choices.head? = other.choices.head?) :
    CompletionOutcome other result := by
  cases hresult with
  | noChoice hnone =>
      rw [hid]
      exact .noChoice (hchoices ▸ hnone)
  | choice hsome hresult => exact .choice (hchoices ▸ hsome) hresult

/-- A completion is answered exactly if its first choice lacks nothing, and comes to one thing in
any case, which its identifier and its first choice decide. -/
theorem completion_answered_or_first_fault :
    (∀ completion : Provider.Completion,
      ((∃ response, convertCompletion completion = .ok response) ↔
        ∃ choice, completion.choices.head? = some choice ∧ Answerable choice) ∧
      ∀ result, convertCompletion completion = result ↔ CompletionOutcome completion result) ∧
    ∀ completion other : Provider.Completion, completion.id = other.id →
      completion.choices.head? = other.choices.head? →
      convertCompletion completion = convertCompletion other := by
  refine ⟨fun completion => ⟨?_, convertCompletion_eq_iff completion⟩, ?_⟩
  · simp only [convertCompletion_eq_iff]
    exact exists_completionOutcome_iff completion
  · intro completion other hid hchoices
    rw [convertCompletion_eq_iff]
    exact ((convertCompletion_eq_iff other _).1 rfl).congr hid.symm hchoices.symm

/-- A choice with an empty finish reason and a call that does not parse. -/
def spoiltChoice : Provider.Choice where
  index := 7
  message := some ⟨none, none, some [.ofFunction "call_1" "lookup" "[1,2]"]⟩
  finishReason := some ""
  logprobs := none

/-- The finish reason is asked for before the calls, and a choice behind the first is never looked
at. -/
theorem spoiltChoice_fails_alike :
    let completion : Provider.Completion := ⟨"c", "m", [spoiltChoice], none⟩
    let other : Provider.Completion :=
      ⟨"c", "n", [spoiltChoice, { spoiltChoice with finishReason := some "stop" }], some .null⟩
    completion.id = other.id ∧ completion.choices.head? = other.choices.head? ∧
      convertCompletion completion = convertCompletion other ∧
      convertCompletion other = .error (.malformedResponse "finish_reason not found"
        { fieldPath := some "choices[7].finish_reason", source := some "choice_mapper" }) := by
  intro completion other
  obtain ⟨hdecided, hcongr⟩ := completion_answered_or_first_fault
  have hspoilt : ChoiceOutcome spoiltChoice _ := .noReason rfl (Or.inr rfl)
  exact ⟨rfl, rfl, hcongr completion other rfl rfl, ((hdecided other).2 _).2 (.choice rfl hspoilt)⟩

end StackBridge.Conversion
