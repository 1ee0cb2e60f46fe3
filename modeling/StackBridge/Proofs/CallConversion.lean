/-
Calls are converted all or none. The arguments of a call are read exactly where their text parses as
an object, so a list of calls converts if every text does, and otherwise fails with the fault of the
first that does not. A call within a chunk may lack any of its parts: a name that is missing is
empty, while arguments that are missing never parse.
-/
import StackBridge.Proofs.DecodingRoutes
import StackBridge.Proofs.Parts

namespace StackBridge

open Json (Cursor Reader)

namespace Json.Reader

variable {α β : Type} {cursor after : Cursor}

/-- Members that are taken in one by one are the members of an object, whatever is made of them. -/
theorem Members.of_membersFrom {member : String → β → Reader β} {item : Reader α}
    (hmember : ∀ ⦃name state named next last⦄, (member name state).Answers named next last →
      ∃ colons value, colon.Answers named () colons ∧ item.Answers colons value last)
    {steps : Nat} {isFirst : Bool} {state final : β}
    (hread : (membersFrom member steps isFirst state).Answers cursor final after) :
    ∃ found, Members item isFirst cursor found after ∧ found.length < steps := by
  induction steps generalizing cursor isFirst state with
  | zero => simp [membersFrom] at hread
  | succ steps ih =>
      rw [membersFrom] at hread
      obtain ⟨more, start, hnext, hread⟩ := answers_bind_iff.1 hread
      cases more with
      | false =>
          obtain ⟨rfl, rfl⟩ := by simpa using hread
          exact ⟨[], .done hnext, Nat.succ_pos steps⟩
      | true =>
          obtain ⟨name, named, hkey, hread⟩ := answers_bind_iff.1 hread
          obtain ⟨next, between, htaken, hread⟩ := answers_bind_iff.1 hread
          obtain ⟨colons, value, hcolon, hvalue⟩ := hmember htaken
          obtain ⟨found, hfound, hlength⟩ := ih hread
          exact ⟨(name, value) :: found, .more hnext hkey hcolon hvalue hfound,
            Nat.succ_lt_succ hlength⟩

/-- An object is read once its members are. They are gathered from the last to the first. -/
theorem answers_value_object {inner : Nat} {inside : Cursor} {entries : List (String × Json)}
    (hhead : cursor.token.rest.head? = some '\x7b')
    (hmembers : Members (value inner) true cursor.token.next entries inside)
    (hcount : entries.length ≤ cursor.token.next.rest.length)
    (hclose : closeObject.Answers inside () after) :
    (value (inner + 1)).Answers cursor (.object entries) after := by
  have hgathered : Members (value inner) true cursor.token.next entries.reverse.reverse inside := by
    rwa [List.reverse_reverse]
  have hentries := answers_members_iff.2 ⟨hgathered, by rwa [List.length_reverse]⟩
  rw [value, valueOr, answers_bind_iff]
  refine ⟨_, _, answers_peekToken_iff.2 ⟨rfl, hhead⟩, ?_⟩
  simp only [answers_bind_iff, answers_object_iff, answers_pure_iff]
  exact ⟨_, _, ⟨inside, hentries, hclose⟩, rfl, by rw [List.reverse_reverse]⟩

end Json.Reader

/-- What is read as a map of values is an object. -/
theorem Codec.exists_object_of_read_map {depth : Nat} {cursor after : Cursor}
    {values : SortedMap Json} (hvalues : (any.map.read depth).Answers cursor values after) :
    ∃ entries, (Reader.value depth).Answers cursor (.object entries) after := by
  have hvalues : (readToken _).Answers cursor values after := hvalues
  rw [readToken] at hvalues
  obtain ⟨next, _, hpeek, hvalues⟩ := Reader.answers_bind_iff.1 hvalues
  obtain ⟨rfl, hhead⟩ := Reader.answers_peekToken_iff.1 hpeek
  cases next with
  | none => simp at hvalues
  | some c =>
      by_cases hopen : c = '\x7b'
      · subst hopen
        simp only [if_true, Reader.answers_anchored_iff, Reader.answers_deeper_iff,
          Reader.answers_object_iff, Reader.members, Reader.answers_bind_iff,
          Reader.answers_remaining_iff] at hvalues
        obtain ⟨inner, rfl, inside, ⟨_, _, ⟨rfl, rfl⟩, hread⟩, hclose⟩ := hvalues
        have hmembers : ∃ entries,
            Reader.Members (Reader.value inner) true cursor.token.next entries inside ∧
              entries.length < cursor.token.next.rest.length + 1 := by
          refine Reader.Members.of_membersFrom (fun name state named next last hmember => ?_) hread
          simp only [any, Reader.answers_bind_iff, Reader.answers_pure_iff] at hmember
          obtain ⟨⟨⟩, colons, hcolon, _, _, ⟨json, _, hjson, rfl, _⟩, rfl, _⟩ := hmember
          exact ⟨colons, json, hcolon, hjson⟩
        obtain ⟨entries, hentries, hlength⟩ := hmembers
        exact ⟨entries,
          Reader.answers_value_object hhead hentries (Nat.le_of_lt_succ hlength) hclose⟩
      · simp [hopen] at hvalues

namespace Conversion

open Provider (PartialToolCall ToolCallRecord)

/-- Whether a text parses as an object, and the members of the object in normal form. -/
def IsObjectText (text : String) (values : SortedMap Json) : Prop :=
  ∃ members, Json.parse text = .ok (.object members) ∧
    (Json.object members).normal = Json.ofMap values

/-- Arguments are the last member of each name, in normal form. -/
theorem decode_arguments_object (members : List (String × Json)) :
    arguments.decode (.object members) =
      .ok (SortedMap.ofList (members.map fun member => (member.1, member.2.normal))) := by
  have hread : members.mapM (fun member => (member.1, ·) <$> Codec.any.decode member.2) =
      .ok (members.map fun member => (member.1, member.2.normal)) := by
    induction members with
    | nil => rfl
    | cons member rest ih =>
        rw [List.mapM_cons, ih]
        rfl
  change SortedMap.ofList <$> members.mapM _ = _
  rw [hread]
  rfl

/-- Arguments are read exactly from the texts of objects. -/
theorem ofText_arguments_iff {text : String} {values : SortedMap Json} :
    arguments.ofText text = .ok values ↔ IsObjectText text values := by
  have htracks : arguments.Tracks := Codec.tracks_any.map
  have hdecode : ∀ members, arguments.decode (.object members) = .ok values ↔
      (Json.object members).normal = Json.ofMap values := by
    intro members
    rw [decode_arguments_object, Json.normal_object, Json.ofMap, Json.object.injEq,
      Except.ok.injEq, SortedMap.mk.injEq]
    rfl
  constructor
  · intro hvalues
    obtain ⟨after, last, hread, hend⟩ := Reader.parse_eq_ok_iff.1 hvalues
    obtain ⟨members, hmembers⟩ := Codec.exists_object_of_read_map hread
    have hparse : Json.parse text = .ok (.object members) :=
      Reader.parse_eq_ok_iff.2 ⟨after, last, hmembers, hend⟩
    have hvalue := (htracks.ofText_eq_ok_iff hparse values).1 hvalues
    exact ⟨members, hparse, (hdecode members).1 hvalue⟩
  · rintro ⟨members, hparse, hnormal⟩
    exact (htracks.ofText_eq_ok_iff hparse values).2 ((hdecode members).2 hnormal)

/-- Nothing is read from no text. -/
theorem ofText_arguments_empty :
    arguments.ofText "" = .error ⟨.malformed .endInValue, some ⟨1, 0⟩⟩ := by
  decide +kernel

/-- What a call is given with. Any part of it may be missing. -/
structure GivenCall where
  id : Option String
  name : Option String
  arguments : Option String
deriving DecidableEq, Repr

/-- A call of a whole completion has all its parts. -/
def givenWhole (call : Provider.ToolCall) : GivenCall :=
  ⟨some call.id, some call.function.name, some call.function.arguments⟩

/-- A call within a chunk has a name and arguments only if it has a function. -/
def givenPart (call : PartialToolCall) : GivenCall :=
  ⟨call.id, call.function.bind (·.name), call.function.bind (·.arguments)⟩

namespace GivenCall

/-- What a given call is converted as: parts that are missing are empty. -/
def record (given : GivenCall) : ToolCallRecord :=
  ⟨given.id.getD "", given.name.getD "", given.arguments.getD ""⟩

/-- Whether the arguments of a call are there and parse as an object. -/
def Parses (given : GivenCall) : Prop :=
  ∃ text values, given.arguments = some text ∧ IsObjectText text values

/-- Whether a call is what a given call says. -/
structure Gives (given : GivenCall) (call : Chat.ToolCall) : Prop where
  callId : call.callId = given.id.getD ""
  toolName : call.toolName = given.name.getD ""
  arguments : ∃ text, given.arguments = some text ∧ IsObjectText text call.arguments

/-- Whether a failure is that of the arguments of a given call. -/
def FailsWith (given : GivenCall) (failure : Failure) : Prop :=
  ∃ fault, Conversion.arguments.ofText (given.arguments.getD "") = .error fault ∧
    failure = .toolArguments (given.id.getD "") fault

/-- Arguments that are missing are no text of an object. -/
theorem ofText_iff (given : GivenCall) (values : SortedMap Json) :
    Conversion.arguments.ofText (given.arguments.getD "") = .ok values ↔
      ∃ text, given.arguments = some text ∧ IsObjectText text values := by
  cases harguments : given.arguments with
  | none => simp [ofText_arguments_empty]
  | some text => simpa using ofText_arguments_iff

/-- A call converts to what it says and to nothing else. -/
theorem convertToolCall_eq_ok_iff (given : GivenCall) (call : Chat.ToolCall) :
    convertToolCall given.record = .ok call ↔ given.Gives call := by
  cases hread : Conversion.arguments.ofText given.record.rawArguments with
  | error fault =>
      rw [convertToolCall_of_error hread]
      constructor
      · intro hcall
        cases hcall
      · intro hgives
        cases hread.symm.trans ((given.ofText_iff _).2 hgives.arguments)
  | ok values =>
      rw [convertToolCall_of_ok hread, Except.ok.injEq]
      constructor
      · rintro rfl
        exact ⟨rfl, rfl, (given.ofText_iff values).1 hread⟩
      · rintro ⟨hid, hname, harguments⟩
        cases hread.symm.trans ((given.ofText_iff _).2 harguments)
        rcases call with ⟨callId, toolName, values⟩
        cases hid
        cases hname
        rfl

/-- A call fails exactly for its arguments, and says so. -/
theorem convertToolCall_eq_error_iff (given : GivenCall) (failure : Failure) :
    convertToolCall given.record = .error failure ↔ given.FailsWith failure := by
  unfold FailsWith
  cases hread : Conversion.arguments.ofText given.record.rawArguments with
  | error fault =>
      have hfault : Conversion.arguments.ofText (given.arguments.getD "") = .error fault := hread
      rw [convertToolCall_of_error hread, Except.error.injEq, hfault]
      constructor
      · rintro rfl
        exact ⟨fault, rfl, rfl⟩
      · rintro ⟨_, ⟨⟩, rfl⟩
        rfl
  | ok values =>
      have hvalues : Conversion.arguments.ofText (given.arguments.getD "") = .ok values := hread
      rw [convertToolCall_of_ok hread, hvalues]
      simp

theorem exists_gives_iff (given : GivenCall) : (∃ call, given.Gives call) ↔ given.Parses := by
  constructor
  · rintro ⟨call, hcall⟩
    obtain ⟨text, htext, hobject⟩ := hcall.arguments
    exact ⟨text, call.arguments, htext, hobject⟩
  · rintro ⟨text, values, htext, hobject⟩
    exact ⟨⟨given.id.getD "", given.name.getD "", values⟩, rfl, rfl, text, htext, hobject⟩

end GivenCall

/-- Either every call of a list is converted, in the order of the list, or there are no calls but
the failure of the first whose arguments do not parse, whatever the calls behind it are. -/
structure AllOrFirst (given : List GivenCall) (result : Except Failure (List Chat.ToolCall)) :
    Prop where
  succeeds_iff : (∃ calls, result = .ok calls) ↔ ∀ call ∈ given, call.Parses
  calls_iff : ∀ calls, result = .ok calls ↔ List.Forall₂ GivenCall.Gives given calls
  fails_iff : ∀ failure, result = .error failure ↔
    ∃ before first after, given = before ++ first :: after ∧
      (∀ call ∈ before, call.Parses) ∧ first.FailsWith failure

theorem convertToolCalls_eq_ok_iff (given : List GivenCall) (calls : List Chat.ToolCall) :
    convertToolCalls (given.map (·.record)) = .ok calls ↔
      List.Forall₂ GivenCall.Gives given calls := by
  rw [convertToolCalls, List.mapM_map, mapM_eq_ok_iff]
  simp only [Function.comp_apply, GivenCall.convertToolCall_eq_ok_iff]

theorem exists_forall₂_gives_iff (given : List GivenCall) :
    (∃ calls, List.Forall₂ GivenCall.Gives given calls) ↔ ∀ call ∈ given, call.Parses := by
  induction given with
  | nil => simp
  | cons call rest ih =>
      rw [List.forall_mem_cons, ← ih, ← call.exists_gives_iff]
      constructor
      · rintro ⟨_, _ | ⟨hcall, hrest⟩⟩
        exact ⟨⟨_, hcall⟩, ⟨_, hrest⟩⟩
      · rintro ⟨⟨converted, hcall⟩, others, hrest⟩
        exact ⟨converted :: others, .cons hcall hrest⟩

/-- Calls all convert, or the first that does not is the failure of all. -/
theorem allOrFirst (given : List GivenCall) :
    AllOrFirst given (convertToolCalls (given.map (·.record))) where
  succeeds_iff := by
    simp only [convertToolCalls_eq_ok_iff]
    exact exists_forall₂_gives_iff given
  calls_iff := convertToolCalls_eq_ok_iff given
  fails_iff failure := by
    rw [convertToolCalls, List.mapM_map, mapM_eq_error_iff]
    simp only [Function.comp_apply, GivenCall.convertToolCall_eq_ok_iff,
      GivenCall.convertToolCall_eq_error_iff, GivenCall.exists_gives_iff]

theorem map_record_whole (calls : List Provider.ToolCall) :
    calls.map (·.record) = (calls.map givenWhole).map (·.record) := by
  rw [List.map_map]
  rfl

theorem map_record_part (parts : List PartialToolCall) :
    parts.map (·.record) = (parts.map givenPart).map (·.record) := by
  rw [List.map_map]
  rfl

/-- Calls without arguments do not parse. -/
theorem not_parses_of_lacking {part : PartialToolCall}
    (hlacking : part.function = none ∨
      ∃ function, part.function = some function ∧ function.arguments = none) :
    ¬ (givenPart part).Parses := by
  rintro ⟨text, values, htext, -⟩
  rcases hlacking with hnone | ⟨function, hfunction, harguments⟩
  · simp [givenPart, hnone] at htext
  · simp [givenPart, hfunction, harguments] at htext

/-- Calls convert all or none, be they those of a whole message or come within chunks. Where a call
within a chunk has all its parts it converts like a whole one, and where it has no arguments the
list that it stands in fails. -/
theorem calls_convert_or_first_fails :
    (∀ calls : List Provider.ToolCall,
      AllOrFirst (calls.map givenWhole) (convertToolCalls (calls.map (·.record)))) ∧
    (∀ parts : List PartialToolCall,
      AllOrFirst (parts.map givenPart) (convertToolCalls (parts.map (·.record)))) ∧
    (∀ (parts : List PartialToolCall) (calls : List Provider.ToolCall),
      List.Forall₂ (fun part call => part.id = some call.id ∧
        part.function = some ⟨some call.function.name, some call.function.arguments⟩) parts calls →
      convertToolCalls (parts.map (·.record)) = convertToolCalls (calls.map (·.record))) ∧
    ∀ (parts : List PartialToolCall), ∀ part ∈ parts,
      (part.function = none ∨
        ∃ function, part.function = some function ∧ function.arguments = none) →
      ∃ callId fault,
        convertToolCalls (parts.map (·.record)) = .error (.toolArguments callId fault) := by
  refine ⟨?_, ?_, ?_, ?_⟩
  · intro calls
    rw [map_record_whole]
    exact allOrFirst _
  · intro parts
    rw [map_record_part]
    exact allOrFirst _
  · intro parts calls hsame
    have hgiven : parts.map givenPart = calls.map givenWhole := by
      induction hsame with
      | nil => rfl
      | cons hpart _ ih => simp [givenPart, givenWhole, hpart.1, hpart.2, ih]
    rw [map_record_part, map_record_whole, hgiven]
  · intro parts part hpart hlacking
    rw [map_record_part]
    have hall := allOrFirst (parts.map givenPart)
    cases hresult : convertToolCalls ((parts.map givenPart).map (·.record)) with
    | ok calls =>
        have hparses := hall.succeeds_iff.1 ⟨calls, hresult⟩ _ (List.mem_map_of_mem hpart)
        exact absurd hparses (not_parses_of_lacking hlacking)
    | error failure =>
        obtain ⟨_, first, _, _, _, fault, _, rfl⟩ := (hall.fails_iff failure).1 hresult
        exact ⟨_, fault, rfl⟩

def fullPart : PartialToolCall :=
  ⟨0, some "call_1", none, some ⟨some "lookup", some "\x7b\"x\":[1]\x7d"⟩⟩

def lackingPart : PartialToolCall :=
  ⟨1, some "call_2", none, some ⟨some "lookup", none⟩⟩

/-- A list in which a call lacks its arguments fails with the fault of the first such call. -/
theorem lackingPart_fails :
    convertToolCalls [fullPart.record] =
        convertToolCalls [(Provider.ToolCall.ofFunction "call_1" "lookup"
          "\x7b\"x\":[1]\x7d").record] ∧
      lackingPart ∈ [fullPart, lackingPart, fullPart] ∧
      (∃ callId fault, convertToolCalls ([fullPart, lackingPart, fullPart].map (·.record)) =
        .error (.toolArguments callId fault)) ∧
      convertToolCalls ([fullPart, lackingPart, fullPart].map (·.record)) =
        .error (.toolArguments "call_2" ⟨.malformed .endInValue, some ⟨1, 0⟩⟩) := by
  obtain ⟨-, hparts, hlike, hlacking⟩ := calls_convert_or_first_fails
  have hmember : lackingPart ∈ [fullPart, lackingPart, fullPart] := by decide
  have hparses : (givenPart fullPart).Parses :=
    ⟨_, SortedMap.ofList [("x", .array [.whole ⟨1, by decide⟩])], rfl,
      [("x", .array [.whole ⟨1, by decide⟩])], by decide +kernel, by decide +kernel⟩
  refine ⟨hlike [fullPart] [.ofFunction "call_1" "lookup" "\x7b\"x\":[1]\x7d"]
    (.cons ⟨rfl, rfl⟩ .nil), hmember,
    hlacking _ lackingPart hmember (Or.inr ⟨_, rfl, rfl⟩), ?_⟩
  rw [(hparts _).fails_iff]
  exact ⟨[givenPart fullPart], givenPart lackingPart, [givenPart fullPart], rfl, by simpa,
    _, ofText_arguments_empty, rfl⟩

end Conversion

end StackBridge
