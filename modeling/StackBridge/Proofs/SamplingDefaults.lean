/-
The defaults of sampling parameters. Decoding fills in for what an object leaves out exactly what a
constructor sets, so leaving a control out, spelling its default out and building the parameters
step by step come to the same, and so does what is made of them on the way to the provider.
-/
import Mathlib.Data.List.Induction
import StackBridge.Conversion.Outgoing
import StackBridge.Proofs.DecodingRoutes
import StackBridge.Proofs.WireTypes

namespace StackBridge

open Codec

/-- Leaving a field out comes to the same as writing its default. -/
theorem Field.reads_withDefault_iff {α : Type} {name : String} {codec : Codec α} {fallback : α}
    {written : Json} (hwritten : codec.decode written.normal = .ok fallback)
    (slot : Option Json) (value : α) :
    (withDefault name codec fallback).Reads (slot.map Json.normal) value ↔
      codec.decode (slot.getD written).normal = .ok value := by
  cases slot with
  | none =>
      change some fallback = some value ↔ _
      rw [Option.getD_none, hwritten, Option.some.injEq, Except.ok.injEq]
  | some json => exact Iff.rfl

theorem Field.Reads.of_getD_eq {α : Type} {name : String} {codec : Codec α} {fallback value : α}
    {written : Json} (hwritten : codec.decode written.normal = .ok fallback)
    {slot other : Option Json} (hsame : slot.getD written = other.getD written)
    (hreads : (withDefault name codec fallback).Reads (slot.map Json.normal) value) :
    (withDefault name codec fallback).Reads (other.map Json.normal) value := by
  rw [reads_withDefault_iff hwritten] at hreads ⊢
  rwa [← hsame]

namespace Chat

/-- The value of a control: what the member of its name means, or the fallback where there is no
such member. -/
def Says {α : Type} (object : Json) (name : String) (means : Json → α → Prop)
    (fallback value : α) : Prop :=
  match object.member? name with
  | some json => means json value
  | none => value = fallback

/-- Null means that a control is unset. -/
def OrNull {α : Type} (means : Json → α → Prop) (json : Json) (value : Option α) : Prop :=
  json = .null ∧ value = none ∨ ∃ held, value = some held ∧ means json held

def MeansStrategy (json : Json) (strategy : SamplingStrategy) : Prop :=
  ∃ name, json = .string name ∧ SamplingStrategy.ofName name = strategy

def MeansFloat (json : Json) (x : Float) : Prop :=
  ∃ number : Number, json = .number number ∧ number.toFloat = x

def MeansInt64 (json : Json) (n : Int64) : Prop :=
  ∃ whole : Whole, json = .whole whole ∧ whole.val = n.toInt

def MeansUInt32 (json : Json) (n : UInt32) : Prop :=
  ∃ whole : Whole, json = .whole whole ∧ whole.val = n.toNat

/-- The parameters are the default ones, except for what an object says about them. -/
structure FillsIn (object : Json) (params : SamplingParams) : Prop where
  strategy : Says object "strategy" MeansStrategy (default : SamplingParams).strategy
    params.strategy
  temperature : Says object "temperature" (OrNull MeansFloat)
    (default : SamplingParams).temperature params.temperature
  topP : Says object "top_p" (OrNull MeansFloat) (default : SamplingParams).topP params.topP
  topK : Says object "top_k" (OrNull MeansInt64) (default : SamplingParams).topK params.topK
  repetitionPenalty : Says object "repetition_penalty" (OrNull MeansFloat)
    (default : SamplingParams).repetitionPenalty params.repetitionPenalty
  maxTokens : Says object "max_tokens" (OrNull MeansUInt32)
    (default : SamplingParams).maxTokens params.maxTokens

theorem decode_strategy_iff (json : Json) (strategy : SamplingStrategy) :
    SamplingStrategy.codec.decode json.normal = .ok strategy ↔ MeansStrategy json strategy := by
  unfold SamplingStrategy.codec mapped MeansStrategy
  rw [map_eq_ok_iff]
  cases json <;> simp [Codec.string, wrongKind_eq_ok_iff, Json.normal]

theorem decode_numeric_iff {α : Type} {wanted : String} {encode : α → Json}
    {check : Number → Except Mismatch α} (json : Json) (value : α) :
    (numeric wanted encode check).decode json.normal = .ok value ↔
      ∃ number, json = .number number ∧ check number = .ok value := by
  cases json <;> simp [numeric, wrongKind_eq_ok_iff, Json.normal]

theorem decode_float_iff (json : Json) (x : Float) :
    Codec.float.decode json.normal = .ok x ↔ MeansFloat json x := by
  unfold Codec.float MeansFloat
  simp only [decode_numeric_iff, pure_eq_ok_iff]

theorem decode_word_iff {α : Type} {wanted : String} {encode : α → Whole}
    {ofInt? : Int → Option α} (json : Json) (value : α) :
    (word wanted encode ofInt?).decode json.normal = .ok value ↔
      ∃ whole : Whole, json = .whole whole ∧ ofInt? whole.val = some value := by
  rw [word, decode_numeric_iff]
  constructor
  · rintro ⟨number, rfl, hvalue⟩
    cases number with
    | whole whole =>
        refine ⟨whole, rfl, ?_⟩
        cases hfound : ofInt? whole.val <;> simp_all [pure_eq_ok_iff]
    | float x => simp at hvalue
  · rintro ⟨whole, rfl, hvalue⟩
    exact ⟨.whole whole, rfl, by simp [hvalue, pure_eq_ok_iff]⟩

theorem int64_ofInt?_eq_some_iff (m : Int) (n : Int64) :
    (if -0x8000000000000000 ≤ m && m < 0x8000000000000000 then some (Int64.ofInt m) else none) =
      some n ↔ m = n.toInt := by
  have hle := n.le_toInt
  have hlt := n.toInt_lt
  simp only [Bool.and_eq_true, decide_eq_true_eq]
  constructor
  · intro hfound
    split at hfound
    case isTrue hfits =>
      cases hfound
      rw [Int64.toInt_ofInt_of_le hfits.1 hfits.2]
    case isFalse => cases hfound
  · rintro rfl
    rw [if_pos ⟨by omega, by omega⟩, Int64.ofInt_toInt]

theorem uint32_ofInt?_eq_some_iff (m : Int) (n : UInt32) :
    (if 0 ≤ m && m < 0x100000000 then some (UInt32.ofNat m.toNat) else none) = some n ↔
      m = n.toNat := by
  have hlt := n.toNat_lt
  simp only [Bool.and_eq_true, decide_eq_true_eq]
  constructor
  · intro hfound
    split at hfound
    case isTrue hfits =>
      cases hfound
      rw [UInt32.toNat_ofNat_of_lt' (by unfold UInt32.size; omega)]
      omega
    case isFalse => cases hfound
  · rintro rfl
    rw [if_pos ⟨by omega, by omega⟩, Int.toNat_natCast, UInt32.ofNat_toNat]

theorem decode_int64_iff (json : Json) (n : Int64) :
    Codec.int64.decode json.normal = .ok n ↔ MeansInt64 json n := by
  unfold Codec.int64 MeansInt64
  simp only [decode_word_iff, int64_ofInt?_eq_some_iff]

theorem decode_uint32_iff (json : Json) (n : UInt32) :
    Codec.uint32.decode json.normal = .ok n ↔ MeansUInt32 json n := by
  unfold Codec.uint32 MeansUInt32
  simp only [decode_word_iff, uint32_ofInt?_eq_some_iff]

/-- An optional control is null or what it would be if it were required. -/
theorem decode_option_iff_orNull {α : Type} {codec : Codec α} {means : Json → α → Prop}
    (hmeans : ∀ json value, codec.decode json.normal = .ok value ↔ means json value)
    (hnull : ∀ value, ¬ means .null value) (json : Json) (value : Option α) :
    codec.option.decode json.normal = .ok value ↔ OrNull means json value := by
  by_cases hjson : json = .null
  · rw [hjson]
    change Except.ok none = Except.ok value ↔ _
    simp [OrNull, hnull, eq_comm]
  · rw [decode_option_iff fun hnormal => hjson (normal_eq_null hnormal)]
    simp [OrNull, hjson, hmeans, eq_comm, and_comm]

theorem decode_floatOrNull_iff : ∀ (json : Json) (value : Option Float),
    Codec.float.option.decode json.normal = .ok value ↔ OrNull MeansFloat json value :=
  decode_option_iff_orNull decode_float_iff (by rintro _ ⟨_, hnull, -⟩; cases hnull)

theorem decode_int64OrNull_iff : ∀ (json : Json) (value : Option Int64),
    Codec.int64.option.decode json.normal = .ok value ↔ OrNull MeansInt64 json value :=
  decode_option_iff_orNull decode_int64_iff (by rintro _ ⟨_, hnull, -⟩; cases hnull)

theorem decode_uint32OrNull_iff : ∀ (json : Json) (value : Option UInt32),
    Codec.uint32.option.decode json.normal = .ok value ↔ OrNull MeansUInt32 json value :=
  decode_option_iff_orNull decode_uint32_iff (by rintro _ ⟨_, hnull, -⟩; cases hnull)

theorem reads_withDefault_iff_given {α : Type} {codec : Codec α} {means : Json → α → Prop}
    (hmeans : ∀ json value, codec.decode json.normal = .ok value ↔ means json value)
    {name : String} {fallback value : α} {members : List (String × Json)} :
    (Field.withDefault name codec fallback).Reads
        ((members.reverse.lookup name).map Json.normal) value ↔
      Says (.object members) name means fallback value := by
  rw [Says, Json.member?_object]
  cases members.reverse.lookup name with
  | none =>
      change some fallback = some value ↔ _
      rw [Option.some.injEq, eq_comm]
  | some json => exact hmeans json value

/-- An object of sampling parameters is decoded to what it fills in. -/
theorem ofJson_samplingParams_iff (members : List (String × Json)) (params : SamplingParams) :
    SamplingParams.codec.ofJson (.object members) = .ok params ↔
      FillsIn (.object members) params := by
  rw [ofJson_eq_ok_iff]
  refine (record_ofJson_object_iff (by decide)).trans ⟨?_, fun hparams => ?_⟩
  · rintro ⟨values, ⟨hstrategy, htemperature, htopP, htopK, hpenalty, hlimit, -⟩, rfl⟩
    exact ⟨(reads_withDefault_iff_given decode_strategy_iff).1 hstrategy,
      (reads_withDefault_iff_given decode_floatOrNull_iff).1 htemperature,
      (reads_withDefault_iff_given decode_floatOrNull_iff).1 htopP,
      (reads_withDefault_iff_given decode_int64OrNull_iff).1 htopK,
      (reads_withDefault_iff_given decode_floatOrNull_iff).1 hpenalty,
      (reads_withDefault_iff_given decode_uint32OrNull_iff).1 hlimit⟩
  · exact ⟨(params.strategy, params.temperature, params.topP, params.topK,
        params.repetitionPenalty, params.maxTokens, ()),
      ⟨(reads_withDefault_iff_given decode_strategy_iff).2 hparams.strategy,
        (reads_withDefault_iff_given decode_floatOrNull_iff).2 hparams.temperature,
        (reads_withDefault_iff_given decode_floatOrNull_iff).2 hparams.topP,
        (reads_withDefault_iff_given decode_int64OrNull_iff).2 hparams.topK,
        (reads_withDefault_iff_given decode_floatOrNull_iff).2 hparams.repetitionPenalty,
        (reads_withDefault_iff_given decode_uint32OrNull_iff).2 hparams.maxTokens, trivial⟩, rfl⟩

/-- The default of each control, as it is written. -/
def samplingDefaults : List (String × Json) :=
  [("strategy", .string "greedy"), ("temperature", .number (.float 0.0)),
    ("top_p", .number (.float 0.95)), ("top_k", .whole (.ofInt64 0)),
    ("repetition_penalty", .number (.float 1.0)), ("max_tokens", .null)]

/-- Two objects of sampling parameters that are the same once the defaults of the controls that
they leave out are spelled out. -/
inductive SpellAlike : Json → Json → Prop where
  | members {left right : List (String × Json)}
      (hcontrols : ∀ control ∈ samplingDefaults,
        ((Json.object left).member? control.1).getD control.2 =
          ((Json.object right).member? control.1).getD control.2) :
      SpellAlike (.object left) (.object right)

/-- Two requests, as objects or as lists, that differ in nothing but that. -/
inductive RequestAlike : Json → Json → Prop where
  | members {left right : List (String × Json)} {params others : Json}
      (hleft : (Json.object left).member? "sampling_params" = some params)
      (hright : (Json.object right).member? "sampling_params" = some others)
      (hparams : SpellAlike params others)
      (hrest : ∀ name, name ≠ "sampling_params" →
        (Json.object left).member? name = (Json.object right).member? name) :
      RequestAlike (.object left) (.object right)
  | items (model messages : Json) {params others : Json} (rest : List Json)
      (hparams : SpellAlike params others) :
      RequestAlike (.array (model :: messages :: params :: rest))
        (.array (model :: messages :: others :: rest))

theorem SpellAlike.symm {left right : Json} (halike : SpellAlike left right) :
    SpellAlike right left := by
  cases halike with
  | members hcontrols => exact .members fun control hcontrol => (hcontrols control hcontrol).symm

theorem RequestAlike.symm {left right : Json} (halike : RequestAlike left right) :
    RequestAlike right left := by
  cases halike with
  | members hleft hright hparams hrest =>
      exact .members hright hleft hparams.symm fun name hname => (hrest name hname).symm
  | items model messages rest hparams => exact .items model messages rest hparams.symm

def samplingRequest (rest params : List (String × Json)) : Json :=
  .object (rest ++ [("sampling_params", .object params)])

theorem lookup_samplingRequest (rest params : List (String × Json)) (name : String) :
    (rest ++ [("sampling_params", Json.object params)]).reverse.lookup name =
      if name = "sampling_params" then some (.object params) else rest.reverse.lookup name := by
  rw [List.reverse_concat, lookup_cons]

theorem SpellAlike.samplingRequest {params others : List (String × Json)}
    (halike : SpellAlike (.object params) (.object others)) (rest : List (String × Json)) :
    RequestAlike (samplingRequest rest params) (samplingRequest rest others) := by
  refine .members ?_ ?_ halike fun name hname => ?_
  · rw [Json.member?_object, lookup_samplingRequest, if_pos rfl]
  · rw [Json.member?_object, lookup_samplingRequest, if_pos rfl]
  · rw [Json.member?_object, lookup_samplingRequest, if_neg hname, Json.member?_object,
      lookup_samplingRequest, if_neg hname]

theorem encode_defaults :
    SamplingParams.codec.encode default = .object samplingDefaults := rfl

/-- Controls that are spelled alike decode alike. -/
theorem SpellAlike.decode {left right : Json} (halike : SpellAlike left right)
    {params : SamplingParams} (hparams : SamplingParams.codec.decode left.normal = .ok params) :
    SamplingParams.codec.decode right.normal = .ok params := by
  cases halike with
  | members hcontrols =>
      simp only [samplingDefaults, List.forall_mem_cons, List.not_mem_nil, false_implies,
        implies_true, and_true] at hcontrols
      obtain ⟨hstrategy, htemperature, htopP, htopK, hpenalty, hlimit⟩ := hcontrols
      refine record_ofJson_of_alike (by decide) ?_ hparams
      exact ⟨fun _ => .of_getD_eq rfl hstrategy, fun _ => .of_getD_eq rfl htemperature,
        fun _ => .of_getD_eq rfl htopP, fun _ => .of_getD_eq rfl htopK,
        fun _ => .of_getD_eq rfl hpenalty, fun _ => .of_getD_eq rfl hlimit, trivial⟩

/-- Neither of them is null. -/
theorem SpellAlike.decode_option {left right : Json} (halike : SpellAlike left right)
    {params : Option SamplingParams}
    (hparams : SamplingParams.codec.option.decode left.normal = .ok params) :
    SamplingParams.codec.option.decode right.normal = .ok params := by
  have hleft : left.normal ≠ .null ∧ right.normal ≠ .null := by
    cases halike with
    | members => exact ⟨(solid_of_object ⟨_, rfl⟩).1, (solid_of_object ⟨_, rfl⟩).1⟩
  rw [decode_option_iff hleft.1] at hparams
  rw [decode_option_iff hleft.2]
  obtain ⟨held, hheld, hsome⟩ := hparams
  exact ⟨held, halike.decode hheld, hsome⟩

/-- Requests whose parameters are spelled alike decode alike: the parameters are one item of many,
and no other item is touched. -/
theorem RequestAlike.ofJson {left right : Json} (halike : RequestAlike left right)
    {request : Request} (hrequest : Request.codec.ofJson left = .ok request) :
    Request.codec.ofJson right = .ok request := by
  rw [ofJson_eq_ok_iff] at hrequest ⊢
  cases halike with
  | @members left right params others hleft hright hparams hrest =>
      have hother : ∀ {α : Type} (field : Field α), field.name ≠ "sampling_params" → ∀ value,
          field.Reads (((Json.object left).member? field.name).map Json.normal) value →
            field.Reads (((Json.object right).member? field.name).map Json.normal) value := by
        intro α field hname value hreads
        rwa [← hrest field.name hname]
      refine record_ofJson_of_alike (by decide) ?_ hrequest
      refine ⟨hother _ (by decide), hother _ (by decide), ?_, hother _ (by decide),
        hother _ (by decide), hother _ (by decide), hother _ (by decide), trivial⟩
      intro value hreads
      change Field.Reads _ (((Json.object left).member? "sampling_params").map Json.normal) _
        at hreads
      change Field.Reads _ (((Json.object right).member? "sampling_params").map Json.normal) _
      rw [hleft] at hreads
      rw [hright]
      exact hparams.decode_option hreads
  | @items model messages params others rest hparams =>
      have hiff : ∀ value, SamplingParams.codec.option.decode params.normal = .ok value ↔
          SamplingParams.codec.option.decode others.normal = .ok value :=
        fun value => ⟨hparams.decode_option, hparams.symm.decode_option⟩
      rw [Json.normal_array] at hrequest ⊢
      simp only [Request.codec, record, Fields.decodeItems, List.map_cons, bind_eq_ok_iff,
        Field.optional, hiff] at hrequest ⊢
      exact hrequest

/-- What a chain of constructor calls begins with. -/
inductive Opening where
  | standard
  | greedy (temperature : Float)
  | nucleus (topP : Float)
  | likeliest (topK : Int64)

/-- What may follow it, in any order and any number of times. -/
inductive Setter where
  | maxTokens (limit : UInt32)
  | repetitionPenalty (penalty : Float)

def Opening.params : Opening → SamplingParams
  | .standard => default
  | .greedy temperature => .greedy temperature
  | .nucleus topP => .nucleus topP
  | .likeliest topK => .likeliest topK

def Setter.apply (params : SamplingParams) : Setter → SamplingParams
  | .maxTokens limit => params.withMaxTokens limit
  | .repetitionPenalty penalty => params.withRepetitionPenalty penalty

def built (opening : Opening) (setters : List Setter) : SamplingParams :=
  setters.foldl Setter.apply opening.params

/-- The strategy of an opening and the control that it sets. -/
def Opening.members : Opening → List (String × Json)
  | .standard => [("strategy", .string "greedy")]
  | .greedy temperature =>
      [("strategy", .string "greedy"), ("temperature", .number (.float temperature))]
  | .nucleus topP => [("strategy", .string "top_p"), ("top_p", .number (.float topP))]
  | .likeliest topK => [("strategy", .string "top_k"), ("top_k", .whole (.ofInt64 topK))]

def Setter.maxTokens? : Setter → Option UInt32
  | .maxTokens limit => some limit
  | .repetitionPenalty _ => none

def Setter.repetitionPenalty? : Setter → Option Float
  | .maxTokens _ => none
  | .repetitionPenalty penalty => some penalty

/-- The limit that was set last. -/
def lastMaxTokens (setters : List Setter) : Option UInt32 :=
  (setters.filterMap Setter.maxTokens?).getLast?

def lastRepetitionPenalty (setters : List Setter) : Option Float :=
  (setters.filterMap Setter.repetitionPenalty?).getLast?

/-- The object that names the strategy and what was set, with the last values. -/
def named (opening : Opening) (setters : List Setter) : List (String × Json) :=
  opening.members ++
    (lastRepetitionPenalty setters).toList.map
      (fun penalty => ("repetition_penalty", .number (.float penalty))) ++
    (lastMaxTokens setters).toList.map
      fun limit => ("max_tokens", .whole (.ofUInt32 limit))

/-- Setters replace the limit and the penalty and nothing else, and the last of each kind wins. By
induction from the end of the chain, whose setter is applied last. -/
theorem built_eq (opening : Opening) (setters : List Setter) :
    built opening setters =
      { opening.params with
        maxTokens := (lastMaxTokens setters).or opening.params.maxTokens
        repetitionPenalty :=
          (lastRepetitionPenalty setters).or opening.params.repetitionPenalty } := by
  induction setters using List.reverseRecOn with
  | nil => rfl
  | append_singleton setters setter ih =>
      rw [built, List.foldl_concat, ← built, ih]
      cases setter <;>
        simp [Setter.apply, SamplingParams.withMaxTokens, SamplingParams.withRepetitionPenalty,
          lastMaxTokens, lastRepetitionPenalty, Setter.maxTokens?, Setter.repetitionPenalty?]

theorem member?_append_toList {α : Type} (members : List (String × Json)) (key : String)
    (write : α → Json) (slot : Option α) (name : String) :
    (Json.object (members ++ slot.toList.map fun value => (key, write value))).member? name =
      if name = key then (slot.map write).or ((Json.object members).member? name)
      else (Json.object members).member? name := by
  rw [Json.member?_object, Json.member?_object, List.reverse_append, List.lookup_append]
  cases slot with
  | none => simp
  | some value =>
      simp only [Option.toList_some, List.map_cons, List.map_nil, List.reverse_singleton,
        lookup_cons, List.lookup_nil, Option.map_some]
      split <;> rfl

theorem Says.of_member?_eq {α : Type} {object other : Json} {name : String}
    {means : Json → α → Prop} {fallback value : α}
    (hgiven : Says object name means fallback value)
    (hsame : other.member? name = object.member? name) : Says other name means fallback value := by
  rwa [Says, hsame]

/-- What was set last is what the object says, and where nothing was set it says what it did. -/
theorem Says.of_setting {α : Type} {object other : Json} {name : String}
    {means : Json → α → Prop} {fallback value : Option α}
    (hgiven : Says object name (OrNull means) fallback value) {write : α → Json}
    (hwrite : ∀ held, means (write held) held) {slot : Option α}
    (hmember : other.member? name = (slot.map write).or (object.member? name)) :
    Says other name (OrNull means) fallback (slot.or value) := by
  cases slot with
  | none => exact hgiven.of_member?_eq hmember
  | some held =>
      rw [Says, hmember]
      exact Or.inr ⟨held, rfl, hwrite held⟩

theorem meansFloat_float (x : Float) : MeansFloat (.number (.float x)) x := ⟨.float x, rfl, rfl⟩

theorem meansInt64_whole (n : Int64) : MeansInt64 (.whole (.ofInt64 n)) n :=
  ⟨.ofInt64 n, rfl, rfl⟩

theorem meansUInt32_whole (n : UInt32) : MeansUInt32 (.whole (.ofUInt32 n)) n :=
  ⟨.ofUInt32 n, rfl, rfl⟩

/-- The object of an opening fills in what the opening sets. -/
theorem fillsIn_opening (opening : Opening) :
    FillsIn (.object opening.members) opening.params := by
  cases opening with
  | standard => exact ⟨⟨_, rfl, rfl⟩, rfl, rfl, rfl, rfl, rfl⟩
  | greedy temperature =>
      exact ⟨⟨_, rfl, rfl⟩, Or.inr ⟨_, rfl, meansFloat_float temperature⟩, rfl, rfl, rfl, rfl⟩
  | nucleus topP =>
      exact ⟨⟨_, rfl, rfl⟩, rfl, Or.inr ⟨_, rfl, meansFloat_float topP⟩, rfl, rfl, rfl⟩
  | likeliest topK =>
      exact ⟨⟨_, rfl, rfl⟩, rfl, rfl, Or.inr ⟨_, rfl, meansInt64_whole topK⟩, rfl, rfl⟩

/-- The object of a chain fills in what the chain builds. -/
theorem fillsIn_named (opening : Opening) (setters : List Setter) :
    FillsIn (.object (named opening setters)) (built opening setters) := by
  have hopening := fillsIn_opening opening
  have hmember : ∀ name, name ≠ "max_tokens" → name ≠ "repetition_penalty" →
      (Json.object (named opening setters)).member? name =
        (Json.object opening.members).member? name := by
    intro name hlimit hpenalty
    rw [named, member?_append_toList, if_neg hlimit, member?_append_toList, if_neg hpenalty]
  have hpenalty : (Json.object (named opening setters)).member? "repetition_penalty" =
      ((lastRepetitionPenalty setters).map fun penalty => .number (.float penalty)).or
        ((Json.object opening.members).member? "repetition_penalty") := by
    rw [named, member?_append_toList, if_neg (by decide), member?_append_toList, if_pos rfl]
  have hlimit : (Json.object (named opening setters)).member? "max_tokens" =
      ((lastMaxTokens setters).map fun limit => .whole (.ofUInt32 limit)).or
        ((Json.object opening.members).member? "max_tokens") := by
    rw [named, member?_append_toList, if_pos rfl, member?_append_toList, if_neg (by decide)]
  rw [built_eq]
  exact {
    strategy := hopening.strategy.of_member?_eq (hmember _ (by decide) (by decide))
    temperature := hopening.temperature.of_member?_eq (hmember _ (by decide) (by decide))
    topP := hopening.topP.of_member?_eq (hmember _ (by decide) (by decide))
    topK := hopening.topK.of_member?_eq (hmember _ (by decide) (by decide))
    repetitionPenalty := hopening.repetitionPenalty.of_setting meansFloat_float hpenalty
    maxTokens := hopening.maxTokens.of_setting meansUInt32_whole hlimit }

theorem ofJson_named (opening : Opening) (setters : List Setter) :
    SamplingParams.codec.ofJson (.object (named opening setters)) =
      .ok (built opening setters) :=
  (ofJson_samplingParams_iff _ _).2 (fillsIn_named opening setters)

/-- A request that is given sampling parameters in JSON is the request with these parameters. -/
theorem ofJson_append_samplingParams {rest : List (String × Json)} {request : Request}
    (hrequest : Request.codec.ofJson (.object rest) = .ok request)
    {members : List (String × Json)} {params : SamplingParams}
    (hparams : SamplingParams.codec.ofJson (.object members) = .ok params) :
    Request.codec.ofJson (samplingRequest rest members) =
      .ok (request.withSamplingParams params) := by
  rw [ofJson_eq_ok_iff] at hrequest hparams ⊢
  obtain ⟨values, ⟨hmodel, hmessages, -, htools, hchoice, hlogprobs, hstream, -⟩, rfl⟩ :=
    (record_ofJson_object_iff (by decide)).1 hrequest
  have hother : ∀ {α : Type} (field : Field α), field.name ≠ "sampling_params" → ∀ value,
      field.Reads ((rest.reverse.lookup field.name).map Json.normal) value →
        field.Reads (((rest ++ [("sampling_params", Json.object members)]).reverse.lookup
          field.name).map Json.normal) value := by
    intro α field hname value hreads
    rwa [lookup_samplingRequest, if_neg hname]
  refine (record_ofJson_object_iff (by decide)).2
    ⟨(values.1, values.2.1, some params, values.2.2.2), ⟨hother _ (by decide) _ hmodel,
      hother _ (by decide) _ hmessages, ?_, hother _ (by decide) _ htools,
      hother _ (by decide) _ hchoice, hother _ (by decide) _ hlogprobs,
      hother _ (by decide) _ hstream, trivial⟩, rfl⟩
  change Field.Reads _ (((rest ++ [("sampling_params", Json.object members)]).reverse.lookup
    "sampling_params").map Json.normal) _
  rw [lookup_samplingRequest, if_pos rfl]
  exact (decode_option_iff (solid_of_object ⟨_, rfl⟩).1).2 ⟨params, hparams, rfl⟩

end Chat

namespace Conversion

open Chat (SamplingParams)

/-- What a request in JSON is converted to, and the notices that this gives rise to. -/
def ConvertsTo (json : Json) (n : UInt32) (payload : Provider.Request) (notices : Log) : Prop :=
  ∃ request, Chat.Request.codec.ofJson json = .ok request ∧ convertRequest request n = payload ∧
    requestAdvisories request = notices

/-- The defaults on the wire are those of the constructors: what an object leaves out has its
default, requests that leave defaults out or spell them out are converted alike, and so are the
parameters at the end of a chain of constructor calls and the object that names what was set. -/
theorem wire_defaults_are_constructor_defaults :
    (∀ members params, SamplingParams.codec.ofJson (.object members) = .ok params ↔
      Chat.FillsIn (.object members) params) ∧
    SamplingParams.codec.encode default = .object Chat.samplingDefaults ∧
    (∀ left right, Chat.RequestAlike left right → ∀ n payload notices,
      ConvertsTo left n payload notices ↔ ConvertsTo right n payload notices) ∧
    ∀ opening setters,
      SamplingParams.codec.ofJson (.object (Chat.named opening setters)) =
        .ok (Chat.built opening setters) ∧
      ∀ rest request, Chat.Request.codec.ofJson (.object rest) = .ok request →
        ∀ n payload notices,
          ConvertsTo (Chat.samplingRequest rest (Chat.named opening setters)) n payload notices ↔
            convertRequest (request.withSamplingParams (Chat.built opening setters)) n = payload ∧
              requestAdvisories (request.withSamplingParams (Chat.built opening setters)) =
                notices := by
  refine ⟨Chat.ofJson_samplingParams_iff, Chat.encode_defaults, ?_, fun opening setters =>
    ⟨Chat.ofJson_named opening setters, ?_⟩⟩
  · intro left right halike n payload notices
    constructor
    · rintro ⟨request, hrequest, hconverts⟩
      exact ⟨request, halike.ofJson hrequest, hconverts⟩
    · rintro ⟨request, hrequest, hconverts⟩
      exact ⟨request, halike.symm.ofJson hrequest, hconverts⟩
  · intro rest request hrequest n payload notices
    have hnamed := Chat.ofJson_append_samplingParams hrequest (Chat.ofJson_named opening setters)
    constructor
    · rintro ⟨other, hother, hconverts⟩
      cases hnamed.symm.trans hother
      exact hconverts
    · intro hconverts
      exact ⟨_, hnamed, hconverts⟩

/-- The members of a request without messages and without sampling parameters. -/
def emptyRequest : List (String × Json) :=
  [("model", .string "m"), ("messages", .array [])]

theorem emptyRequest_takes_defaults :
    let request : Chat.Request := { model := "m", messages := [] }
    let spelledOut : List (String × Json) :=
      [("max_tokens", .null), ("top_p", .number (.float 0.95)), ("strategy", .string "top_p"),
        ("temperature", .number (.float 0.0))]
    let setters : List Chat.Setter := [.maxTokens 5, .repetitionPenalty 1.5, .maxTokens 0]
    Chat.RequestAlike (Chat.samplingRequest emptyRequest [("strategy", .string "top_p")])
        (Chat.samplingRequest emptyRequest spelledOut) ∧
      ConvertsTo (Chat.samplingRequest emptyRequest spelledOut) 1
        (convertRequest (request.withSamplingParams (.nucleus 0.95)) 1) [] ∧
      Chat.Request.codec.ofJson (.object emptyRequest) = .ok request ∧
      ConvertsTo (Chat.samplingRequest emptyRequest (Chat.named .standard setters)) 1
        (convertRequest (request.withSamplingParams
          ⟨.greedy, some 0.0, some 0.95, some 0, some 1.5, some 0⟩) 1) [] := by
  intro request spelledOut setters
  obtain ⟨-, -, hdefaults, hchains⟩ := wire_defaults_are_constructor_defaults
  have hspelled : Chat.SpellAlike (.object [("strategy", .string "top_p")])
      (.object spelledOut) := by
    constructor
    simp only [Chat.samplingDefaults, List.forall_mem_cons]
    exact ⟨rfl, rfl, rfl, rfl, rfl, rfl, by simp⟩
  have halike := hspelled.samplingRequest emptyRequest
  have hleftOut : ConvertsTo
      (Chat.samplingRequest emptyRequest [("strategy", .string "top_p")]) 1
        (convertRequest (request.withSamplingParams (.nucleus 0.95)) 1) [] := ⟨_, rfl, rfl, rfl⟩
  have hrequest : Chat.Request.codec.ofJson (.object emptyRequest) = .ok request := by rfl
  exact ⟨halike, (hdefaults _ _ halike 1 _ _).1 hleftOut, hrequest,
    ((hchains .standard setters).2 emptyRequest request hrequest 1 _ _).2 ⟨rfl, rfl⟩⟩

end Conversion
end StackBridge
