/-
Log-probabilities by token. Each position becomes one record, whose keys are the tokens among the
alternatives of the position. Of several alternatives with one token the last counts, so only the
order among these matters; what is known of the chosen token itself does not.
-/
import Mathlib.Data.List.Forall2
import StackBridge.Conversion.Incoming
import StackBridge.Proofs.NormalForm

namespace StackBridge

namespace Conversion

open Chat (TokenLogProbs)
open Provider (Logprobs TokenLogprob TopLogprob)

/-- Whether an alternative is the last one with a token. -/
def IsLastWith (alternatives : List TopLogprob) (token : String) (alternative : TopLogprob) :
    Prop :=
  alternative.token = token ∧ ∃ before after, alternatives = before ++ alternative :: after ∧
    ∀ later ∈ after, later.token ≠ token

/-- Whether a record holds the alternatives of a position by their tokens. -/
structure Flattens (position : TokenLogprob) (record : TokenLogProbs) : Prop where
  keys : ∀ token, token ∈ record.byToken.entries.map (·.1) ↔
    ∃ alternative ∈ position.topLogprobs, alternative.token = token
  values : ∀ token logprob, record.byToken.get? token = some logprob ↔
    ∃ alternative, IsLastWith position.topLogprobs token alternative ∧
      alternative.logprob = logprob

/-- Whether two lists hold the same alternatives in an order that is the same among those of one
token. -/
def SameForEachToken (left right : List TopLogprob) : Prop :=
  ∀ token, left.filter (·.token = token) = right.filter (·.token = token)

/-- Only the last alternative with a token is found. -/
theorem get?_convertPosition (position : TokenLogprob) (token : String) :
    (convertPosition position).byToken.get? token =
      (position.topLogprobs.filter (·.token = token)).getLast?.map (·.logprob) := by
  rw [convertPosition, SortedMap.get?_ofList_eq_lookup, lookup_eq_find?, ← List.map_reverse,
    List.find?_map, List.getLast?_filter, Option.map_map]
  rfl

theorem getLast?_filter_eq_some_iff {alternatives : List TopLogprob} {token : String}
    {alternative : TopLogprob} :
    (alternatives.filter (·.token = token)).getLast? = some alternative ↔
      IsLastWith alternatives token alternative := by
  rw [List.getLast?_filter, List.find?_eq_some_iff_append, IsLastWith, decide_eq_true_eq]
  refine and_congr_right fun _ => ?_
  constructor
  · rintro ⟨after, before, hsplit, hlater⟩
    refine ⟨before.reverse, after.reverse, ?_, ?_⟩
    · rw [← List.reverse_reverse alternatives, hsplit]
      simp
    · simpa using hlater
  · rintro ⟨before, after, rfl, hlater⟩
    exact ⟨after.reverse, before.reverse, by simp, by simpa using hlater⟩

/-- A position is flattened to the last alternative of each token. -/
theorem flattens_convertPosition (position : TokenLogprob) :
    Flattens position (convertPosition position) where
  keys token := by
    rw [← isSome_lookup_iff, ← SortedMap.get?_eq_lookup, get?_convertPosition, Option.isSome_map,
      List.getLast?_filter, List.find?_isSome]
    simp
  values token logprob := by
    rw [get?_convertPosition, Option.map_eq_some_iff]
    simp only [getLast?_filter_eq_some_iff]

theorem convertPosition_congr {left right : TokenLogprob}
    (hsame : SameForEachToken left.topLogprobs right.topLogprobs) :
    convertPosition left = convertPosition right := by
  have hmaps : (convertPosition left).byToken = (convertPosition right).byToken := by
    refine SortedMap.eq_of_get? fun token => ?_
    rw [get?_convertPosition, get?_convertPosition, hsame token]
  exact congrArg TokenLogProbs.mk hmaps

theorem convertLogprobs_some (block : Logprobs) :
    convertLogprobs (some block) = some ((block.content.getD []).map convertPosition) := rfl

/-- Log-probabilities are flattened position by position: without a block there is nothing, and a
block gives a record for each position, in which the last alternative with a token counts. The
chosen token itself does not count, nor does the order among alternatives with different tokens.
Two lists of positions one behind the other are flattened one behind the other. -/
theorem positions_are_flattened :
    convertLogprobs none = none ∧
    (∀ block, ∃ records, convertLogprobs (some block) = some records ∧
      List.Forall₂ Flattens (block.content.getD []) records) ∧
    (∀ left right : List TokenLogprob,
      List.Forall₂ (fun position other =>
        SameForEachToken position.topLogprobs other.topLogprobs) left right →
      convertLogprobs (some ⟨some left⟩) = convertLogprobs (some ⟨some right⟩)) ∧
    ∀ left right : List TokenLogprob, ∃ before after,
      convertLogprobs (some ⟨some left⟩) = some before ∧
      convertLogprobs (some ⟨some right⟩) = some after ∧
      convertLogprobs (some ⟨some (left ++ right)⟩) = some (before ++ after) := by
  refine ⟨rfl, fun block => ⟨_, convertLogprobs_some block, ?_⟩, fun left right hsame => ?_,
    fun left right => ⟨_, _, rfl, rfl, ?_⟩⟩
  · rw [List.forall₂_map_right_iff, List.forall₂_same]
    exact fun position _ => flattens_convertPosition position
  · have hmaps : left.map convertPosition = right.map convertPosition := by
      rw [← List.forall₂_eq_eq_eq, List.forall₂_map_left_iff, List.forall₂_map_right_iff]
      exact hsame.imp fun _ _ => convertPosition_congr
    rw [convertLogprobs_some, convertLogprobs_some]
    exact congrArg some hmaps
  · rw [convertLogprobs_some, Option.getD_some, List.map_append]
    rfl

/-- Two alternatives with one token and one with another, which may come between them. -/
def repeatedFirst : TokenLogprob :=
  ⟨"a", -0.5, [⟨"a", -0.5⟩, ⟨"a", -2.0⟩, ⟨"b", -1.0⟩]⟩

/-- The same alternatives in another order, at a position where another token was chosen. -/
def repeatedAround : TokenLogprob :=
  ⟨"c", -0.25, [⟨"a", -0.5⟩, ⟨"b", -1.0⟩, ⟨"a", -2.0⟩]⟩

theorem repeatedAround_flattens_alike :
    List.Forall₂ (fun position other : TokenLogprob =>
        SameForEachToken position.topLogprobs other.topLogprobs)
      [repeatedFirst] [repeatedAround] ∧
    convertLogprobs (some ⟨some [repeatedFirst]⟩) =
      convertLogprobs (some ⟨some [repeatedAround]⟩) ∧
    (convertPosition repeatedAround).byToken.get? "a" = some (-2.0) ∧
    (convertPosition repeatedAround).byToken.get? "c" = none := by
  have hsame : SameForEachToken repeatedFirst.topLogprobs repeatedAround.topLogprobs := by
    intro token
    simp only [repeatedFirst, repeatedAround, List.filter_cons, List.filter_nil]
    by_cases ha : "a" = token
    · have hb : "b" ≠ token := ha ▸ by decide
      simp [ha, hb]
    · simp [ha]
  exact ⟨.cons hsame .nil, positions_are_flattened.2.2.1 _ _ (.cons hsame .nil), rfl, rfl⟩

end Conversion

end StackBridge
