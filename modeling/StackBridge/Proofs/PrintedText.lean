/-
The document that a mapping is written as is read as a tree that shows the mapping.
-/
import StackBridge.Proofs.ParsedNodes
import StackBridge.Proofs.ScannedDocuments

namespace StackBridge.Yaml

namespace Parser

variable {state : ParserState} {start opened : Token} {tokens rest : List Token}
  {events : List Event}

theorem directives_of_mapping {version : Bool} {handles : List (String × String)} {steps : Nat}
    (htokens : state.tokens = opened :: tokens) (hopened : opened.kind = .blockMappingStart) :
    directives version handles (steps + 1) state =
      .ok () { state with handles := handles ++ defaultHandles } := by
  unfold directives
  rw [run_bind (peek_cons htokens)]
  simp only [hopened]
  rfl

/-- A document that begins with a mapping has no head, and it ends with its text. -/
theorem document_of_mapping {stop : Token} {steps : Nat}
    (htokens : state.tokens = start :: opened :: tokens)
    (hopened : opened.kind = .blockMappingStart)
    (hstop : stop.kind = .streamEnd)
    (hnode : (node true false (steps + 1)).Takes
      { state with tokens := opened :: tokens, handles := defaultHandles } [stop] events) :
    ∃ after, document (steps + 1) state = .ok none after ∧ after.tokens = [stop] ∧
      after.events.toList = state.events.toList ++ events := by
  obtain ⟨after, hrun, hleft, -, hevents⟩ := hnode
  refine ⟨after, ?_, hleft, hevents⟩
  have hpeek : peek { state with tokens := opened :: tokens } =
      .ok opened { state with tokens := opened :: tokens } := peek_cons rfl
  unfold document
  rw [run_bind (skip_cons htokens), run_bind hpeek, if_neg (by simp [hopened])]
  refine (run_bind (directives_of_mapping rfl hopened)).trans ?_
  simp only [hopened, List.nil_append]
  refine (run_bind hrun).trans ?_
  refine (run_bind (peek_cons hleft)).trans ?_
  rw [if_neg (by simp [hstop])]
  rfl

end Parser

theorem text_eq_ok {value : Value} {text : String} (htext : value.text = .ok text) :
    text = String.ofList value.chars := by
  unfold Value.text at htext
  split at htext
  · cases htext
  · split at htext <;> cases htext
    rfl

/-- What a mapping is written as is a whole document that shows the mapping. -/
theorem document_of_mapping {entry : Value × Value} {entries : List (Value × Value)}
    (htags : (Value.mapping (entry :: entries)).TagsWithin LegibleTag false) :
    ∃ root, (Value.mapping (entry :: entries)).Shows none root ∧
      Document.ofText (String.ofList (Value.mapping (entry :: entries)).chars) =
        ⟨root, (Document.ofText (String.ofList (Value.mapping (entry :: entries)).chars)).size,
          root.anchored, none, false⟩ := by
  have hparses : Parses none (Value.mapping (entry :: entries)) :=
    parses_value _ htags (fun hsome => absurd hsome (by decide))
  obtain ⟨all, hall, hkinds⟩ := tokensOf_mapping htags
  obtain ⟨start, behind, rfl, -, hbehind⟩ := List.map_eq_cons_iff.1 hkinds
  obtain ⟨opened, more, rfl, hopened, hmore⟩ := List.map_eq_cons_iff.1 hbehind
  obtain ⟨inner, ends, rfl, hinner, hends⟩ := List.map_eq_append_iff.1 hmore
  obtain ⟨close, last, rfl, hclose, hlast⟩ := List.map_eq_cons_iff.1 hends
  obtain ⟨stop, nothing, rfl, hstop, hnothing⟩ := List.map_eq_cons_iff.1 hlast
  obtain rfl := List.map_eq_nil_iff.1 hnothing
  let begun : ParserState :=
    { tokens := (opened :: (inner ++ [close])) ++ [stop], tokenFault := none
      handles := Parser.defaultHandles }
  have hnode : (opened :: (inner ++ [close])).map (·.kind) =
      nodeKinds .item none (.mapping (entry :: entries)) := by
    rw [nodeKinds, List.map_cons, List.map_append, hopened, hinner]
    simp [tagKinds, hclose]
  generalize hsteps : 4 * (start :: opened :: (inner ++ [close, stop])).length + 7 = steps
  obtain ⟨events, htakes, -, root, hshows, hread⟩ :=
    hparses .item false (steps + 1) _ [stop] begun hnode rfl rfl
      (by simp only [List.length_cons, List.length_append, List.length_nil] at hsteps ⊢; omega)
      (fun hplace => absurd rfl hplace)
  let parser : ParserState :=
    { tokens := start :: opened :: (inner ++ [close, stop]), tokenFault := none }
  obtain ⟨after, hrun, hleft, hevents⟩ :=
    @Parser.document_of_mapping parser start opened _ events stop
    steps rfl hopened hstop (by simpa [begun, parser] using htakes)
  replace hevents : after.events.toList = events := hevents
  have hrun : eventsOf (String.ofList (Value.mapping (entry :: entries)).chars) =
      ⟨events, none, false, none⟩ := by
    unfold eventsOf
    rw [hall]
    simp only
    rw [show 4 * (start :: opened :: (inner ++ [close, stop])).length + 8 = steps + 1 by omega,
      hrun]
    simp only [hevents, hleft]
    simp [hstop]
  have hroot : (Node.ofEvents (2 * events.length + 2) events).1 = root := by
    have hall := hread (2 * events.length + 2) [] (by omega)
    rw [List.append_nil] at hall
    rw [hall]
  refine ⟨root, hshows, ?_⟩
  simp only [Document.ofText, hrun, hroot]

end StackBridge.Yaml
