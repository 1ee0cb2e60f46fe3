/-
The tree that the tokens of a value are parsed to. A node ends where its tokens do; only a sequence
at the column of the mapping around it looks at the token behind it.
-/
import StackBridge.Proofs.ScannedNodes
import StackBridge.Yaml.Node

namespace StackBridge.Yaml

namespace Parser

variable {α β : Type} {state before after : ParserState} {token : Token} {tokens rest : List Token}

theorem run_bind {parser : Parser α} {next : α → Parser β} {value : α}
    (hrun : parser before = .ok value after) : (parser >>= next) before = next value after := by
  change EStateM.bind parser next before = _
  rw [EStateM.bind, hrun]

theorem peek_cons (htokens : state.tokens = token :: rest) : peek state = .ok token state := by
  unfold peek
  rw [run_bind (show (get : Parser ParserState) state = .ok state state from rfl), htokens]
  rfl

theorem skip_cons (htokens : state.tokens = token :: rest) :
    skip state = .ok () { state with tokens := rest } := by
  change EStateM.Result.ok () { state with tokens := state.tokens.tail } = _
  rw [htokens]
  rfl

/-- Whether a parser takes the tokens in front of others and appends events. -/
def Takes (parser : Parser Unit) (before : ParserState) (rest : List Token) (events : List Event) :
    Prop :=
  ∃ after, parser before = .ok () after ∧ after.tokens = rest ∧ after.handles = before.handles ∧
    after.events.toList = before.events.toList ++ events

theorem takes_skip (htokens : state.tokens = token :: rest) : skip.Takes state rest [] :=
  ⟨_, skip_cons htokens, rfl, rfl, (List.append_nil _).symm⟩

theorem takes_emit (state : ParserState) (mark : Mark) (kind : EventKind) :
    (emit mark kind).Takes state state.tokens [⟨kind, mark⟩] :=
  ⟨_, rfl, rfl, rfl, Array.toList_push⟩

/-- Parsers take one run of tokens after the other. -/
theorem Takes.bind {parser next : Parser Unit} {mid : List Token} {first more : List Event}
    (hfirst : parser.Takes before mid first)
    (hmore : ∀ state, state.tokens = mid → state.handles = before.handles →
        next.Takes state rest more) :
    (do parser; next).Takes before rest (first ++ more) := by
  obtain ⟨state, hrun, htokens, hhandles, hevents⟩ := hfirst
  obtain ⟨after, hnext, hrest, hkept, hall⟩ := hmore state htokens hhandles
  refine ⟨after, ?_, hrest, hkept.trans hhandles, ?_⟩
  · rw [run_bind hrun, hnext]
  · rw [hall, hevents, List.append_assoc]

/-- The same where the events of the second parser depend on the place that it begins at. -/
theorem Takes.then {parser next : Parser Unit} {mid : List Token} {first : List Event}
    {P : List Event → Prop} (hfirst : parser.Takes before mid first)
    (hmore : ∀ state, state.tokens = mid → state.handles = before.handles →
      ∃ more, next.Takes state rest more ∧ P more) :
    ∃ more, (do parser; next).Takes before rest (first ++ more) ∧ P more := by
  obtain ⟨state, hrun, htokens, hhandles, hevents⟩ := hfirst
  obtain ⟨more, ⟨after, hnext, hrest, hkept, hall⟩, hP⟩ := hmore state htokens hhandles
  refine ⟨more, ⟨after, ?_, hrest, hkept.trans hhandles, ?_⟩, hP⟩
  · rw [run_bind hrun, hnext]
  · rw [hall, hevents, List.append_assoc]

theorem takes_of_peek {next : Token → Parser Unit} {events : List Event}
    (htokens : state.tokens = token :: tokens) (hnext : (next token).Takes state rest events) :
    (peek >>= next).Takes state rest events := by
  obtain ⟨after, hrun, hafter⟩ := hnext
  exact ⟨after, (run_bind (peek_cons htokens)).trans hrun, hafter⟩

theorem takes_nodeUnless {ends : TokenKind → Bool} {mark : Token → Mark} {node : Parser Unit}
    {events : List Event} (htokens : state.tokens = token :: tokens)
    (hends : ends token.kind = false)
    (hnode : node.Takes state rest events) :
    (nodeUnless ends mark node).Takes state rest events := by
  refine takes_of_peek htokens ?_
  rw [if_neg (by simp [hends])]
  exact hnode

end Parser

theorem tagKind_cases (name : String) : ∃ handle suffix,
    Lexer.tagKind name = .tag handle suffix ∧
      (handle = "" ∧ suffix = fullTag name ∨ handle = "!" ∧ "!" ++ suffix = fullTag name) := by
  obtain ⟨body, hmarked, -⟩ := Lexer.markedTag_cases name
  unfold Lexer.tagKind fullTag
  rw [hmarked]
  cases body with
  | nil => exact ⟨_, _, rfl, Or.inl ⟨rfl, rfl⟩⟩
  | cons c others =>
      refine ⟨_, _, rfl, Or.inr ⟨rfl, ?_⟩⟩
      rw [show "!" = String.ofList ['!'] from rfl, ← String.ofList_append]
      rfl

/-- Whether a token stands before a node, or for one that stands elsewhere. -/
def isProperty : TokenKind → Bool
  | .anchor _ | .tag .. | .aliased _ => true
  | _ => false

section Properties

variable {state : ParserState} {tag : Option String} {front others : List Token} {content : Token}

/-- The token of a tag resolves to the tag. -/
theorem resolveTag_of_tagKind {name handle suffix : String} (start mark : Mark)
    (hhandles : state.handles = Parser.defaultHandles)
    (hkind : handle = "" ∧ suffix = fullTag name ∨ handle = "!" ∧ "!" ++ suffix = fullTag name) :
    Parser.resolveTag start mark handle suffix state = .ok (fullTag name) state := by
  unfold Parser.resolveTag
  rcases hkind with ⟨rfl, rfl⟩ | ⟨rfl, hfull⟩
  · rfl
  · rw [if_neg (by decide)]
    rw [Parser.run_bind (show (get : Parser ParserState) state = .ok state state from rfl),
      hhandles,
      show Parser.defaultHandles.lookup "!" = some "!" from rfl]
    simp only [hfull]
    rfl

/-- A tag that is written, or its absence, is what the properties of a node say. -/
theorem writtenProperties_eq (hfront : front.map (·.kind) = tagKinds tag)
    (hcontent : isProperty content.kind = false)
    (htokens : state.tokens = front ++ content :: others) :
    ∃ written, Parser.writtenProperties state =
        .ok ⟨none, written⟩ { state with tokens := content :: others } ∧
      ∀ start (after : ParserState), after.handles = Parser.defaultHandles →
        (written.mapM fun (mark, handle, suffix) =>
          Parser.resolveTag start mark handle suffix) after =
          .ok (tag.map fullTag) after := by
  cases tag with
  | none =>
      obtain rfl := List.map_eq_nil_iff.1 hfront
      refine ⟨none, ?_, fun start after _ => rfl⟩
      have hsame : { state with tokens := content :: others } = state := by
        rw [← List.nil_append (content :: others), ← htokens]
      rw [hsame]
      unfold Parser.writtenProperties
      rw [Parser.run_bind (Parser.peek_cons htokens)]
      cases hkind : content.kind <;> rw [hkind] at hcontent <;> first | rfl | cases hcontent
  | some name =>
      obtain ⟨handle, suffix, hkind, hfull⟩ := tagKind_cases name
      obtain ⟨first, rfl, hfirst⟩ : ∃ first, front = [first] ∧ first.kind = .tag handle suffix := by
        obtain ⟨first, others, rfl, hfirst, hothers⟩ := List.map_eq_cons_iff.1 hfront
        exact ⟨first, by rw [List.map_eq_nil_iff.1 hothers], hfirst.trans hkind⟩
      refine ⟨some (first.start, handle, suffix), ?_, fun start after hafter => ?_⟩
      · unfold Parser.writtenProperties
        rw [Parser.run_bind (Parser.peek_cons htokens), hfirst]
        simp only
        rw [Parser.run_bind (Parser.skip_cons htokens)]
        refine (Parser.run_bind (Parser.peek_cons rfl)).trans ?_
        cases hcase : content.kind <;> rw [hcase] at hcontent <;> first | rfl | cases hcontent
      · have hresolve := resolveTag_of_tagKind start first.start hafter hfull
        change ((fun found => some found) <$> Parser.resolveTag start first.start handle suffix)
          after = _
        change EStateM.map _ _ after = _
        rw [EStateM.map, hresolve]
        rfl

end Properties

/-- A node from behind its properties on, if the token there begins one. -/
def nodeContents (indentless : Bool) (start : Mark) (properties : Properties) (steps : Nat)
    (token : Token) : Parser Unit :=
  match token.kind, indentless with
  | .blockEntry, true => do
      Parser.emit start (.sequenceStart properties)
      Parser.indentlessEntries steps
  | .scalar text style, _ => do
      Parser.emit start (.scalar properties text style)
      Parser.skip
  | .flowSequenceStart, _ => do
      Parser.emit start (.sequenceStart properties)
      Parser.skip
      Parser.flowEntries token.start true steps
  | .flowMappingStart, _ => do
      Parser.emit start (.mappingStart properties)
      Parser.skip
      Parser.flowPairs token.start true steps
  | .blockSequenceStart, _ => do
      Parser.emit start (.sequenceStart properties)
      Parser.skip
      Parser.blockEntries token.start steps
  | .blockMappingStart, _ => do
      Parser.emit start (.mappingStart properties)
      Parser.skip
      Parser.blockPairs token.start steps
  | _, _ => throw .endOfStream

/-- Whether a token begins the contents of a node. -/
def beginsContents (indentless : Bool) : TokenKind → Bool
  | .scalar .. | .flowSequenceStart | .flowMappingStart | .blockSequenceStart
  | .blockMappingStart => true
  | .blockEntry => indentless
  | _ => false

theorem not_isProperty {indentless : Bool} {kind : TokenKind}
    (hkind : beginsContents indentless kind = true) : isProperty kind = false := by
  cases kind <;> first | rfl | cases hkind

/-- A node is read by its contents behind the properties in front of them. -/
theorem node_eq {state : ParserState} {tag : Option String} {front others : List Token}
    {content : Token} {indentless : Bool} (hfront : front.map (·.kind) = tagKinds tag)
    (hcontent : beginsContents indentless content.kind = true)
    (htokens : state.tokens = front ++ content :: others)
    (hhandles : state.handles = Parser.defaultHandles) (steps : Nat) :
    ∃ start, Parser.node true indentless (steps + 1) state =
      nodeContents indentless start ⟨tag.map fullTag, none⟩ steps content
        { state with tokens := content :: others } := by
  obtain ⟨written, hwritten, hresolved⟩ :=
    writtenProperties_eq hfront (not_isProperty hcontent) htokens
  obtain ⟨first, more, hfirst, hkind⟩ : ∃ first more, front ++ content :: others = first :: more ∧
      ∀ name, first.kind ≠ .aliased name := by
    cases front with
    | nil =>
        refine ⟨content, others, rfl, fun name hname => ?_⟩
        rw [hname] at hcontent
        cases hcontent
    | cons first more =>
        refine ⟨first, _, rfl, fun name hname => ?_⟩
        cases tag with
        | none => cases hfront
        | some other =>
            obtain ⟨handle, suffix, hother, -⟩ := tagKind_cases other
            have hkinds : first.kind = Lexer.tagKind other := (List.cons.inj hfront).1
            rw [hname, hother] at hkinds
            cases hkinds
  have hpeek := Parser.peek_cons (htokens.trans hfirst)
  refine ⟨first.start, ?_⟩
  unfold Parser.node
  rw [Parser.run_bind hpeek, Parser.run_bind hpeek]
  apply Eq.trans
  · cases hcase : first.kind with
    | aliased name => exact absurd hcase (hkind name)
    | _ => rfl
  refine (Parser.run_bind hwritten).trans ?_
  refine (Parser.run_bind
    (hresolved first.start { state with tokens := content :: others } hhandles)).trans ?_
  refine (Parser.run_bind (Parser.peek_cons rfl)).trans ?_
  unfold nodeContents
  cases hcase : content.kind <;> rw [hcase] at hcontent <;> first
    | rfl
    | (cases indentless <;> first | rfl | cases hcontent)

/-- Whether events are those of a node. -/
def Spells (events : List Event) (shows : Node → Prop) : Prop :=
  (∃ first others, events = first :: others ∧ first.kind ≠ .sequenceEnd ∧
    first.kind ≠ .mappingEnd) ∧
    ∃ node, shows node ∧ ∀ steps more, events.length ≤ steps →
      Node.ofEvents steps (events ++ more) = (node, more)

def SpellsItems (events : List Event) (shows : List Node → Prop) : Prop :=
  ∃ nodes, shows nodes ∧ ∀ steps mark more, events.length < steps →
    Node.itemsOfEvents steps (events ++ ⟨.sequenceEnd, mark⟩ :: more) = (nodes, more)

def SpellsEntries (events : List Event) (shows : List (Node × Node) → Prop) : Prop :=
  ∃ nodes, shows nodes ∧ ∀ steps mark more, events.length < steps →
    Node.entriesOfEvents steps (events ++ ⟨.mappingEnd, mark⟩ :: more) = (nodes, more)

section Trees

variable {events others : List Event} {mark stop : Mark} {properties : Properties}

theorem spells_scalar {text : String} {style : ScalarStyle} {shows : Node → Prop}
    (hshows : shows (.scalar mark properties text style)) :
    Spells [⟨.scalar properties text style, mark⟩] shows := by
  refine ⟨⟨_, _, rfl, by simp, by simp⟩, _, hshows, fun steps more hsteps => ?_⟩
  obtain ⟨steps, rfl⟩ := Nat.exists_eq_add_of_le' hsteps
  rfl

theorem spellsItems_nil {shows : List Node → Prop} (hshows : shows []) : SpellsItems [] shows := by
  refine ⟨[], hshows, fun steps mark more hsteps => ?_⟩
  obtain ⟨steps, rfl⟩ := Nat.exists_eq_add_of_lt hsteps
  rfl

/-- The events of an item and those of the items behind it spell all of them. -/
theorem spellsItems_cons {item : Node → Prop} {rest shows : List Node → Prop}
    (hitem : Spells events item) (hrest : SpellsItems others rest)
    (hshows : ∀ first nodes, item first → rest nodes → shows (first :: nodes)) :
    SpellsItems (events ++ others) shows := by
  obtain ⟨⟨first, behind, rfl, hfirst, -⟩, node, hnode, hread⟩ := hitem
  obtain ⟨nodes, hnodes, hmore⟩ := hrest
  refine ⟨node :: nodes, hshows node nodes hnode hnodes, fun steps mark more hsteps => ?_⟩
  simp only [List.length_append, List.length_cons] at hsteps
  obtain ⟨steps, rfl⟩ : ∃ before, steps = before + 1 := ⟨steps - 1, by omega⟩
  have hthis := hread steps (others ++ ⟨.sequenceEnd, mark⟩ :: more) (by
    rw [List.length_cons]
    omega)
  rw [List.cons_append] at hthis
  rw [List.append_assoc, List.cons_append, Node.itemsOfEvents, if_neg hfirst, hthis]
  simp only [hmore steps mark more (by omega)]

theorem spellsEntries_nil {shows : List (Node × Node) → Prop} (hshows : shows []) :
    SpellsEntries [] shows := by
  refine ⟨[], hshows, fun steps mark more hsteps => ?_⟩
  obtain ⟨steps, rfl⟩ := Nat.exists_eq_add_of_lt hsteps
  rfl

theorem spellsEntries_cons {keyEvents valueEvents : List Event} {key value : Node → Prop}
    {rest shows : List (Node × Node) → Prop} (hkey : Spells keyEvents key)
    (hvalue : Spells valueEvents value) (hrest : SpellsEntries others rest)
    (hshows : ∀ keyNode valueNode nodes, key keyNode → value valueNode → rest nodes →
      shows ((keyNode, valueNode) :: nodes)) :
    SpellsEntries (keyEvents ++ (valueEvents ++ others)) shows := by
  obtain ⟨⟨first, behind, rfl, -, hfirst⟩, keyNode, hkeyNode, hreadKey⟩ := hkey
  obtain ⟨⟨second, more, rfl, -⟩, valueNode, hvalueNode, hreadValue⟩ := hvalue
  obtain ⟨nodes, hnodes, hmore⟩ := hrest
  refine ⟨(keyNode, valueNode) :: nodes, hshows keyNode valueNode nodes hkeyNode hvalueNode hnodes,
    fun steps mark left hsteps => ?_⟩
  simp only [List.length_append, List.length_cons] at hsteps
  obtain ⟨steps, rfl⟩ : ∃ before, steps = before + 1 := ⟨steps - 1, by omega⟩
  have hthisKey := hreadKey steps ((second :: more) ++ (others ++ ⟨.mappingEnd, mark⟩ :: left)) (by
    rw [List.length_cons]
    omega)
  have hthisValue := hreadValue steps (others ++ ⟨.mappingEnd, mark⟩ :: left) (by
    rw [List.length_cons]
    omega)
  rw [List.cons_append] at hthisKey
  rw [List.append_assoc, List.append_assoc, List.cons_append, Node.entriesOfEvents, if_neg hfirst,
    hthisKey]
  simp only [hthisValue, hmore steps mark left (by omega)]

/-- A collection is the event that opens it, the events of its parts and the one that closes it. -/
theorem spells_collection {α : Type} {opened closed : Event} {parts : α → Prop}
    {readParts : Nat → List Event → α × List Event} {collection : α → Node} {shows : Node → Prop}
    (hopened : opened.kind ≠ .sequenceEnd ∧ opened.kind ≠ .mappingEnd)
    (hparts : ∃ nodes, parts nodes ∧ ∀ steps more, events.length < steps →
      readParts steps (events ++ closed :: more) = (nodes, more))
    (hread : ∀ steps rest, Node.ofEvents (steps + 1) (opened :: rest) =
      (collection (readParts steps rest).1, (readParts steps rest).2))
    (hshows : ∀ nodes, parts nodes → shows (collection nodes)) :
    Spells (opened :: (events ++ [closed])) shows := by
  obtain ⟨nodes, hnodes, hparts⟩ := hparts
  refine ⟨⟨_, _, rfl, hopened⟩, _, hshows nodes hnodes, fun steps more hsteps => ?_⟩
  simp only [List.length_cons, List.length_append, List.length_nil] at hsteps
  obtain ⟨steps, rfl⟩ : ∃ before, steps = before + 1 := ⟨steps - 1, by omega⟩
  rw [List.cons_append, List.append_assoc, List.singleton_append, hread,
    hparts steps more (by omega)]

theorem spells_sequence {items : List Node → Prop} {shows : Node → Prop}
    (hitems : SpellsItems events items)
    (hshows : ∀ nodes, items nodes → shows (.sequence mark properties nodes)) :
    Spells (⟨.sequenceStart properties, mark⟩ :: (events ++ [⟨.sequenceEnd, stop⟩])) shows := by
  obtain ⟨nodes, hnodes, hread⟩ := hitems
  exact spells_collection ⟨nofun, nofun⟩ ⟨nodes, hnodes, fun steps => hread steps stop⟩
    (fun _ _ => rfl) hshows

theorem spells_mapping {entries : List (Node × Node) → Prop} {shows : Node → Prop}
    (hentries : SpellsEntries events entries)
    (hshows : ∀ nodes, entries nodes → shows (.mapping mark properties nodes)) :
    Spells (⟨.mappingStart properties, mark⟩ :: (events ++ [⟨.mappingEnd, stop⟩])) shows := by
  obtain ⟨nodes, hnodes, hread⟩ := hentries
  exact spells_collection ⟨nofun, nofun⟩ ⟨nodes, hnodes, fun steps => hread steps stop⟩
    (fun _ _ => rfl) hshows

end Trees

/-- Whether the tokens of a node are parsed to a tree that shows it. -/
def Parses (tag : Option String) (value : Value) : Prop :=
  ∀ (place : Place) (indentless : Bool) (steps : Nat) (tokens rest : List Token)
    (state : ParserState),
    tokens.map (·.kind) = nodeKinds place tag value → state.tokens = tokens ++ rest →
    state.handles = Parser.defaultHandles → 2 * tokens.length + 1 < steps →
    (place ≠ .item →
      indentless = true ∧ ∃ next others, rest = next :: others ∧ next.kind ≠ .blockEntry) →
    ∃ events, (Parser.node true indentless steps).Takes state rest events ∧
      Spells events (value.Shows (tag.map fullTag))

section Contents

variable {tag : Option String} {value : Value}

/-- Whether the tokens of a node behind its tag are parsed to a tree that shows it. -/
def ParsesContents (tag : Option String) (value : Value) (indentless : Bool) (kind : TokenKind)
    (kinds : List TokenKind) (rest : List Token) : Prop :=
  ∀ (start : Mark) (steps : Nat) (content : Token) (more : List Token) (state : ParserState),
    content.kind = kind → more.map (·.kind) = kinds → state.tokens = content :: (more ++ rest) →
    state.handles = Parser.defaultHandles → 2 * more.length + 2 < steps →
    ∃ events, (nodeContents indentless start ⟨tag.map fullTag, none⟩ steps content).Takes state rest
        events ∧ Spells events (value.Shows (tag.map fullTag))

/-- A node is parsed from its tag and its contents. -/
theorem parses_of_contents {indentless : Bool} {steps : Nat} {tokens rest : List Token}
    {state : ParserState} {kind : TokenKind} {kinds : List TokenKind}
    (htokens : tokens.map (·.kind) = tagKinds tag ++ kind :: kinds)
    (hstate : state.tokens = tokens ++ rest) (hhandles : state.handles = Parser.defaultHandles)
    (hsteps : 2 * tokens.length + 1 < steps) (hbegins : beginsContents indentless kind = true)
    (hcontents : ParsesContents tag value indentless kind kinds rest) :
    ∃ events, (Parser.node true indentless steps).Takes state rest events ∧
      Spells events (value.Shows (tag.map fullTag)) := by
  obtain ⟨front, behind, rfl, hfront, hbehind⟩ := List.map_eq_append_iff.1 htokens
  obtain ⟨content, more, rfl, hcontent, hmore⟩ := List.map_eq_cons_iff.1 hbehind
  obtain ⟨steps, rfl⟩ : ∃ before, steps = before + 1 := ⟨steps - 1, by omega⟩
  simp only [List.length_append, List.length_cons] at hsteps
  rw [List.append_assoc, List.cons_append] at hstate
  obtain ⟨start, hnode⟩ := node_eq hfront (by rw [hcontent]; exact hbegins) hstate hhandles steps
  obtain ⟨events, ⟨after, hrun, hafter⟩, hspells⟩ := hcontents start steps content more
    { state with tokens := content :: (more ++ rest) } hcontent hmore rfl hhandles (by omega)
  exact ⟨events, ⟨after, hnode.trans hrun, hafter⟩, hspells⟩

theorem parses_scalar {text : String} {style : ScalarStyle}
    (hform : scalarForm? value = some (text, style)) : Parses tag value := by
  intro place indentless steps tokens rest state htokens hstate hhandles hsteps _
  rw [nodeKinds_scalar hform] at htokens
  refine parses_of_contents htokens hstate hhandles hsteps rfl ?_
  intro start steps content more state hcontent hmore hstate _ _
  obtain rfl := List.map_eq_nil_iff.1 hmore
  refine ⟨[⟨.scalar ⟨tag.map fullTag, none⟩ text style, start⟩], ?_, spells_scalar ?_⟩
  · unfold nodeContents
    simp only [hcontent]
    exact (Parser.takes_emit state _ _).bind fun after hafter _ =>
      Parser.takes_skip (hafter.trans hstate)
  · cases value <;> cases hform <;> exact ⟨start, rfl⟩

theorem takes_flowEnd {state : ParserState} {stop : Token} {rest : List Token} {opened : Mark}
    {steps : Nat} (hstate : state.tokens = stop :: rest) :
    (stop.kind = .flowSequenceEnd → (Parser.flowEntries opened true (steps + 1)).Takes state rest
        [⟨.sequenceEnd, stop.start⟩]) ∧
      (stop.kind = .flowMappingEnd → (Parser.flowPairs opened true (steps + 1)).Takes state rest
        [⟨.mappingEnd, stop.start⟩]) := by
  have hends : ∀ kind, (do Parser.emit stop.start kind; Parser.skip).Takes state rest
      [⟨kind, stop.start⟩] := fun kind =>
    (Parser.takes_emit state _ _).bind fun after hafter _ => Parser.takes_skip (hafter.trans hstate)
  constructor
  · intro hkind
    unfold Parser.flowEntries
    refine Parser.takes_of_peek hstate ?_
    simp only [Bool.not_true, Bool.false_and, Bool.false_eq_true, if_false]
    refine Parser.takes_of_peek hstate ?_
    simp only [hkind]
    exact hends _
  · intro hkind
    unfold Parser.flowPairs
    refine Parser.takes_of_peek hstate ?_
    simp only [Bool.not_true, Bool.false_and, Bool.false_eq_true, if_false]
    refine Parser.takes_of_peek hstate ?_
    simp only [hkind]
    exact hends _

/-- An empty collection is a bracket that closes behind the one that opens it. -/
theorem parses_empty {opening closing : TokenKind} {opens closes : EventKind}
    (parts : Mark → Bool → Nat → Parser Unit)
    (hkinds : ∀ place, nodeKinds place tag value = tagKinds tag ++ [opening, closing])
    (hbegins : ∀ indentless, beginsContents indentless opening = true)
    (hcontents : ∀ indentless start steps (content : Token), content.kind = opening →
      nodeContents indentless start ⟨tag.map fullTag, none⟩ steps content = do
        Parser.emit start opens
        Parser.skip
        parts content.start true steps)
    (hends : ∀ {state : ParserState} {stop : Token} {rest : List Token} {opened : Mark}
      {steps : Nat}, state.tokens = stop :: rest → stop.kind = closing →
        (parts opened true (steps + 1)).Takes state rest [⟨closes, stop.start⟩])
    (hspells : ∀ start stop : Mark,
      Spells (⟨opens, start⟩ :: ([] ++ [⟨closes, stop⟩])) (value.Shows (tag.map fullTag))) :
    Parses tag value := by
  intro place indentless steps tokens rest state htokens hstate hhandles hsteps _
  rw [hkinds] at htokens
  refine parses_of_contents htokens hstate hhandles hsteps (hbegins indentless) ?_
  intro start steps content more state hcontent hmore hstate _ hsteps
  obtain ⟨stop, others, rfl, hstop, hothers⟩ := List.map_eq_cons_iff.1 hmore
  obtain rfl := List.map_eq_nil_iff.1 hothers
  obtain ⟨steps, rfl⟩ : ∃ before, steps = before + 1 := ⟨steps - 1, by omega⟩
  refine ⟨_, ?_, hspells start stop.start⟩
  rw [hcontents _ _ _ _ hcontent]
  exact (Parser.takes_emit state _ _).bind fun after hafter _ =>
    (Parser.takes_skip (hafter.trans hstate)).bind fun after hafter _ => hends hafter hstop

theorem parses_emptySequence : Parses tag (.sequence []) := by
  have hnone : SpellsItems [] (Value.ShowsItems []) := spellsItems_nil rfl
  refine parses_empty Parser.flowEntries (fun _ => rfl) (fun _ => rfl) ?_
    (fun hstate => (takes_flowEnd hstate).1)
    fun start stop => spells_sequence hnone fun nodes hnodes => ⟨start, nodes, rfl, hnodes⟩
  intro indentless start steps content hcontent
  unfold nodeContents
  simp only [hcontent]

theorem parses_emptyMapping : Parses tag (.mapping []) := by
  have hnone : SpellsEntries [] (Value.ShowsEntries []) := spellsEntries_nil rfl
  refine parses_empty Parser.flowPairs (fun _ => rfl) (fun _ => rfl) ?_
    (fun hstate => (takes_flowEnd hstate).2)
    fun start stop => spells_mapping hnone fun nodes hnodes => ⟨start, nodes, rfl, hnodes⟩
  intro indentless start steps content hcontent
  unfold nodeContents
  simp only [hcontent]

end Contents

/-- The first token of a node shows that there is one. -/
theorem head_nodeKinds (place : Place) : (tag : Option String) → (value : Value) →
    ∃ kind more, nodeKinds place tag value = kind :: more ∧ Parser.endsBlockPair kind = false ∧
      (place = .item → kind ≠ .blockEntry)
  | _, .tagged name value => head_nodeKinds place (some name) value
  | some name, value => by
      obtain ⟨handle, suffix, hkind, -⟩ := tagKind_cases name
      have htag : ∀ kinds, ∃ kind more, tagKinds (some name) ++ kinds = kind :: more ∧
          Parser.endsBlockPair kind = false ∧ (place = .item → kind ≠ .blockEntry) := by
        intro kinds
        refine ⟨Lexer.tagKind name, kinds, rfl, ?_, fun _ => ?_⟩ <;> rw [hkind]
        · rfl
        · simp
      cases value with
      | tagged other value => exact head_nodeKinds place (some other) value
      | sequence items => cases items <;> exact htag _
      | mapping entries => cases entries <;> exact htag _
      | _ => exact htag _
  | none, .sequence (item :: rest) => by
      by_cases hshares : place.sharesColumn false = true
      · refine ⟨.blockEntry, nodeKinds .item none item ++ itemsKinds rest, ?_, rfl, ?_⟩
        · rw [nodeKinds, tagKinds, Option.isSome_none, if_pos hshares]
          rfl
        · rintro rfl
          cases hshares
      · refine ⟨.blockSequenceStart, itemsKinds (item :: rest) ++ [.blockEnd], ?_, rfl, by simp⟩
        rw [nodeKinds, tagKinds, Option.isSome_none, if_neg hshares]
        rfl
  | none, .sequence [] | none, .mapping [] | none, .mapping (_ :: _) | none, .null | none, .bool _
  | none, .number _ | none, .string _ => ⟨_, _, rfl, rfl, by simp⟩

section Blocks

variable {stop : Token} {rest : List Token}

/-- The items of a block sequence or of one at the column of the mapping around it. -/
theorem takes_items {entries : Nat → Parser Unit} {ends : TokenKind → Bool} {left : List Token}
    (hstep : ∀ (steps : Nat) (token : Token) (tokens : List Token) (state : ParserState),
      token.kind = .blockEntry → state.tokens = token :: tokens →
      entries (steps + 1) state = (do
        Parser.skip
        Parser.nodeUnless ends (fun _ => token.stop) (Parser.node true false steps)
        entries steps) state)
    (hends : ∀ kind, Parser.endsBlockPair kind = false → kind ≠ .blockEntry → ends kind = false)
    (hstop : ∀ (steps : Nat) (state : ParserState), state.tokens = stop :: rest →
      (entries (steps + 1)).Takes state left [⟨.sequenceEnd, stop.start⟩])
    {items : List Value} (hitems : ∀ item ∈ items, Parses none item) {tokens : List Token}
    {steps : Nat} {state : ParserState} (htokens : tokens.map (·.kind) = itemsKinds items)
    (hstate : state.tokens = tokens ++ stop :: rest)
    (hhandles : state.handles = Parser.defaultHandles) (hsteps : 2 * tokens.length < steps) :
    ∃ events, (entries steps).Takes state left (events ++ [⟨.sequenceEnd, stop.start⟩]) ∧
      SpellsItems events (Value.ShowsItems items) := by
  induction items generalizing tokens steps state with
  | nil =>
      obtain rfl := List.map_eq_nil_iff.1 htokens
      obtain ⟨steps, rfl⟩ : ∃ before, steps = before + 1 := ⟨steps - 1, by omega⟩
      exact ⟨[], hstop steps state hstate, spellsItems_nil rfl⟩
  | cons item others ih =>
      obtain ⟨hitem, hothers⟩ := List.forall_mem_cons.1 hitems
      obtain ⟨entry, behind, rfl, hentry, hbehind⟩ := List.map_eq_cons_iff.1 htokens
      obtain ⟨front, more, rfl, hfront, hmore⟩ := List.map_eq_append_iff.1 hbehind
      obtain ⟨kind, kinds, hkinds, hpair, hdash⟩ := head_nodeKinds .item none item
      obtain ⟨first, inner, rfl, hfirst, -⟩ := List.map_eq_cons_iff.1 (hfront.trans hkinds)
      obtain ⟨steps, rfl⟩ : ∃ before, steps = before + 1 := ⟨steps - 1, by omega⟩
      simp only [List.length_append, List.length_cons] at hsteps
      have hfuel : 2 * more.length < steps := by omega
      rw [List.cons_append, List.append_assoc] at hstate
      have hnode : ∀ state : ParserState,
          state.tokens = (first :: inner) ++ (more ++ stop :: rest) →
          state.handles = Parser.defaultHandles →
          ∃ events, (Parser.nodeUnless ends (fun _ => entry.stop)
            (Parser.node true false steps)).Takes
            state (more ++ stop :: rest) events ∧ Spells events (item.Shows none) := by
        intro state hstate hhandles
        obtain ⟨events, htakes, hspells⟩ := hitem .item false steps (first :: inner) _ state hfront
          hstate hhandles (by rw [List.length_cons]; omega) (fun hplace => absurd rfl hplace)
        refine ⟨events, Parser.takes_nodeUnless hstate ?_ htakes, hspells⟩
        rw [hfirst]
        exact hends kind hpair (hdash rfl)
      obtain ⟨all, ⟨after, hrun, hafter⟩, events, rfl, hspells⟩ :=
        (Parser.takes_skip hstate).then (P := fun all => ∃ events,
          all = events ++ [⟨.sequenceEnd, stop.start⟩] ∧
            SpellsItems events (Value.ShowsItems (item :: others))) fun behind hbehind hkept => by
          obtain ⟨events, htakes, hspells⟩ := hnode behind hbehind (hkept.trans hhandles)
          obtain ⟨all, hall, behindEvents, rfl, hrest⟩ := htakes.then (P := fun all => ∃ events,
            all = events ++ [⟨.sequenceEnd, stop.start⟩] ∧
              SpellsItems events (Value.ShowsItems others)) fun last hlast hsame => by
            obtain ⟨more, hmoreTakes, hmoreSpells⟩ :=
              ih hothers hmore hlast (hsame.trans (hkept.trans hhandles)) hfuel
            exact ⟨_, hmoreTakes, more, rfl, hmoreSpells⟩
          exact ⟨_, hall, events ++ behindEvents, (List.append_assoc _ _ _).symm,
            spellsItems_cons hspells hrest fun node nodes hnode hnodes =>
              ⟨node, nodes, rfl, hnode, hnodes⟩⟩
      exact ⟨events, ⟨after, (hstep steps entry _ state hentry hstate).trans hrun, hafter⟩, hspells⟩

/-- The first token behind an entry belongs to the next one or ends the mapping. -/
theorem head_entriesKinds {entries : List (Value × Value)} {tokens : List Token}
    (htokens : tokens.map (·.kind) = entriesKinds entries) (hstop : stop.kind = .blockEnd)
    (rest : List Token) :
        ∃ next others, tokens ++ stop :: rest = next :: others ∧ next.kind ≠ .blockEntry := by
  cases entries with
  | nil =>
      obtain rfl := List.map_eq_nil_iff.1 htokens
      exact ⟨stop, rest, rfl, by rw [hstop]; simp⟩
  | cons entry more =>
      obtain ⟨first, behind, rfl, hfirst, -⟩ := List.map_eq_cons_iff.1 htokens
      exact ⟨first, behind ++ stop :: rest, rfl, by rw [hfirst]; simp⟩

/-- A key or a value of a block mapping. -/
theorem takes_part {part : Value} (hpart : Parses none part) (mark : Token → Mark) {place : Place}
    {steps : Nat} {tokens left : List Token} {state : ParserState}
    (htokens : tokens.map (·.kind) = nodeKinds place none part)
    (hstate : state.tokens = tokens ++ left) (hhandles : state.handles = Parser.defaultHandles)
    (hsteps : 2 * tokens.length + 1 < steps)
    (hleft : ∃ next others, left = next :: others ∧ next.kind ≠ .blockEntry) :
    ∃ events, (Parser.nodeUnless Parser.endsBlockPair mark (Parser.node true true steps)).Takes
      state left events ∧ Spells events (part.Shows none) := by
  obtain ⟨kind, kinds, hkinds, hpair, -⟩ := head_nodeKinds place none part
  obtain ⟨first, inner, rfl, hfirst, -⟩ := List.map_eq_cons_iff.1 (htokens.trans hkinds)
  obtain ⟨events, htakes, hspells⟩ := hpart place true steps (first :: inner) left state htokens
    hstate hhandles hsteps fun _ => ⟨rfl, hleft⟩
  refine ⟨events, Parser.takes_nodeUnless hstate ?_ htakes, hspells⟩
  rw [hfirst]
  exact hpair

theorem takes_value {value : Value} (hvalue : Parses none value) {place : Place} {steps : Nat}
    {mark : Token} {tokens left : List Token} {state : ParserState} (hmark : mark.kind = .value)
    (htokens : tokens.map (·.kind) = nodeKinds place none value)
    (hstate : state.tokens = mark :: (tokens ++ left))
    (hhandles : state.handles = Parser.defaultHandles) (hsteps : 2 * tokens.length + 1 < steps)
    (hleft : ∃ next others, left = next :: others ∧ next.kind ≠ .blockEntry) :
    ∃ events, (Parser.blockValue (steps + 1)).Takes state left events ∧
      Spells events (value.Shows none) := by
  obtain ⟨events, ⟨after, hrun, hafter⟩, hspells⟩ :=
    (Parser.takes_skip hstate).then fun behind hbehind hkept =>
      takes_part hvalue (fun _ => mark.stop) htokens hbehind (hkept.trans hhandles) hsteps
        hleft
  refine ⟨events, ⟨after, ?_, hafter⟩, hspells⟩
  unfold Parser.blockValue
  rw [Parser.run_bind (Parser.peek_cons hstate)]
  simp only [hmark]
  exact hrun

/-- The entries of a block mapping, with its end: each has its key with a mark and its value with
another. -/
theorem takes_pairs (opened : Mark) {entries : List (Value × Value)}
    (hentries : ∀ entry ∈ entries, Parses none entry.1 ∧ Parses none entry.2) {tokens : List Token}
    {steps : Nat} {state : ParserState} (htokens : tokens.map (·.kind) = entriesKinds entries)
    (hstop : stop.kind = .blockEnd) (hstate : state.tokens = tokens ++ stop :: rest)
    (hhandles : state.handles = Parser.defaultHandles) (hsteps : 2 * tokens.length < steps) :
    ∃ events, (Parser.blockPairs opened steps).Takes state rest
        (events ++ [⟨.mappingEnd, stop.start⟩]) ∧
      SpellsEntries events (Value.ShowsEntries entries) := by
  induction entries generalizing tokens steps state with
  | nil =>
      obtain rfl := List.map_eq_nil_iff.1 htokens
      obtain ⟨steps, rfl⟩ : ∃ before, steps = before + 1 := ⟨steps - 1, by omega⟩
      refine ⟨[], ?_, spellsEntries_nil rfl⟩
      unfold Parser.blockPairs
      refine Parser.takes_of_peek hstate ?_
      simp only [hstop]
      exact (Parser.takes_emit state _ _).bind fun after hafter _ =>
        Parser.takes_skip (hafter.trans hstate)
  | cons entry others ih =>
      obtain ⟨key, value⟩ := entry
      obtain ⟨⟨hkey, hvalue⟩, hothers⟩ := List.forall_mem_cons.1 hentries
      obtain ⟨keyMark, behindKey, rfl, hkeyMark, hbehindKey⟩ := List.map_eq_cons_iff.1 htokens
      obtain ⟨keyTokens, behind, rfl, hkeyTokens, hbehind⟩ := List.map_eq_append_iff.1 hbehindKey
      obtain ⟨valueMark, behindValue, rfl, hvalueMark, hbehindValue⟩ :=
        List.map_eq_cons_iff.1 hbehind
      obtain ⟨valueTokens, more, rfl, hvalueTokens, hmore⟩ := List.map_eq_append_iff.1 hbehindValue
      simp only [List.length_append, List.length_cons] at hsteps
      obtain ⟨steps, rfl⟩ : ∃ before, steps = before + 2 := ⟨steps - 2, by omega⟩
      have hkeyFuel : 2 * keyTokens.length + 1 < steps + 1 := by omega
      have hvalueFuel : 2 * valueTokens.length + 1 < steps := by omega
      have hmoreFuel : 2 * more.length < steps + 1 := by omega
      simp only [List.cons_append, List.append_assoc] at hstate
      have hnext := head_entriesKinds hmore hstop rest
      have hrun : Parser.blockPairs opened (steps + 2) state = (do
          Parser.skip
          Parser.nodeUnless Parser.endsBlockPair (fun _ => keyMark.stop)
            (Parser.node true true (steps + 1))
          Parser.blockValue (steps + 1)
          Parser.blockPairs opened (steps + 1)) state := by
        conv_lhs => unfold Parser.blockPairs
        rw [Parser.run_bind (Parser.peek_cons hstate)]
        simp only [hkeyMark]
      obtain ⟨all, ⟨after, htakes, hafter⟩, events, rfl, hspells⟩ :=
        (Parser.takes_skip hstate).then (P := fun all => ∃ events,
          all = events ++ [⟨.mappingEnd, stop.start⟩] ∧
            SpellsEntries events (Value.ShowsEntries ((key, value) :: others)))
          fun first hfirst hfirstKept => by
          have hfirstHandles := hfirstKept.trans hhandles
          obtain ⟨keyEvents, hkeyTakes, hkeySpells⟩ := takes_part hkey
            (fun _ => keyMark.stop) hkeyTokens hfirst hfirstHandles hkeyFuel
            ⟨valueMark, _, rfl, by rw [hvalueMark]; simp⟩
          obtain ⟨all, hall, valueEvents, otherEvents, rfl, hvalueSpells, hotherSpells⟩ :=
            hkeyTakes.then (P := fun all => ∃ valueEvents otherEvents,
              all = valueEvents ++ (otherEvents ++ [⟨.mappingEnd, stop.start⟩]) ∧
                Spells valueEvents (value.Shows none) ∧
                SpellsEntries otherEvents (Value.ShowsEntries others))
              fun second hsecond hsecondKept => by
              have hsecondHandles := hsecondKept.trans hfirstHandles
              obtain ⟨valueEvents, hvalueTakes, hvalueSpells⟩ := takes_value hvalue hvalueMark
                hvalueTokens hsecond hsecondHandles hvalueFuel hnext
              obtain ⟨all, hall, otherEvents, rfl, hotherSpells⟩ := hvalueTakes.then
                (P := fun all => ∃ otherEvents,
                  all = otherEvents ++ [⟨.mappingEnd, stop.start⟩] ∧
                    SpellsEntries otherEvents (Value.ShowsEntries others))
                fun third hthird hthirdKept => by
                obtain ⟨otherEvents, hotherTakes, hotherSpells⟩ := ih hothers hmore hthird
                  (hthirdKept.trans hsecondHandles) hmoreFuel
                exact ⟨_, hotherTakes, otherEvents, rfl, hotherSpells⟩
              exact ⟨_, hall, valueEvents, otherEvents, rfl, hvalueSpells, hotherSpells⟩
          refine ⟨_, hall, keyEvents ++ (valueEvents ++ otherEvents), ?_,
            spellsEntries_cons hkeySpells hvalueSpells hotherSpells
              fun keyNode valueNode nodes hkeyNode hvalueNode hnodes =>
                ⟨keyNode, valueNode, nodes, rfl, hkeyNode, hvalueNode, hnodes⟩⟩
          simp only [List.append_assoc]
      exact ⟨events, ⟨after, hrun.trans htakes, hafter⟩, hspells⟩

end Blocks

section Collections

variable {tag : Option String} {items : List Value} {stop : Token} {tokens rest : List Token}
  {steps : Nat} {state : ParserState}

/-- The items of a sequence at the column of the mapping around it end before the token behind. -/
theorem takes_indentless (hitems : ∀ item ∈ items, Parses none item)
    (hstop : stop.kind ≠ .blockEntry) (htokens : tokens.map (·.kind) = itemsKinds items)
    (hstate : state.tokens = tokens ++ stop :: rest)
    (hhandles : state.handles = Parser.defaultHandles) (hsteps : 2 * tokens.length < steps) :
    ∃ events, (Parser.indentlessEntries steps).Takes state (stop :: rest)
        (events ++ [⟨.sequenceEnd, stop.start⟩]) ∧
      SpellsItems events (Value.ShowsItems items) := by
  let ends (kind : TokenKind) : Bool := kind = .blockEntry || Parser.endsBlockPair kind
  have hstep : ∀ (steps : Nat) (token : Token) (tokens : List Token) (state : ParserState),
      token.kind = .blockEntry → state.tokens = token :: tokens →
      Parser.indentlessEntries (steps + 1) state = (do
        Parser.skip
        Parser.nodeUnless ends (fun _ => token.stop) (Parser.node true false steps)
        Parser.indentlessEntries steps) state := by
    intro steps token tokens state hkind hstate
    conv_lhs => unfold Parser.indentlessEntries
    rw [Parser.run_bind (Parser.peek_cons hstate)]
    simp only [hkind]
    rfl
  have hends : ∀ kind, Parser.endsBlockPair kind = false → kind ≠ .blockEntry →
    ends kind = false := by
    intro kind hpair hdash
    simp only [ends, hpair, decide_eq_false hdash]
    rfl
  refine takes_items hstep hends
    (fun steps state hstate => ?_) hitems htokens hstate hhandles hsteps
  obtain ⟨after, hrun, hafter⟩ := Parser.takes_emit state stop.start .sequenceEnd
  rw [hstate] at hafter
  refine ⟨after, ?_, hafter⟩
  unfold Parser.indentlessEntries
  rw [Parser.run_bind (Parser.peek_cons hstate)]
  cases hkind : stop.kind <;> first | exact hrun | exact absurd hkind hstop

theorem takes_blockEntries (opened : Mark) (hitems : ∀ item ∈ items, Parses none item)
    (hstop : stop.kind = .blockEnd) (htokens : tokens.map (·.kind) = itemsKinds items)
    (hstate : state.tokens = tokens ++ stop :: rest)
    (hhandles : state.handles = Parser.defaultHandles) (hsteps : 2 * tokens.length < steps) :
    ∃ events, (Parser.blockEntries opened steps).Takes state rest
        (events ++ [⟨.sequenceEnd, stop.start⟩]) ∧
      SpellsItems events (Value.ShowsItems items) := by
  have hstep : ∀ (steps : Nat) (token : Token) (tokens : List Token) (state : ParserState),
      token.kind = .blockEntry → state.tokens = token :: tokens →
      Parser.blockEntries opened (steps + 1) state = (do
        Parser.skip
        Parser.nodeUnless Parser.endsBlockEntry (fun _ => token.stop) (Parser.node true false steps)
        Parser.blockEntries opened steps) state := by
    intro steps token tokens state hkind hstate
    conv_lhs => unfold Parser.blockEntries
    rw [Parser.run_bind (Parser.peek_cons hstate)]
    simp only [hkind]
  have hends : ∀ kind, Parser.endsBlockPair kind = false → kind ≠ .blockEntry →
      Parser.endsBlockEntry kind = false := by
    intro kind hpair hdash
    unfold Parser.endsBlockPair at hpair
    rw [Parser.endsBlockEntry, decide_eq_false hdash, (Bool.or_eq_false_iff.1 hpair).2]
    rfl
  refine takes_items hstep hends
    (fun steps state hstate => ?_) hitems htokens hstate hhandles hsteps
  unfold Parser.blockEntries
  refine Parser.takes_of_peek hstate ?_
  simp only [hstop]
  exact (Parser.takes_emit state _ _).bind fun after hafter _ =>
    Parser.takes_skip (hafter.trans hstate)

/-- A block sequence is parsed item by item. -/
theorem parses_sequence {item : Value} (hitems : ∀ entry ∈ item :: items, Parses none entry) :
    Parses tag (.sequence (item :: items)) := by
  intro place indentless steps tokens rest state htokens hstate hhandles hsteps hleft
  rw [nodeKinds] at htokens
  by_cases hshares : place.sharesColumn tag.isSome = true
  · have hplace : place ≠ .item := by
      rintro rfl
      cases hshares
    obtain ⟨rfl, next, others, rfl, hnext⟩ := hleft hplace
    rw [if_pos hshares, itemsKinds] at htokens
    refine parses_of_contents htokens hstate hhandles hsteps rfl ?_
    intro start steps content more state hcontent hmore hstate hhandles hsteps
    have hkinds : (content :: more).map (·.kind) = itemsKinds (item :: items) := by
      rw [List.map_cons, hcontent, hmore, itemsKinds]
    have hfuel : 2 * (content :: more).length < steps := by
      rw [List.length_cons]
      omega
    obtain ⟨all, htakes, events, rfl, hspells⟩ := (Parser.takes_emit state start
      (.sequenceStart ⟨tag.map fullTag, none⟩)).then (P := fun all => ∃ events,
        all = events ++ [⟨.sequenceEnd, next.start⟩] ∧
          SpellsItems events (Value.ShowsItems (item :: items))) fun after hafter hkept => by
        obtain ⟨events, htakes, hspells⟩ := takes_indentless hitems hnext hkinds
          (hafter.trans hstate) (hkept.trans hhandles) hfuel
        exact ⟨_, htakes, events, rfl, hspells⟩
    refine ⟨_, ?_, @spells_sequence events start next.start _ _ _ hspells fun nodes hnodes =>
      ⟨start, nodes, rfl, hnodes⟩⟩
    unfold nodeContents
    simp only [hcontent]
    exact htakes
  · rw [if_neg hshares] at htokens
    refine parses_of_contents htokens hstate hhandles hsteps rfl ?_
    intro start steps content more state hcontent hmore hstate hhandles hsteps
    obtain ⟨inner, ends, rfl, hinner, hends⟩ := List.map_eq_append_iff.1 hmore
    obtain ⟨stop, nothing, rfl, hstop, hnothing⟩ := List.map_eq_cons_iff.1 hends
    obtain rfl := List.map_eq_nil_iff.1 hnothing
    simp only [List.length_append, List.length_singleton] at hsteps
    rw [List.append_assoc, List.singleton_append] at hstate
    have hfuel : 2 * inner.length < steps := by omega
    obtain ⟨all, htakes, events, rfl, hspells⟩ := (Parser.takes_emit state start
      (.sequenceStart ⟨tag.map fullTag, none⟩)).then (P := fun all => ∃ events,
        all = events ++ [⟨.sequenceEnd, stop.start⟩] ∧
          SpellsItems events (Value.ShowsItems (item :: items))) fun after hafter hkept => by
        exact (Parser.takes_skip (hafter.trans hstate)).then fun last hlast hsame => by
          obtain ⟨events, htakes, hspells⟩ := takes_blockEntries content.start hitems
            hstop hinner hlast (hsame.trans (hkept.trans hhandles)) hfuel
          exact ⟨_, htakes, events, rfl, hspells⟩
    refine ⟨_, ?_, @spells_sequence events start stop.start _ _ _ hspells fun nodes hnodes =>
      ⟨start, nodes, rfl, hnodes⟩⟩
    unfold nodeContents
    simp only [hcontent]
    exact htakes

/-- A block mapping is parsed entry by entry. -/
theorem parses_mapping {entry : Value × Value} {entries : List (Value × Value)}
    (hentries : ∀ part ∈ entry :: entries, Parses none part.1 ∧ Parses none part.2) :
    Parses tag (.mapping (entry :: entries)) := by
  intro place indentless steps tokens rest state htokens hstate hhandles hsteps _
  rw [nodeKinds] at htokens
  refine parses_of_contents htokens hstate hhandles hsteps rfl ?_
  intro start steps content more state hcontent hmore hstate hhandles hsteps
  obtain ⟨inner, ends, rfl, hinner, hends⟩ := List.map_eq_append_iff.1 hmore
  obtain ⟨stop, nothing, rfl, hstop, hnothing⟩ := List.map_eq_cons_iff.1 hends
  obtain rfl := List.map_eq_nil_iff.1 hnothing
  simp only [List.length_append, List.length_singleton] at hsteps
  rw [List.append_assoc, List.singleton_append] at hstate
  have hfuel : 2 * inner.length < steps := by omega
  obtain ⟨all, htakes, events, rfl, hspells⟩ := (Parser.takes_emit state start
    (.mappingStart ⟨tag.map fullTag, none⟩)).then (P := fun all => ∃ events,
      all = events ++ [⟨.mappingEnd, stop.start⟩] ∧
        SpellsEntries events (Value.ShowsEntries (entry :: entries))) fun after hafter hkept => by
      exact (Parser.takes_skip (hafter.trans hstate)).then fun last hlast hsame => by
        obtain ⟨events, htakes, hspells⟩ := takes_pairs content.start hentries hinner
          hstop hlast (hsame.trans (hkept.trans hhandles)) hfuel
        exact ⟨_, htakes, events, rfl, hspells⟩
  refine ⟨_, ?_, @spells_mapping events start stop.start _ _ _ hspells fun nodes hnodes =>
    ⟨start, nodes, rfl, hnodes⟩⟩
  unfold nodeContents
  simp only [hcontent]
  exact htakes

end Collections

mutual

/-- The tokens of a value are parsed to a tree that shows it. -/
theorem parses_value : (value : Value) → {tag : Option String} → {names : String → Prop} →
    {tagTaken : Bool} → value.TagsWithin names tagTaken → (tag.isSome = true → tagTaken = true) →
    Parses tag value
  | .null, _, _, _, _, _ => parses_scalar rfl
  | .bool _, _, _, _, _, _ => parses_scalar rfl
  | .number _, _, _, _, _, _ => parses_scalar rfl
  | .string _, _, _, _, _, _ => parses_scalar rfl
  | .sequence [], _, _, _, _, _ => parses_emptySequence
  | .mapping [], _, _, _, _, _ => parses_emptyMapping
  | .sequence (item :: rest), _, _, _, htags, _ =>
    parses_sequence (parses_items (item :: rest) htags)
  | .mapping (entry :: rest), _, _, _, htags, _ =>
      parses_mapping (parses_entries (entry :: rest) htags)
  | .tagged name value, tag, _, _, htags, hfree => by
      obtain ⟨rfl, -, htags⟩ := htags
      obtain rfl : tag = none := by
        cases tag with
        | none => rfl
        | some other => exact absurd (hfree rfl) (by decide)
      have hparses : Parses (some name) value := parses_value value htags (fun _ => rfl)
      exact hparses

theorem parses_items : (items : List Value) → {names : String → Prop} →
    Value.TagsWithinItems names items → ∀ item ∈ items, Parses none item
  | [], _, _ => List.forall_mem_nil _
  | item :: rest, _, htags =>
      List.forall_mem_cons.2 ⟨parses_value item htags.1 (fun hsome => absurd hsome (by decide)),
        parses_items rest htags.2⟩

theorem parses_entries : (entries : List (Value × Value)) → {names : String → Prop} →
    {tagTaken : Bool} → Value.TagsWithinEntries names tagTaken entries →
    ∀ entry ∈ entries, Parses none entry.1 ∧ Parses none entry.2
  | [], _, _, _ => List.forall_mem_nil _
  | (key, value) :: rest, _, _, htags =>
      List.forall_mem_cons.2 ⟨⟨parses_value key htags.1 (fun hsome => absurd hsome (by decide)),
        parses_value value htags.2.1 (fun hsome => absurd hsome (by decide))⟩,
        parses_entries rest htags.2.2⟩

end

end StackBridge.Yaml
