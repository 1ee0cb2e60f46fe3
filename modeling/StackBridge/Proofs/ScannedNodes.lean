/-
The tokens of a text that was written from a value. A node is scanned in its place: what stands
before it decides on the column, and the line behind it on the blocks that end with it.
-/
import StackBridge.Proofs.ScanRuns

namespace StackBridge.Yaml

open Scan (StartsToken Droppable Brackets)

/-- A tag that is written, if there is one. -/
def tagText (tag : Option String) : List Char :=
  tag.elim [] tagChars

def tagKinds (tag : Option String) : List TokenKind :=
  tag.elim [] fun name => [Lexer.tagKind name]

/-- Whether a sequence stands at the column of the mapping around it, so that it is no block itself.
-/
def Place.sharesColumn (place : Place) (isTagged : Bool) : Bool :=
  place = .value || (place = .part && isTagged)

mutual

/-- The tokens of a node. -/
def nodeKinds (place : Place) (tag : Option String) : Value → List TokenKind
  | .tagged name value => nodeKinds place (some name) value
  | .sequence [] => tagKinds tag ++ [.flowSequenceStart, .flowSequenceEnd]
  | .mapping [] => tagKinds tag ++ [.flowMappingStart, .flowMappingEnd]
  | .sequence (item :: rest) =>
      tagKinds tag ++
        if place.sharesColumn tag.isSome then itemsKinds (item :: rest)
        else .blockSequenceStart :: (itemsKinds (item :: rest) ++ [.blockEnd])
  | .mapping (entry :: rest) =>
      tagKinds tag ++ .blockMappingStart :: (entriesKinds (entry :: rest) ++ [.blockEnd])
  | .null => tagKinds tag ++ [.scalar "null" .plain]
  | .bool b => tagKinds tag ++ [.scalar (toString b) .plain]
  | .number n => tagKinds tag ++ [.scalar (numberText n) .plain]
  | .string s => tagKinds tag ++ [.scalar s (styleOf s)]

def itemsKinds : List Value → List TokenKind
  | [] => []
  | item :: rest => .blockEntry :: (nodeKinds .item none item ++ itemsKinds rest)

def entriesKinds : List (Value × Value) → List TokenKind
  | [] => []
  | (key, value) :: rest =>
      .key :: (nodeKinds .part none key ++
        .value :: (nodeKinds (if (inlineKey? key).isSome then .value else .part) none value ++
          entriesKinds rest))

end

theorem nodeKinds_scalar {place : Place} {tag : Option String} {value : Value} {text : String}
    {style : ScalarStyle} (hform : scalarForm? value = some (text, style)) :
    nodeKinds place tag value = tagKinds tag ++ [.scalar text style] := by
  cases value <;> cases hform <;> rfl

/-- A scalar is written behind its mark and its tag. -/
theorem nodeChars_scalar {place : Place} {indent : Nat} {tag : List Char} {value : Value}
    {text : String} {style : ScalarStyle} (hform : scalarForm? value = some (text, style)) :
    nodeChars place indent tag value =
      place.inline tag (styledChars (indent + indentWidth) text.toList style) := by
  cases value <;> cases hform <;> rfl

/-- The column of a node in its place within a block, and whether a key may begin there. -/
def Place.Before (place : Place) (indent column : Nat) (allowed : Bool) : Prop :=
  match place with
  | .root => False
  | .item | .part => column = indent + 1 ∧ allowed = true
  | .value => indent < column

theorem Place.Before.ne_root {place : Place} {indent column : Nat} {allowed : Bool}
    (hbefore : place.Before indent column allowed) : place ≠ .root := by
  rintro rfl
  exact hbefore

theorem Place.Before.column {place : Place} {indent column : Nat} {allowed : Bool}
    (hbefore : place.Before indent column allowed) : indent < column := by
  cases place with
  | root => exact hbefore.elim
  | value => exact hbefore
  | _ =>
      have hcolumn := hbefore.1
      omega

/-- What stands between a mark and the word behind it. -/
def wordFront (tag : Option String) : List Char :=
  tag.elim [' '] fun name => ' ' :: tagChars name ++ [' ']

theorem tagChars_ne_nil (name : String) : tagChars name ≠ [] := by
  obtain ⟨body, hchars, -⟩ := tagChars_line name
  rw [hchars]
  exact List.cons_ne_nil _ _

theorem inline_eq {place : Place} (hplace : place ≠ .root) (tag : Option String) (cs : List Char) :
    place.inline (tagText tag) cs = closeLine (wordFront tag ++ cs) := by
  have hword : ∀ cs, place.wordChars cs = ' ' :: cs := fun cs => if_neg hplace
  cases tag with
  | none => simp [Place.inline, tagText, wordFront, hword]
  | some name => simp [Place.inline, tagText, wordFront, hword, tagChars_ne_nil]

theorem startsToken_cons {c : Char} (hblank : isBlank c = false) (hbreak : isBreak c = false)
    (hcomment : c ≠ '#') (rest : List Char) : StartsToken (c :: rest) :=
  ⟨by simp [Lexer.StartsWord, hblank, hbreak], by simpa using hcomment⟩

theorem startsToken_tag (name : String) (rest : List Char) :
    StartsToken (tagChars name ++ rest) := by
  obtain ⟨body, hchars, -⟩ := tagChars_line name
  rw [hchars]
  exact startsToken_cons (by decide) (by decide) (by decide) _

theorem startsToken_scalar {text : List Char} {style : ScalarStyle} (hwritten : Written text style)
    (indent : Nat) (rest : List Char) : StartsToken (styledChars indent text style ++ rest) := by
  obtain ⟨c, others, hchars, hblank, hbreak, hcomment⟩ := hwritten.first indent
  rw [hchars]
  exact startsToken_cons hblank hbreak hcomment _

theorem startsToken_brackets {opening closing : Char} {start stop : TokenKind}
    (hbrackets : Brackets opening closing start stop) (rest : List Char) :
    StartsToken (opening :: rest) := by
  cases hbrackets <;> exact startsToken_cons (by decide) (by decide) (by decide) _

section Words

variable {indent column : Nat} {ks : List TokenKind} {allowed : Bool} {outer : List Int}
  {rest : List Char} {tag : Option String}

/-- A tag within a block, with what follows it on its line. -/
theorem goes_of_tag (ks : List TokenKind) (allowed : Bool) (outer : List Int) {name : String}
    (hname : LegibleTag name) (hrest : Lexer.EndsWordHere rest) (hcolumn : indent < column) :
    ∃ behind pending, indent < behind ∧ Droppable pending ∧
      ∀ there, Stage.Goes ⟨rest, behind, ks ++ [Lexer.tagKind name], false, pending,
          (indent : Int) :: outer⟩ there →
        Stage.Goes ⟨' ' :: (tagChars name ++ rest), column, ks, allowed, none,
          (indent : Int) :: outer⟩ there := by
  have hdeeper : ((indent : Int) :: outer).head? ≠ some ((column + 1 : Nat) : Int) := by
    simp only [List.head?_cons, ne_eq, Option.some.injEq]
    omega
  have hnoted : Droppable (Stage.noted ⟨tagChars name ++ rest, column + 1, ks, allowed, none,
      (indent : Int) :: outer⟩) :=
    Scan.droppable_noted Scan.droppable_none hdeeper
  have hlength := List.length_pos_iff.2 (tagChars_ne_nil name)
  refine ⟨column + 1 + (tagChars name).length, _, by omega, hnoted.after (tagChars name).length,
    fun there hthere => ?_⟩
  refine Scan.goes_trans (Scan.goes_of_spaces 1 (startsToken_tag name rest)
    (Scan.droppable_none.lasts 1) ?_) ?_
  · exact Int.ofNat_le.2 (by omega)
  · refine Scan.leads_of_leaves (fun landed hlanded => hlanded.leavesTag hname hrest
      (fun _ => Scan.droppable_none) (hnoted.lasts _)) ?_ hthere
    change rest.length < (tagChars name ++ rest).length
    rw [List.length_append]
    omega

/-- A word behind its mark and its tag. -/
theorem goes_to_word (ks : List TokenKind) (allowed : Bool) (outer : List Int)
    (htag : ∀ name ∈ tag, LegibleTag name) (hcolumn : indent < column)
    (hstarts : StartsToken rest) : ∃ behind flag pending, indent < behind ∧ Droppable pending ∧
      Stage.Goes ⟨wordFront tag ++ rest, column, ks, allowed, none, (indent : Int) :: outer⟩
        ⟨rest, behind, ks ++ tagKinds tag, flag, pending, (indent : Int) :: outer⟩ := by
  cases tag with
  | none =>
      refine ⟨column + 1, allowed, none, by omega, Scan.droppable_none, ?_⟩
      rw [tagKinds, Option.elim_none, List.append_nil]
      exact Scan.goes_of_spaces 1 hstarts (Scan.droppable_none.lasts 1)
        (Int.ofNat_le.2 (by omega))
  | some name =>
      obtain ⟨behind, pending, hbehind, hpending, hgoes⟩ := goes_of_tag ks allowed outer
        (htag name rfl) (show Lexer.EndsWordHere (' ' :: rest) from Or.inl rfl) hcolumn
      refine ⟨behind + 1, false, _, by omega, hpending.after 1, ?_⟩
      have hgoes := hgoes _ (Scan.goes_of_spaces 1 hstarts (hpending.lasts 1)
        (Int.ofNat_le.2 (by omega)))
      simpa [wordFront, tagKinds] using hgoes

/-- A block behind its mark and its tag. -/
theorem goes_to_block (ks : List TokenKind) (outer : List Int) {place : Place} (isSequence : Bool)
    (htag : ∀ name ∈ tag, LegibleTag name) (hbefore : place.Before indent column allowed)
    (hstarts : StartsToken rest) :
    Stage.Goes ⟨place.opening (place.blockIndent indent isSequence tag.isSome)
      (tagText tag) ++ rest,
        column, ks, allowed, none, (indent : Int) :: outer⟩
      ⟨rest, place.blockIndent indent isSequence tag.isSome, ks ++ tagKinds tag, true, none,
        (indent : Int) :: outer⟩ := by
  generalize hindent : place.blockIndent indent isSequence tag.isSome = blockIndent
  replace hindent := hindent.symm
  have hdeeper : (indent : Int) ≤ blockIndent := by
    refine Int.ofNat_le.2 ?_
    rw [hindent]
    unfold Place.blockIndent
    cases place with
    | root => exact hbefore.elim
    | item => exact Nat.le_add_right _ _
    | part =>
        simp only
        split <;> omega
    | value =>
        simp only
        split <;> omega
  obtain ⟨hclosings, hopen⟩ := Scan.closings_of_le hdeeper outer
  have hline : ∀ {ks column allowed pending}, Droppable pending →
      Stage.Goes ⟨'\n' :: (List.replicate blockIndent ' ' ++ rest), column, ks, allowed, pending,
        (indent : Int) :: outer⟩ ⟨rest, blockIndent, ks, true, none, (indent : Int) :: outer⟩ := by
    intro ks column allowed pending hpending
    have hgoes : Stage.Goes ⟨'\n' :: (List.replicate blockIndent ' ' ++ rest), column, ks, allowed,
        pending, (indent : Int) :: outer⟩ _ := Scan.goes_of_line hstarts hpending
    rwa [hclosings, hopen, List.append_nil] at hgoes
  cases tag with
  | none =>
      rw [tagKinds, Option.elim_none, List.append_nil]
      have hspace : blockIndent = column + 1 → allowed = true →
          Stage.Goes ⟨' ' :: rest, column, ks, allowed, none, (indent : Int) :: outer⟩
            ⟨rest, blockIndent, ks, true, none, (indent : Int) :: outer⟩ := by
        rintro rfl rfl
        exact Scan.goes_of_spaces 1 hstarts (Scan.droppable_none.lasts 1) hdeeper
      cases place with
      | root => exact hbefore.elim
      | item => exact hspace (hindent.trans (by rw [hbefore.1]; rfl)) hbefore.2
      | part =>
          refine hspace (hindent.trans ?_) hbefore.2
          rw [hbefore.1]
          simp [Place.blockIndent, indentWidth]
      | value => exact hline Scan.droppable_none
  | some name =>
      have hopening : place.opening blockIndent (tagText (some name)) ++ rest =
          ' ' :: (tagChars name ++ ('\n' :: (List.replicate blockIndent ' ' ++ rest))) := by
        have hword : ∀ cs, place.wordChars cs = ' ' :: cs := fun cs => if_neg hbefore.ne_root
        simp [Place.opening, tagText, tagChars_ne_nil, hword, spaces]
      have hends : Lexer.EndsWordHere ('\n' :: (List.replicate blockIndent ' ' ++ rest)) :=
        Or.inr rfl
      obtain ⟨behind, pending, -, hpending, hgoes⟩ :=
        goes_of_tag ks allowed outer (htag name rfl) hends hbefore.column
      rw [hopening]
      exact hgoes _ (hline hpending)

end Words

/-- A key without its tag, with its tokens. -/
inductive KeyWord : List Char → List TokenKind → Prop
  | scalar {text : String} {style : ScalarStyle} (hwritten : Written text.toList style)
      (hline : ∀ c ∈ text.toList, isBreak c = false) :
      KeyWord (styledChars 0 text.toList style) [.scalar text style]
  | brackets {opening closing : Char} {start stop : TokenKind}
      (hbrackets : Brackets opening closing start stop) : KeyWord [opening, closing] [start, stop]

namespace KeyWord

variable {word : List Char} {kinds : List TokenKind}

theorem starts (hword : KeyWord word kinds) (rest : List Char) : StartsToken (word ++ rest) := by
  cases hword with
  | scalar hwritten hline => exact startsToken_scalar hwritten 0 rest
  | brackets hbrackets => exact startsToken_brackets hbrackets _

/-- A key is passed up to its colon, with what is left of the candidate that it began as. -/
theorem passes (hword : KeyWord word kinds) {scan : Scan} {rest : List Char} {column : Nat}
    {ks : List TokenKind} {allowed : Bool} {pending : Option Pending} {block : Int}
    {outer : List Int}
    (hrest : endsWord rest.head? = true)
    (hat : scan.At ⟨word ++ ':' :: rest, column, ks, allowed, pending, block :: outer⟩)
    (hcolumn : block ≤ column) (hdroppable : allowed = true → Droppable pending)
    (hlasts : Pending.Lasts word.length
      (Stage.noted ⟨word ++ ':' :: rest, column, ks, allowed, pending, block :: outer⟩)) :
    scan.Passes (word ++ ':' :: rest).length ⟨':' :: rest, column + word.length, ks ++ kinds, false,
      Pending.after word.length
        (Stage.noted ⟨word ++ ':' :: rest, column, ks, allowed, pending, block :: outer⟩),
      block :: outer⟩ := by
  cases hword with
  | brackets hbrackets => exact hat.passesBrackets hbrackets hdroppable hlasts
  | scalar hwritten hline =>
      have hleaves := hat.leavesKeyScalar hwritten hline hrest hcolumn hdroppable hlasts
      rw [String.ofList_toList] at hleaves
      refine hleaves.passes ?_
      obtain ⟨c, others, hchars, -⟩ := hwritten.first 0
      rw [hchars]
      simp only [List.length_append, List.length_cons]
      omega

end KeyWord

/-- What stands before a word that is a key. -/
def keyFront (tag : Option String) : List Char :=
  tag.elim [] fun name => tagChars name ++ [' ']

/-- A key with its tag is written if it is short. -/
theorem keyFront_append {tag : Option String} {bytes size : Nat} {word cs : List Char}
    (hcs : (if maxInlineKey < bytes + size then none
      else some (if (tagText tag).isEmpty then word else tagText tag ++ ' ' :: word)) = some cs)
    (hbytes : (keyFront tag).length ≤ 3 * bytes + 4) (hword : word.length ≤ 4 * size + 2) :
    cs = keyFront tag ++ word ∧ cs.length ≤ Scan.maxKeyLength := by
  split at hcs
  · cases hcs
  · rename_i hshort
    have hfront : cs = keyFront tag ++ word := by
      rw [← Option.some.inj hcs]
      cases tag with
      | none => rfl
      | some name => simp [tagText, keyFront, tagChars_ne_nil]
    refine ⟨hfront, ?_⟩
    rw [hfront, List.length_append]
    simp only [maxInlineKey, Scan.maxKeyLength] at hshort ⊢
    omega

theorem inlineKeyOf_scalar {value : Value} {text : String} {style : ScalarStyle}
    (hform : scalarForm? value = some (text, style)) (tag : Option String) (bytes : Nat) :
    inlineKeyOf? bytes (tagText tag) value = if text.toList.any isBreak then none else
      if maxInlineKey < bytes + text.utf8ByteSize then none
      else some (if (tagText tag).isEmpty then styledChars 0 text.toList style
        else tagText tag ++ ' ' :: styledChars 0 text.toList style) := by
  cases value <;> cases hform <;> rfl

/-- A key that stands on one line is a word behind its tag. -/
theorem inlineKeyOf_cases {tag : Option String} {bytes : Nat} {value : Value} {cs : List Char}
    (hvalue : inlineKeyOf? bytes (tagText tag) value = some cs)
    (hbytes : (keyFront tag).length ≤ 3 * bytes + 4) :
    ∃ word kinds, KeyWord word kinds ∧ cs = keyFront tag ++ word ∧
      nodeKinds .part tag value = tagKinds tag ++ kinds ∧ cs.length ≤ Scan.maxKeyLength := by
  cases hform : scalarForm? value with
  | some form =>
      obtain ⟨text, style⟩ := form
      rw [inlineKeyOf_scalar hform] at hvalue
      split at hvalue
      · cases hvalue
      · rename_i hbreak
        have hline : ∀ c ∈ text.toList, isBreak c = false := by
          simpa using hbreak
        have hchars := (written_of_scalarForm hform).line hline 0
        rw [String.ofList_toList] at hchars
        obtain ⟨hfront, hlength⟩ := keyFront_append hvalue hbytes hchars.1
        exact ⟨_, _, .scalar (written_of_scalarForm hform) hline, hfront, nodeKinds_scalar hform,
          hlength⟩
  | none =>
      have hbrackets : ∀ {opening closing : Char} {start stop : TokenKind},
          Brackets opening closing start stop →
          nodeKinds .part tag value = tagKinds tag ++ [start, stop] →
          (if maxInlineKey < bytes + 0 then none else some (if (tagText tag).isEmpty then
            [opening, closing] else tagText tag ++ ' ' :: [opening, closing])) = some cs →
          ∃ word kinds, KeyWord word kinds ∧ cs = keyFront tag ++ word ∧
            nodeKinds .part tag value = tagKinds tag ++ kinds ∧ cs.length ≤ Scan.maxKeyLength := by
        intro opening closing start stop hpair hkinds hcs
        obtain ⟨hfront, hlength⟩ := keyFront_append hcs hbytes (Nat.le_refl 2)
        exact ⟨_, _, .brackets hpair, hfront, hkinds, hlength⟩
      cases value with
      | sequence items =>
          cases items with
          | nil => exact hbrackets .sequence rfl hvalue
          | cons => cases hvalue
      | mapping entries =>
          cases entries with
          | nil => exact hbrackets .mapping rfl hvalue
          | cons => cases hvalue
      | tagged => cases hvalue
      | _ => cases hform

/-- A key that stands on one line is a tag and a word, and not too long. -/
theorem inlineKey_cases {key : Value} {cs : List Char} (hkey : inlineKey? key = some cs) :
    ∃ tag word kinds, KeyWord word kinds ∧ cs = keyFront tag ++ word ∧
      nodeKinds .part none key = tagKinds tag ++ kinds ∧ cs.length ≤ Scan.maxKeyLength ∧
      ∀ names tagTaken, key.TagsWithin names tagTaken → ∀ name ∈ tag, names name := by
  by_cases htagged : ∃ name value, key = .tagged name value
  · obtain ⟨name, value, rfl⟩ := htagged
    obtain ⟨-, -, hlength, -⟩ := tagChars_line name
    have hbytes : (keyFront (some name)).length ≤
        3 * (String.ofList (markedTag name)).utf8ByteSize + 4 := by
      simp only [keyFront, Option.elim_some, List.length_append, List.length_singleton]
      omega
    obtain ⟨word, kinds, hword, hcs, hkinds, hshort⟩ :=
      @inlineKeyOf_cases (some name) _ value cs hkey hbytes
    refine ⟨some name, word, kinds, hword, hcs, hkinds, hshort,
      fun names tagTaken htags other hother => ?_⟩
    cases hother
    exact htags.2.1
  · have huntagged : inlineKey? key = inlineKeyOf? 0 [] key := by
      cases key with
      | tagged name value => exact absurd ⟨name, value, rfl⟩ htagged
      | _ => rfl
    rw [huntagged] at hkey
    obtain ⟨word, kinds, hword, hcs, hkinds, hshort⟩ :=
      @inlineKeyOf_cases none 0 key cs hkey (Nat.zero_le _)
    refine ⟨none, word, kinds, hword, hcs, hkinds, hshort,
      fun names tagTaken htags other hother => ?_⟩
    cases hother

section Keys

variable {key : Value} {cs rest : List Char} {column : Nat} {ks kinds : List TokenKind}
  {allowed : Bool} {pending : Option Pending} {block : Int} {outer : List Int}

theorem KeyWord.leads (ks : List TokenKind) (allowed : Bool) (pending : Option Pending)
    (outer : List Int) {word : List Char} (hword : KeyWord word kinds)
    (hrest : endsWord rest.head? = true) (hcolumn : block ≤ column)
    (hdroppable : allowed = true → Droppable pending)
    (hlasts : Pending.Lasts word.length
      (Stage.noted ⟨word ++ ':' :: rest, column, ks, allowed, pending, block :: outer⟩)) :
    Stage.Leads ⟨word ++ ':' :: rest, column, ks, allowed, pending, block :: outer⟩
      ⟨':' :: rest, column + word.length, ks ++ kinds, false, Pending.after word.length
        (Stage.noted ⟨word ++ ':' :: rest, column, ks, allowed, pending, block :: outer⟩),
        block :: outer⟩ := by
  refine Scan.leads_of_passes fun landed hlanded =>
    ⟨_, hword.passes hrest hlanded hcolumn hdroppable hlasts, ?_⟩
  have hcolon : StartsToken (':' :: rest) :=
    startsToken_cons (by decide) (by decide) (by decide) rest
  have hbehind : block ≤ (column + word.length : Nat) := by
    rw [Int.natCast_add]
    omega
  have hgoes : Stage.Goes
    ⟨':' :: rest, column + word.length, ks ++ kinds, false, _, block :: outer⟩ _ :=
    Scan.goes_of_word hcolon (Pending.Lasts.after word.length 0 hlasts) hbehind
  rwa [Pending.after_after] at hgoes

/-- A key on one line leads to its colon as the candidate there. If it has a tag, the tag is the
candidate and still is at the colon. -/
theorem leads_of_key (ks : List TokenKind) (outer : List Int) {tagTaken : Bool}
    (hkey : inlineKey? key = some cs)
    (htags : key.TagsWithin LegibleTag tagTaken) (hrest : endsWord rest.head? = true)
    (hcolumn : block ≤ column) : ∃ found : Pending, found.position = ks.length ∧
      found.column = column ∧
      Stage.Leads ⟨cs ++ ':' :: rest, column, ks, true, none, block :: outer⟩
        ⟨':' :: rest, column + cs.length, ks ++ nodeKinds .part none key, false, some found,
          block :: outer⟩ := by
  obtain ⟨tag, word, kinds, hword, rfl, hkinds, hshort, htag⟩ := inlineKey_cases hkey
  let found (age : Nat) : Pending :=
    ⟨(block :: outer).head? = some (column : Int), ks.length, column, age⟩
  have hlasts : ∀ {first more}, first + more ≤ Scan.maxKeyLength →
      Pending.Lasts more (some (found first)) := by
    rintro first more hless _ ⟨rfl⟩ -
    exact hless
  have hafter : ∀ {first more}, first + more ≤ Scan.maxKeyLength →
      Pending.after more (some (found first)) = some (found (first + more)) :=
    fun hless => if_pos hless
  refine ⟨found (keyFront tag ++ word).length, rfl, rfl, ?_⟩
  cases tag with
  | none =>
      have hless : 0 + word.length ≤ Scan.maxKeyLength := by
        rw [Nat.zero_add]
        exact hshort
      have hleads := KeyWord.leads ks true none outer hword hrest hcolumn
        (fun _ => Scan.droppable_none) (hlasts hless)
      rw [show Stage.noted _ = some (found 0) from rfl, hafter hless, Nat.zero_add] at hleads
      rw [hkinds]
      exact hleads
  | some name =>
      have hsize : (keyFront (some name) ++ word).length =
        (tagChars name).length + 1 + word.length := by
        simp only [keyFront, Option.elim_some, List.length_append, List.length_singleton]
      have hsome := List.length_pos_iff.2 (tagChars_ne_nil name)
      rw [hsize] at hshort ⊢
      have hspace : (tagChars name).length + 1 ≤ Scan.maxKeyLength := by omega
      have htagLess : 0 + (tagChars name).length ≤ Scan.maxKeyLength := by omega
      have hbehind : block ≤ (column + (tagChars name).length + 1 : Nat) := by
        simp only [Int.natCast_add]
        omega
      have hleads := KeyWord.leads (ks ++ [Lexer.tagKind name]) false
        (some (found ((tagChars name).length + 1))) outer hword hrest hbehind
        (fun hnever => nomatch hnever) (hlasts hshort)
      rw [show Stage.noted _ = some (found ((tagChars name).length + 1)) from rfl, hafter hshort]
        at hleads
      have hgoes : Stage.Goes ⟨' ' :: (word ++ ':' :: rest), column + (tagChars name).length,
          ks ++ [Lexer.tagKind name], false, some (found (tagChars name).length),
            block :: outer⟩ _ :=
        Scan.goes_of_spaces 1 (hword.starts (':' :: rest)) (hlasts hspace) hbehind
      rw [hafter hspace] at hgoes
      have htagged : ∀ landed : Scan, landed.At
        ⟨tagChars name ++ ' ' :: (word ++ ':' :: rest), column,
          ks, true, none, block :: outer⟩ → landed.Leaves ⟨' ' :: (word ++ ':' :: rest),
            column + (tagChars name).length, ks ++ [Lexer.tagKind name], false,
            some (found (tagChars name).length), block :: outer⟩ := by
        intro landed hlanded
        have hleaves := hlanded.leavesTag (htag _ _ htags name rfl) (Or.inl rfl)
          (fun _ => Scan.droppable_none) (hlasts htagLess)
        rwa [show Stage.noted _ = some (found 0) from rfl, hafter htagLess, Nat.zero_add] at hleaves
      have hall := Scan.leads_trans
        (Scan.leads_of_leaves htagged (by simpa using hsome) hgoes) hleads
      rw [hkinds]
      simpa [keyFront, tagKinds, Nat.add_assoc] using hall

end Keys

/-- Whether scans take the tokens of a node wherever it stands. -/
def Scans (tag : Option String) (value : Value) : Prop :=
  ∀ (place : Place) (ks : List TokenKind) (outer : List Int) {indent column count : Nat}
    {allowed : Bool} {rest : List Char},
    place.Before indent column allowed → count ≤ indent → StartsToken rest →
    Stage.Goes ⟨nodeChars place indent (tagText tag) value ++ (List.replicate count ' ' ++ rest),
        column, ks, allowed, none, (indent : Int) :: outer⟩
      ⟨rest, count, ks ++ nodeKinds place tag value ++
        closings count ((indent : Int) :: outer), true,
        none, openAt count ((indent : Int) :: outer)⟩

def ScansItems (items : List Value) : Prop :=
  ∀ (ks : List TokenKind) (outer : List Int) {blockIndent count : Nat} {block : Int}
    {rest : List Char}, block ≤ blockIndent → count ≤ blockIndent → StartsToken rest →
    Stage.Leads ⟨itemsChars blockIndent items ++
      (List.replicate count ' ' ++ rest), blockIndent, ks,
        true, none, block :: outer⟩
      ⟨rest, count, ks ++ openings .blockSequenceStart blockIndent (block :: outer) ++
          itemsKinds items ++ closings count (opened blockIndent (block :: outer)),
        true, none, openAt count (opened blockIndent (block :: outer))⟩

def ScansEntries (entries : List (Value × Value)) : Prop :=
  ∀ (ks : List TokenKind) (outer : List Int) {blockIndent count : Nat} {block : Int}
    {rest : List Char}, block ≤ blockIndent → count ≤ blockIndent → StartsToken rest →
    Stage.Leads ⟨entriesChars blockIndent entries ++
      (List.replicate count ' ' ++ rest), blockIndent,
        ks, true, none, block :: outer⟩
      ⟨rest, count, ks ++ openings .blockMappingStart blockIndent (block :: outer) ++
          entriesKinds entries ++ closings count (opened blockIndent (block :: outer)),
        true, none, openAt count (opened blockIndent (block :: outer))⟩

section Nodes

variable {tag : Option String} {value : Value}

/-- A scalar is scanned in any style. -/
theorem scans_scalar {text : String} {style : ScalarStyle}
    (hform : scalarForm? value = some (text, style)) (htag : ∀ name ∈ tag, LegibleTag name) :
    Scans tag value := by
  intro place ks outer indent column count allowed rest hbefore hcount hstarts
  have hwritten := written_of_scalarForm hform
  obtain ⟨behind, flag, pending, hbehind, hpending, hgoes⟩ := goes_to_word ks allowed outer htag
    hbefore.column (startsToken_scalar hwritten (indent + indentWidth)
      (scalarEnd text.toList style ++ (List.replicate count ' ' ++ rest)))
  have hleads := Scan.leads_of_scalar
    (ks ++ tagKinds tag) flag outer hwritten hbehind hcount hstarts
    hpending
  rw [nodeChars_scalar hform, inline_eq hbefore.ne_root, hwritten.closeLine, nodeKinds_scalar hform]
  simpa only [List.append_assoc, String.ofList_toList] using Scan.goes_trans hgoes hleads

theorem scans_brackets {opening closing : Char} {start stop : TokenKind}
    (hbrackets : Brackets opening closing start stop)
    (hchars : ∀ place indent, nodeChars place indent (tagText tag) value =
      place.inline (tagText tag) [opening, closing])
    (hkinds : ∀ place, nodeKinds place tag value = tagKinds tag ++ [start, stop])
    (htag : ∀ name ∈ tag, LegibleTag name) : Scans tag value := by
  intro place ks outer indent column count allowed rest hbefore hcount hstarts
  obtain ⟨behind, flag, pending, hbehind, hpending, hgoes⟩ := goes_to_word ks allowed outer htag
    hbefore.column
    (startsToken_brackets hbrackets (closing :: '\n' :: (List.replicate count ' ' ++ rest)))
  have hleads := Scan.leads_of_brackets
    (ks ++ tagKinds tag) flag outer count hbrackets hbehind hstarts
    hpending
  have hclose : closeLine (wordFront tag ++ [opening, closing]) =
      wordFront tag ++ [opening, closing, '\n'] := by
    have hlast : (wordFront tag ++ [opening, closing]).getLast?.any isBreak = false := by
      rw [List.getLast?_append]
      exact hbrackets.line.2
    rw [closeLine_of_not_break hlast, List.append_assoc]
    rfl
  rw [hchars, inline_eq hbefore.ne_root, hclose, hkinds]
  simpa only [List.append_assoc, List.cons_append,
    List.nil_append] using Scan.goes_trans hgoes hleads

theorem not_isEmpty_tagText (tag : Option String) : (!(tagText tag).isEmpty) = tag.isSome := by
  cases tag with
  | none => rfl
  | some name => simp [tagText, tagChars_ne_nil]

theorem blockIndent_sequence {place : Place} (hplace : place ≠ .root) (indent : Nat)
    (isTagged : Bool) :
    place.blockIndent indent true isTagged =
      if place.sharesColumn isTagged then indent else indent + indentWidth := by
  cases place <;> cases isTagged <;> first | rfl | exact absurd rfl hplace

theorem blockIndent_mapping {place : Place} (hplace : place ≠ .root) (indent : Nat)
    (isTagged : Bool) :
    place.blockIndent indent false isTagged = indent + indentWidth := by
  cases place <;> first | rfl | exact absurd rfl hplace

/-- A block that is deeper than the one around it has a start, and an end with the next line that is
not as deep. -/
theorem opened_deeper {indent blockIndent count : Nat} (hdeeper : indent < blockIndent)
    (hcount : count ≤ indent) (kind : TokenKind) (outer : List Int) :
    openings kind blockIndent ((indent : Int) :: outer) = [kind] ∧
      closings count (opened blockIndent ((indent : Int) :: outer)) =
        .blockEnd :: closings count ((indent : Int) :: outer) ∧
      openAt count (opened blockIndent ((indent : Int) :: outer)) =
        openAt count ((indent : Int) :: outer) := by
  have hnot : ¬ (blockIndent : Int) ≤ indent := by omega
  have hends : ¬ (blockIndent : Int) ≤ count := by omega
  rw [openings, opened, if_neg hnot, if_neg hnot]
  exact ⟨rfl, if_neg hends, if_neg hends⟩

theorem opened_same (kind : TokenKind) (indent : Nat) (outer : List Int) :
    openings kind indent ((indent : Int) :: outer) = [] ∧
      opened indent ((indent : Int) :: outer) = (indent : Int) :: outer := by
  rw [openings, opened, if_pos (Int.le_refl _), if_pos (Int.le_refl _)]
  exact ⟨rfl, rfl⟩

theorem startsToken_items (item : Value) (items : List Value) (indent : Nat) (rest : List Char) :
    StartsToken (itemsChars indent (item :: items) ++ rest) :=
  startsToken_cons (by decide) (by decide) (by decide) _

/-- A sequence is scanned if its items are. -/
theorem scans_sequence {item : Value} {items : List Value} (htag : ∀ name ∈ tag, LegibleTag name)
    (hitems : ScansItems (item :: items)) : Scans tag (.sequence (item :: items)) := by
  intro place ks outer indent column count allowed rest hbefore hcount hstarts
  have hblock := blockIndent_sequence hbefore.ne_root indent tag.isSome
  have hgoes := goes_to_block ks outer true htag hbefore
    (startsToken_items item items (place.blockIndent indent true tag.isSome)
      (List.replicate count ' ' ++ rest))
  rw [nodeChars, not_isEmpty_tagText, nodeKinds]
  split at hblock
  · rename_i hshares
    rw [hblock] at hgoes ⊢
    obtain ⟨hopenings, hopened⟩ := opened_same .blockSequenceStart indent outer
    have hleads := hitems (ks ++ tagKinds tag) outer (Int.le_refl (indent : Int)) hcount hstarts
    rw [hopenings, hopened] at hleads
    rw [if_pos hshares]
    simpa only [List.append_assoc, List.nil_append] using Scan.goes_trans hgoes hleads
  · rename_i hdeeper
    have hless : indent < place.blockIndent indent true tag.isSome := by
      rw [hblock]
      exact Nat.lt_add_of_pos_right (by decide)
    obtain ⟨hopenings, hclosings, hopen⟩ := opened_deeper hless hcount .blockSequenceStart outer
    have hleads := hitems (ks ++ tagKinds tag) outer
      (Int.ofNat_le.2 (Nat.le_of_lt hless)) (Nat.le_trans hcount (Nat.le_of_lt hless)) hstarts
    rw [hopenings, hclosings, hopen] at hleads
    rw [if_neg hdeeper]
    simpa only [List.append_assoc, List.cons_append, List.nil_append]
      using Scan.goes_trans hgoes hleads

theorem startsToken_entries (entry : Value × Value) (entries : List (Value × Value)) (indent : Nat)
    (rest : List Char) : StartsToken (entriesChars indent (entry :: entries) ++ rest) := by
  obtain ⟨key, value⟩ := entry
  rw [entriesChars]
  cases hkey : inlineKey? key with
  | none => exact startsToken_cons (by decide) (by decide) (by decide) _
  | some cs =>
      obtain ⟨tag, word, kinds, hword, rfl, -⟩ := inlineKey_cases hkey
      cases tag with
      | none => simpa [keyFront] using hword.starts _
      | some name => simpa [keyFront] using startsToken_tag name _

/-- A mapping is scanned if its entries are. -/
theorem scans_mapping {entry : Value × Value} {entries : List (Value × Value)}
    (htag : ∀ name ∈ tag, LegibleTag name) (hentries : ScansEntries (entry :: entries)) :
    Scans tag (.mapping (entry :: entries)) := by
  intro place ks outer indent column count allowed rest hbefore hcount hstarts
  have hblock := blockIndent_mapping hbefore.ne_root indent tag.isSome
  have hgoes := goes_to_block ks outer false htag hbefore
    (startsToken_entries entry entries (place.blockIndent indent false tag.isSome)
      (List.replicate count ' ' ++ rest))
  have hless : indent < place.blockIndent indent false tag.isSome := by
    rw [hblock]
    exact Nat.lt_add_of_pos_right (by decide)
  obtain ⟨hopenings, hclosings, hopen⟩ := opened_deeper hless hcount .blockMappingStart outer
  have hleads := hentries (ks ++ tagKinds tag) outer
    (Int.ofNat_le.2 (Nat.le_of_lt hless)) (Nat.le_trans hcount (Nat.le_of_lt hless)) hstarts
  rw [hopenings, hclosings, hopen] at hleads
  rw [nodeChars, not_isEmpty_tagText, nodeKinds]
  simpa only [List.append_assoc, List.cons_append, List.nil_append]
    using Scan.goes_trans hgoes hleads

end Nodes

theorem closeLine_cons (c : Char) (cs : List Char) : ∃ rest, closeLine (c :: cs) = c :: rest := by
  unfold closeLine
  split
  · exact ⟨cs, rfl⟩
  · exact ⟨cs ++ ['\n'], rfl⟩

/-- Behind its mark a node begins with a space or on a line of its own. -/
theorem nodeChars_head {place : Place} (hplace : place ≠ .root) (indent : Nat) (tag : List Char)
    (value : Value) : ∃ c rest, nodeChars place indent tag value = c :: rest ∧
      (c = ' ' ∨ place = .value ∧ c = '\n') := by
  have hword : ∀ cs, place.wordChars cs = ' ' :: cs := fun cs => if_neg hplace
  have hinline : ∀ cs, ∃ c rest, place.inline tag cs = c :: rest ∧
      (c = ' ' ∨ place = .value ∧ c = '\n') := by
    intro cs
    unfold Place.inline
    split
    · rw [hword]
      obtain ⟨rest, hrest⟩ := closeLine_cons ' ' cs
      exact ⟨' ', rest, hrest, Or.inl rfl⟩
    · rw [hword]
      obtain ⟨rest, hrest⟩ := closeLine_cons ' ' (tag ++ ' ' :: cs)
      exact ⟨' ', rest, hrest, Or.inl rfl⟩
  have hopening : ∀ blockIndent cs, ∃ c rest, place.opening blockIndent tag ++ cs = c :: rest ∧
      (c = ' ' ∨ place = .value ∧ c = '\n') := by
    intro blockIndent cs
    unfold Place.opening
    split
    · cases place with
      | root => exact absurd rfl hplace
      | value => exact ⟨'\n', _, rfl, Or.inr ⟨rfl, rfl⟩⟩
      | _ => exact ⟨' ', _, rfl, Or.inl rfl⟩
    · rw [hword]
      exact ⟨' ', _, rfl, Or.inl rfl⟩
  cases value with
  | tagged name value => exact nodeChars_head hplace indent (tagChars name) value
  | sequence items =>
      cases items with
      | nil => exact hinline _
      | cons => exact hopening _ _
  | mapping entries =>
      cases entries with
      | nil => exact hinline _
      | cons => exact hopening _ _
  | _ => exact hinline _

section Blocks

variable {blockIndent count : Nat} {ks : List TokenKind} {block : Int} {outer : List Int}
  {rest : List Char}

theorem exists_opened (hblock : block ≤ blockIndent) (outer : List Int) :
    ∃ others, opened blockIndent (block :: outer) = (blockIndent : Int) :: others := by
  by_cases hless : (blockIndent : Int) ≤ block
  · refine ⟨outer, ?_⟩
    rw [opened, if_pos hless, Int.le_antisymm hblock hless]
  · exact ⟨block :: outer, if_neg hless⟩

theorem nodeChars_space {place : Place} (hplace : place = .item ∨ place = .part) (indent : Nat)
    (value : Value) : ∃ rest, nodeChars place indent [] value = ' ' :: rest := by
  obtain ⟨c, rest, hchars, rfl | ⟨hvalue, -⟩⟩ :=
    nodeChars_head (show place ≠ .root by rcases hplace with rfl | rfl <;> decide) indent [] value
  · exact ⟨rest, hchars⟩
  · rcases hplace with rfl | rfl <;> cases hvalue

/-- An item with its dash, and what follows it. -/
theorem leads_of_item (ks : List TokenKind) {item : Value} (hitem : Scans none item)
    {others : List Int}
    (hopened : opened blockIndent (block :: outer) = (blockIndent : Int) :: others)
    (hcount : count ≤ blockIndent) (hstarts : StartsToken rest) :
    Stage.Leads ⟨'-' :: (nodeChars .item blockIndent [] item ++ (List.replicate count ' ' ++ rest)),
        blockIndent, ks, true, none, block :: outer⟩
      ⟨rest, count, ks ++ openings .blockSequenceStart blockIndent (block :: outer) ++
          .blockEntry :: nodeKinds .item none item ++
            closings count ((blockIndent : Int) :: others),
        true, none, openAt count ((blockIndent : Int) :: others)⟩ := by
  obtain ⟨behind, hspace⟩ := nodeChars_space (Or.inl rfl) blockIndent item
  have hgoes := hitem .item
    (ks ++ openings .blockSequenceStart blockIndent (block :: outer) ++ [.blockEntry]) others
    ⟨rfl, rfl⟩ hcount hstarts
  rw [tagText, Option.elim_none, hspace] at hgoes
  rw [hspace, List.cons_append]
  refine Scan.leads_of_leaves (fun landed hlanded => hlanded.leaves_dash) (by simp) ?_
  rw [hopened]
  simpa only [List.append_assoc, List.cons_append, List.nil_append] using hgoes

theorem scans_items {items : List Value} (hsome : items ≠ [])
    (hitems : ∀ item ∈ items, Scans none item) : ScansItems items := by
  induction items with
  | nil => exact absurd rfl hsome
  | cons item rest ih =>
      intro ks outer blockIndent count block behind hblock hcount hstarts
      obtain ⟨others, hopened⟩ := exists_opened hblock outer
      obtain ⟨hitem, hrest⟩ := List.forall_mem_cons.1 hitems
      rw [hopened, itemsChars, itemsKinds]
      cases rest with
      | nil =>
          have hleads := leads_of_item ks hitem hopened hcount hstarts
          simpa only [List.isEmpty_nil, if_true, itemsKinds, List.append_nil, List.cons_append,
            List.append_assoc] using hleads
      | cons next more =>
          have hnext := ih (List.cons_ne_nil _ _) hrest
            (ks ++ openings .blockSequenceStart blockIndent (block :: outer) ++
              .blockEntry :: nodeKinds .item none item) others
            (Int.le_refl (blockIndent : Int)) hcount hstarts
          obtain ⟨hopenings, hsame⟩ := opened_same .blockSequenceStart blockIndent others
          obtain ⟨hclosings, hopen⟩ := Scan.closings_of_le (Int.le_refl (blockIndent : Int)) others
          have hleads := leads_of_item ks hitem hopened (Nat.le_refl blockIndent)
            (startsToken_items next more blockIndent (List.replicate count ' ' ++ behind))
          rw [hopenings, hsame, List.append_nil] at hnext
          rw [hclosings, hopen, List.append_nil] at hleads
          simpa only [List.isEmpty_cons, Bool.false_eq_true, if_false, spaces, List.cons_append,
            List.append_assoc] using Scan.leads_trans hleads hnext

/-- An entry of a mapping, from behind its indentation on. -/
def entryChars (indent : Nat) (key value : Value) : List Char :=
  match inlineKey? key with
  | some cs => cs ++ ':' :: nodeChars .value indent [] value
  | none =>
      '?' :: nodeChars .part indent [] key ++ spaces indent ++
        ':' :: nodeChars .part indent [] value

def entryKinds (key value : Value) : List TokenKind :=
  .key :: (nodeKinds .part none key ++
    .value :: nodeKinds (if (inlineKey? key).isSome then .value else .part) none value)

theorem leads_of_inline_entry (ks : List TokenKind) {key value : Value} {cs : List Char}
    {tagTaken : Bool}
    {others : List Int} (hinline : inlineKey? key = some cs)
    (htags : key.TagsWithin LegibleTag tagTaken) (hvalue : Scans none value)
    (hblock : block ≤ blockIndent)
    (hopened : opened blockIndent (block :: outer) = (blockIndent : Int) :: others)
    (hcount : count ≤ blockIndent) (hstarts : StartsToken rest) :
    Stage.Leads ⟨cs ++ ':' :: (nodeChars .value blockIndent [] value ++
          (List.replicate count ' ' ++ rest)), blockIndent, ks, true, none, block :: outer⟩
      ⟨rest, count, ks ++ openings .blockMappingStart blockIndent (block :: outer) ++
          .key :: (nodeKinds .part none key ++ .value :: nodeKinds .value none value) ++
          closings count ((blockIndent : Int) :: others),
        true, none, openAt count ((blockIndent : Int) :: others)⟩ := by
  obtain ⟨c, behind, hhead, hword⟩ :=
    nodeChars_head (show Place.value ≠ .root by decide) blockIndent [] value
  have hrest : endsWord (nodeChars .value blockIndent [] value ++
      (List.replicate count ' ' ++ rest)).head? = true := by
    rw [hhead]
    rcases hword with rfl | ⟨-, rfl⟩ <;> rfl
  obtain ⟨found, hposition, hcolumn, hkey⟩ := leads_of_key ks outer hinline htags hrest hblock
  refine Scan.leads_trans hkey (Scan.leads_of_leaves
    (fun landed hlanded => hlanded.leaves_key hrest hposition) (by simp) ?_)
  have hbefore : Place.value.Before blockIndent (blockIndent + cs.length + 1) false :=
    Nat.lt_succ_of_le (Nat.le_add_right _ _)
  have hgoes := hvalue .value (ks ++ openings .blockMappingStart blockIndent (block :: outer) ++
    .key :: nodeKinds .part none key ++ [.value]) others hbefore hcount hstarts
  rw [hcolumn, hopened]
  simpa only [tagText, Option.elim_none, List.append_assoc, List.cons_append, List.nil_append]
    using hgoes

/-- A part of an entry with its mark, and what follows it. -/
theorem leads_of_part (ks : List TokenKind) {part : Value} {mark : Char} {kind : TokenKind}
    {others : List Int}
    (hmark : mark = '?' ∧ kind = .key ∨ mark = ':' ∧ kind = .value) (hpart : Scans none part)
    (hopened : opened blockIndent (block :: outer) = (blockIndent : Int) :: others)
    (hcount : count ≤ blockIndent) (hstarts : StartsToken rest) :
    Stage.Leads ⟨mark :: (nodeChars .part blockIndent [] part ++
      (List.replicate count ' ' ++ rest)),
        blockIndent, ks, true, none, block :: outer⟩
      ⟨rest, count, ks ++ openings .blockMappingStart blockIndent (block :: outer) ++
          kind :: nodeKinds .part none part ++ closings count ((blockIndent : Int) :: others),
        true, none, openAt count ((blockIndent : Int) :: others)⟩ := by
  obtain ⟨behind, hspace⟩ := nodeChars_space (Or.inr rfl) blockIndent part
  have hgoes := hpart .part
    (ks ++ openings .blockMappingStart blockIndent (block :: outer) ++ [kind]) others
    ⟨rfl, rfl⟩ hcount hstarts
  rw [tagText, Option.elim_none, hspace] at hgoes
  have hleaves : ∀ landed : Scan, landed.At
    ⟨mark :: ' ' :: (behind ++ (List.replicate count ' ' ++ rest)),
      blockIndent, ks, true, none, block :: outer⟩ → landed.Leaves
        ⟨' ' :: (behind ++ (List.replicate count ' ' ++ rest)), blockIndent + 1,
          ks ++ openings .blockMappingStart blockIndent (block :: outer) ++ [kind], true, none,
          opened blockIndent (block :: outer)⟩ := by
    intro landed hlanded
    rcases hmark with ⟨rfl, rfl⟩ | ⟨rfl, rfl⟩
    · exact hlanded.leaves_question
    · exact hlanded.leaves_colon
  rw [hspace, List.cons_append]
  refine Scan.leads_of_leaves hleaves (by simp) ?_
  rw [hopened]
  simpa only [List.append_assoc, List.cons_append, List.nil_append] using hgoes

/-- An entry is scanned with its key on one line or behind a mark of its own. -/
theorem leads_of_entry (ks : List TokenKind) {key value : Value} {tagTaken : Bool}
    {others : List Int}
    (hkey : Scans none key) (htags : key.TagsWithin LegibleTag tagTaken) (hvalue : Scans none value)
    (hblock : block ≤ blockIndent)
    (hopened : opened blockIndent (block :: outer) = (blockIndent : Int) :: others)
    (hcount : count ≤ blockIndent) (hstarts : StartsToken rest) :
    Stage.Leads ⟨entryChars blockIndent key value ++
      (List.replicate count ' ' ++ rest), blockIndent,
        ks, true, none, block :: outer⟩
      ⟨rest, count, ks ++ openings .blockMappingStart blockIndent (block :: outer) ++
          entryKinds key value ++ closings count ((blockIndent : Int) :: others),
        true, none, openAt count ((blockIndent : Int) :: others)⟩ := by
  unfold entryChars entryKinds
  cases hinline : inlineKey? key with
  | some cs =>
      have hleads := leads_of_inline_entry ks hinline htags hvalue hblock hopened hcount hstarts
      simpa only [List.append_assoc, List.cons_append, Option.isSome_some, if_true] using hleads
  | none =>
      obtain ⟨hclosings, hopen⟩ := Scan.closings_of_le (Int.le_refl (blockIndent : Int)) others
      obtain ⟨hopenings, hsame⟩ := opened_same .blockMappingStart blockIndent others
      have hcolon : StartsToken
          (':' :: (nodeChars .part blockIndent [] value ++ (List.replicate count ' ' ++ rest))) :=
        startsToken_cons (by decide) (by decide) (by decide) _
      have hfirst := leads_of_part ks (Or.inl ⟨rfl, rfl⟩) hkey hopened
        (Nat.le_refl blockIndent) hcolon
      rw [hclosings, hopen, List.append_nil] at hfirst
      have hlast := leads_of_part
        (ks ++ openings .blockMappingStart blockIndent (block :: outer) ++
          .key :: nodeKinds .part none key) (Or.inr ⟨rfl, rfl⟩) hvalue hsame hcount hstarts
      rw [hopenings, List.append_nil] at hlast
      simpa only [List.append_assoc, List.cons_append, spaces, Option.isSome_none,
        Bool.false_eq_true, if_false] using Scan.leads_trans hfirst hlast

/-- What is needed of an entry for scans to take its tokens. -/
def ScansEntry (entry : Value × Value) : Prop :=
  Scans none entry.1 ∧ Scans none entry.2 ∧ ∃ tagTaken, entry.1.TagsWithin LegibleTag tagTaken

theorem entriesChars_cons (indent : Nat) (key value : Value) (rest : List (Value × Value)) :
    entriesChars indent ((key, value) :: rest) = entryChars indent key value ++
      if rest.isEmpty then [] else spaces indent ++ entriesChars indent rest := rfl

theorem entriesKinds_cons (key value : Value) (rest : List (Value × Value)) :
    entriesKinds ((key, value) :: rest) = entryKinds key value ++ entriesKinds rest := by
  simp [entriesKinds, entryKinds]

theorem scans_entries {entries : List (Value × Value)} (hsome : entries ≠ [])
    (hentries : ∀ entry ∈ entries, ScansEntry entry) : ScansEntries entries := by
  induction entries with
  | nil => exact absurd rfl hsome
  | cons entry rest ih =>
      obtain ⟨key, value⟩ := entry
      intro ks outer blockIndent count block behind hblock hcount hstarts
      obtain ⟨others, hopened⟩ := exists_opened hblock outer
      obtain ⟨⟨hkey, hvalue, tagTaken, htags⟩, hrest⟩ := List.forall_mem_cons.1 hentries
      rw [hopened, entriesChars_cons, entriesKinds_cons]
      cases rest with
      | nil =>
          have hleads := leads_of_entry ks hkey htags hvalue hblock hopened hcount hstarts
          simpa only [List.isEmpty_nil, if_true, entriesKinds, List.append_nil] using hleads
      | cons next more =>
          have hnext := ih (List.cons_ne_nil _ _) hrest
            (ks ++ openings .blockMappingStart blockIndent (block :: outer) ++
              entryKinds key value) others
            (Int.le_refl (blockIndent : Int)) hcount hstarts
          obtain ⟨hopenings, hsame⟩ := opened_same .blockMappingStart blockIndent others
          obtain ⟨hclosings, hopen⟩ := Scan.closings_of_le (Int.le_refl (blockIndent : Int)) others
          have hleads := leads_of_entry ks hkey htags hvalue hblock hopened
            (Nat.le_refl blockIndent)
            (startsToken_entries next more blockIndent (List.replicate count ' ' ++ behind))
          rw [hopenings, hsame, List.append_nil] at hnext
          rw [hclosings, hopen, List.append_nil] at hleads
          simpa only [List.isEmpty_cons, Bool.false_eq_true, if_false, spaces, List.append_assoc]
            using Scan.leads_trans hleads hnext

end Blocks

theorem legible_none : ∀ name ∈ (none : Option String), LegibleTag name := by
  rintro name ⟨⟩

mutual

/-- The tokens of a value whose tags are legible are taken wherever it stands. -/
theorem scans_value : (value : Value) → {tag : Option String} → {tagTaken : Bool} →
    value.TagsWithin LegibleTag tagTaken → (∀ name ∈ tag, LegibleTag name) →
    (tag.isSome = true → tagTaken = true) → Scans tag value
  | .null, _, _, _, htag, _ => scans_scalar rfl htag
  | .bool _, _, _, _, htag, _ => scans_scalar rfl htag
  | .number _, _, _, _, htag, _ => scans_scalar rfl htag
  | .string _, _, _, _, htag, _ => scans_scalar rfl htag
  | .sequence [], _, _, _, htag, _ =>
      scans_brackets .sequence (fun _ _ => rfl) (fun _ => rfl) htag
  | .mapping [], _, _, _, htag, _ =>
      scans_brackets .mapping (fun _ _ => rfl) (fun _ => rfl) htag
  | .sequence (item :: rest), _, _, htags, htag, _ =>
      scans_sequence htag
        (scans_items (List.cons_ne_nil _ _) (scans_all_items (item :: rest) htags))
  | .mapping (entry :: rest), _, _, htags, htag, _ =>
      scans_mapping htag
        (scans_entries (List.cons_ne_nil _ _) (scans_all_entries (entry :: rest) htags))
  | .tagged name value, tag, _, htags, _, hfree => by
      obtain ⟨rfl, hname, htags⟩ := htags
      obtain rfl : tag = none := by
        cases tag with
        | none => rfl
        | some other => exact absurd (hfree rfl) (by decide)
      have hscans : Scans (some name) value :=
        scans_value value htags (fun other hother => by cases hother; exact hname) (fun _ => rfl)
      exact hscans

theorem scans_all_items : (items : List Value) → Value.TagsWithinItems LegibleTag items →
    ∀ item ∈ items, Scans none item
  | [], _ => List.forall_mem_nil _
  | item :: rest, htags =>
      List.forall_mem_cons.2 ⟨scans_value item htags.1 legible_none
        (fun hsome => absurd hsome (by decide)), scans_all_items rest htags.2⟩

theorem scans_all_entries : (entries : List (Value × Value)) → {tagTaken : Bool} →
    Value.TagsWithinEntries LegibleTag tagTaken entries → ∀ entry ∈ entries, ScansEntry entry
  | [], _, _ => List.forall_mem_nil _
  | (key, value) :: rest, tagTaken, htags =>
      List.forall_mem_cons.2 ⟨⟨scans_value key htags.1 legible_none
          (fun hsome => absurd hsome (by decide)),
        scans_value value htags.2.1 legible_none (fun hsome => absurd hsome (by decide)),
        tagTaken, htags.1⟩, scans_all_entries rest htags.2.2⟩

end

end StackBridge.Yaml
