/-
What an answer stands for. It is read as a document, so it depends on the root of that document
whether the setting holds a scalar afterwards: a scalar without a tag of its own gives its value and
what cannot be read gives its text, but a sequence, a mapping or a tag makes the setting one too.
-/
import StackBridge.Proofs.DialogueLines
import StackBridge.Proofs.DocumentReading

namespace StackBridge.Yaml

/-- A value without parts and without a tag. -/
def Value.IsScalar : Value → Prop
  | .null | .bool _ | .number _ | .string _ => True
  | .sequence _ | .mapping _ | .tagged .. => False

/-- A scalar without a tag of the document's own, or nothing at all. -/
def Node.IsScalar : Node → Prop
  | .void _ => True
  | .scalar mark properties text style =>
      (Node.scalar mark properties text style).localTag? = none
  | .sequence .. | .mapping .. | .aliased .. | .cut => False

theorem Node.localTag?_eq_none_of_isScalar {node : Node} (hscalar : node.IsScalar) :
    node.localTag? = none := by
  cases node with
  | void mark => rfl
  | scalar mark properties text style => exact hscalar
  | _ => exact hscalar.elim

/-- The value of a meaning, unless it is a number beyond 64 bits. -/
def Meaning.value? : Meaning → Option Value
  | .null => some .null
  | .bool b => some (.bool b)
  | .number n => some (.number n)
  | .text s => some (.string s)
  | .wide .. => none

theorem Meaning.isScalar_of_value? {meaning : Meaning} {value : Value}
    (hvalue : meaning.value? = some value) : value.IsScalar := by
  cases meaning <;> cases hvalue <;> trivial

theorem Meaning.run_value_eq_ok_iff {meaning : Meaning} {wanted : String} {value : Value}
    {before after : Nat} :
    (meaning.value wanted).run before = .ok (value, after) ↔
      meaning.value? = some value ∧ before = after := by
  cases meaning with
  | wide n holder =>
      constructor
      · rintro ⟨⟩
      · rintro ⟨⟨⟩, -⟩
  | _ =>
      constructor
      · rintro ⟨⟩
        exact ⟨rfl, rfl⟩
      · rintro ⟨⟨⟩, rfl⟩
        rfl

/-- What is known of the value of a node without a look at its parts. The tag of a scalar does not
count where it has been taken already. -/
inductive Node.Shows (tagTaken : Bool) : Node → Value → Prop where
  | nothing {mark : Mark} : Shows tagTaken (.void mark) .null
  | scalar {mark : Mark} {properties : Properties} {text : String} {style : ScalarStyle}
      {meaning : Meaning} {value : Value}
      (hmeaning : scalarMeaning (if tagTaken then none else properties.tag) text style =
        .ok meaning)
      (hvalue : meaning.value? = some value) :
      Shows tagTaken (.scalar mark properties text style) value
  | sequence {mark : Mark} {properties : Properties} {items : List Node} {values : List Value} :
      Shows tagTaken (.sequence mark properties items) (.sequence values)
  | mapping {mark : Mark} {properties : Properties} {entries : List (Node × Node)}
      {settings : List (Value × Value)} :
      Shows tagTaken (.mapping mark properties entries) (.mapping settings)

/-- A scalar shows what its text means, or a text if it has a tag of its own. -/
theorem Node.shows_scalar_iff {tagTaken : Bool} {mark : Mark} {properties : Properties}
    {text : String} {style : ScalarStyle} {value : Value} :
    (Node.scalar mark properties text style).Shows tagTaken value ↔
      ∃ meaning, scalarMeaning (if tagTaken then none else properties.tag) text style =
        .ok meaning ∧ meaning.value? = some value := by
  constructor
  · intro hshown
    cases hshown with
    | scalar hmeaning hvalue => exact ⟨_, hmeaning, hvalue⟩
  · rintro ⟨meaning, hmeaning, hvalue⟩
    exact .scalar hmeaning hvalue

/-- Whether a node is taken for a value. A tag of the document's own stays with it. -/
def Node.StandsFor (node : Node) (value : Value) : Prop :=
  match node.localTag? with
  | none => node.Shows false value
  | some (_, tag) => ∃ held, node.Shows true held ∧ value = .tagged tag held

/-- The value is a scalar exactly if the node is one. -/
theorem Node.StandsFor.isScalar_iff {node : Node} {value : Value}
    (hvalue : node.StandsFor value) : value.IsScalar ↔ node.IsScalar := by
  unfold Node.StandsFor at hvalue
  split at hvalue
  case h_1 hlocal =>
    cases hvalue with
    | nothing => exact Iff.rfl
    | scalar hmeaning hvalue => exact iff_of_true (Meaning.isScalar_of_value? hvalue) hlocal
    | sequence => exact Iff.rfl
    | mapping => exact Iff.rfl
  case h_2 mark tag hlocal =>
    obtain ⟨held, -, rfl⟩ := hvalue
    refine iff_of_false id fun hscalar => ?_
    cases (Node.localTag?_eq_none_of_isScalar hscalar).symm.trans hlocal

namespace Document

open Taking

/-- Whether a text ends with its first document, and that is complete. -/
def IsWhole (document : Document) : Prop :=
  document.fault = none ∧ document.moreFollows = false

variable {document : Document} {inner : Option ValueReader} {path : Path} {node : Node}
  {value : Value}

/-- The contents of a node are read as what the node shows. -/
theorem shows_of_takeContents {tagTaken : Bool}
    (hvalue : (document.takeContents .free inner tagTaken path node).Answers value) :
    node.Shows tagTaken value := by
  cases node with
  | void mark =>
      cases hvalue.of_pure
      exact .nothing
  | scalar mark properties text style =>
      have hread := hvalue.of_placedAt
      cases hmeaning : scalarMeaning (if tagTaken then none else properties.tag) text style with
      | error cause =>
          rw [hmeaning] at hread
          exact absurd hread (not_answers_refuse _)
      | ok meaning =>
          rw [hmeaning] at hread
          obtain ⟨before, after, hrun⟩ := hread
          exact .scalar hmeaning (Meaning.run_value_eq_ok_iff.1 hrun).1
  | sequence mark properties items =>
      cases inner with
      | none => exact absurd hvalue (not_answers_throw _)
      | some reader =>
          obtain ⟨values, -, rfl⟩ := hvalue.of_placedAt.of_map
          exact .sequence
  | mapping mark properties entries =>
      cases inner with
      | none => exact absurd hvalue (not_answers_throw _)
      | some reader =>
          obtain ⟨settings, -, rfl⟩ := hvalue.of_placedAt.of_map
          exact .mapping
  | _ => exact absurd hvalue (not_answers_throw _)

/-- What is read of a node is what it stands for, once an alias is followed. -/
theorem standsFor_of_takeLevel
    (hvalue : (document.takeLevel .free inner false path node).Answers value) :
    (document.resolve node).StandsFor value := by
  obtain ⟨⟨after, found⟩, hfound, hrest⟩ := hvalue.bind
  cases resolve_of_settle hfound
  simp only [Bool.false_and, Bool.false_eq_true, if_false] at hrest
  unfold Node.StandsFor
  cases hlocal : (document.resolve node).localTag? with
  | none =>
      rw [hlocal] at hrest
      exact shows_of_takeContents hrest
  | some tagged =>
      rw [hlocal] at hrest
      obtain ⟨held, hheld, rfl⟩ := hrest.of_map
      exact ⟨held, shows_of_takeContents hheld, rfl⟩

/-- At the root an alias has nothing to repeat. -/
theorem standsFor_root {text : String}
    (hvalue : ((ofText text).resolve (ofText text).root).StandsFor value) :
    (ofText text).root.StandsFor value := by
  cases hroot : (ofText text).root with
  | aliased mark anchor =>
      have hanchors : (ofText text).anchors = [] := by
        change (ofText text).root.anchored = []
        rw [hroot]
        rfl
      rw [hroot, resolve, target, hanchors] at hvalue
      cases hvalue
  | _ =>
      rw [hroot] at hvalue
      exact hvalue

/-- A scalar is taken for what it shows, whatever else there is in its document. -/
theorem run_takeLevel_eq_ok_iff (hscalar : node.IsScalar) {before after : Nat} :
    (document.takeLevel .free inner false path node).run before = .ok (value, after) ↔
      node.StandsFor value ∧ before = after := by
  have hlocal := Node.localTag?_eq_none_of_isScalar hscalar
  have hcontents : document.takeLevel .free inner false path node =
      document.takeContents .free inner false path node := by
    cases node with
    | void mark => rfl
    | scalar mark properties text style =>
        simp only [takeLevel, settle, pure_bind, Bool.false_and, Bool.false_eq_true, if_false,
          hlocal]
    | _ => exact hscalar.elim
  rw [hcontents, Node.StandsFor, hlocal]
  cases node with
  | void mark =>
      constructor
      · rintro ⟨⟩
        exact ⟨.nothing, rfl⟩
      · rintro ⟨⟨⟩, rfl⟩
        rfl
  | scalar mark properties text style =>
      rw [takeContents, run_placedAt_eq_ok_iff, Node.shows_scalar_iff]
      cases scalarMeaning (if false then none else properties.tag) text style with
      | error cause =>
          constructor
          · intro hrun
            exact absurd ⟨before, after, hrun⟩ (not_answers_refuse cause)
          · rintro ⟨⟨meaning, ⟨⟩, -⟩, -⟩
      | ok meaning => simp [Meaning.run_value_eq_ok_iff]
  | _ => exact hscalar.elim

end Document

namespace Value

variable {text : String} {value : Value}

theorem standsFor_of_ofText (hvalue : ofText text = .ok value) :
    (Document.ofText text).root.StandsFor value :=
  Document.standsFor_root (Document.standsFor_of_takeLevel (answers_of_read hvalue))

/-- A document with one scalar is read exactly if it is whole, and as what the scalar stands for. -/
theorem ofText_eq_ok_iff_of_isScalar (hscalar : (Document.ofText text).root.IsScalar) :
    ofText text = .ok value ↔
      (Document.ofText text).root.StandsFor value ∧ (Document.ofText text).IsWhole := by
  unfold ofText
  rw [read_eq_ok_iff]
  refine and_congr_left fun _ => ?_
  constructor
  · rintro ⟨followed, hrun⟩
    exact ((Document.run_takeLevel_eq_ok_iff hscalar).1 hrun).1
  · intro hvalue
    exact ⟨0, (Document.run_takeLevel_eq_ok_iff hscalar).2 ⟨hvalue, rfl⟩⟩

end Value

end StackBridge.Yaml

namespace StackBridge.Build

open StackBridge.Yaml (Value Document)

/-- How an answer decides on the value of a setting. One that is a scalar as a document gives its
value and one that cannot be read gives its text. Of any other answer the value has the shape that
the root of the document has, and only then it is not a scalar. -/
structure AnswerDecides (answer : String) (value : Value) : Prop where
  scalar : (Document.ofText answer).root.IsScalar → (Document.ofText answer).IsWhole →
    ∀ scalar, (Document.ofText answer).root.StandsFor scalar → value = scalar
  verbatim : (∀ held, Value.ofText answer ≠ .ok held) → value = .string answer
  document : ∀ held, Value.ofText answer = .ok held →
    (Document.ofText answer).root.StandsFor value
  isScalar_iff : value.IsScalar ↔
    (Document.ofText answer).root.IsScalar ∨ ∀ held, Value.ofText answer ≠ .ok held

/-- An answer that can be read decides on what is read. -/
theorem answerDecides_of_read {answer : String} {value : Value}
    (hanswer : Value.ofText answer = .ok value) : AnswerDecides answer value := by
  have hstands := Value.standsFor_of_ofText hanswer
  constructor
  case scalar =>
    intro hscalar hwhole scalar hshown
    cases hanswer.symm.trans ((Value.ofText_eq_ok_iff_of_isScalar hscalar).2 ⟨hshown, hwhole⟩)
    rfl
  case verbatim => exact fun hnone => absurd hanswer (hnone value)
  case document => exact fun _ _ => hstands
  case isScalar_iff =>
    exact hstands.isScalar_iff.trans
      ⟨Or.inl, fun hor => hor.resolve_right fun hnone => hnone value hanswer⟩

/-- An answer that cannot be read is kept as a text. -/
theorem answerDecides_of_fault {answer : String} {fault : Yaml.Fault}
    (hanswer : Value.ofText answer = .error fault) : AnswerDecides answer (.string answer) := by
  have hnone : ∀ held, Value.ofText answer ≠ .ok held := by simp [hanswer]
  constructor
  case scalar =>
    intro hscalar hwhole scalar hshown
    exact absurd ((Value.ofText_eq_ok_iff_of_isScalar hscalar).2 ⟨hshown, hwhole⟩) (hnone scalar)
  case verbatim => exact fun _ => rfl
  case document => exact fun held hheld => absurd hheld (hnone held)
  case isScalar_iff => exact iff_of_true trivial (Or.inr hnone)

/-- In every dialogue that is not broken off, each answer decides on the value of the setting that
it was given for. -/
theorem settings_decided_by_answers {providers after : Providers} {dialogue : Dialogue}
    (hafter : (dialogue.configure providers).1 = .ok after) {place : Nat}
    {setting : Value × Value} (hsetting : providers.settings[place]? = some setting)
    {line : Bytes} (hline : (linesOf dialogue.unread)[place]? = some line) {text : String}
    (htext : String.fromUTF8? ⟨line.toArray⟩ = some text) (hanswer : Text.trim text ≠ "") :
    ∃ value, after.settings[place]? = some (setting.1, value) ∧
      AnswerDecides (Text.trim text) value := by
  obtain ⟨value, hvalue, hplace⟩ := (Dialogue.answersInTurn hafter).values place setting hsetting
  refine ⟨value, hplace, ?_⟩
  rw [hline] at hvalue
  cases hvalue with
  | blank hsame hblank =>
      cases hsame.symm.trans htext
      exact absurd hblank.eq_trim.symm hanswer
  | document hsame htrimmed _ hread =>
      cases hsame.symm.trans htext
      exact htrimmed.eq_trim ▸ answerDecides_of_read hread
  | verbatim hsame htrimmed _ hfault =>
      cases hsame.symm.trans htext
      exact htrimmed.eq_trim ▸ answerDecides_of_fault hfault

theorem address_decides_on_url :
    ∃ value, (localProviders (.string "https://x")).settings[0]? = some (.string "url", value) ∧
      AnswerDecides "https://x" value := by
  have hafter : (threeLines.configure (localProviders (.string "http://localhost:8000"))).1 =
      .ok (localProviders (.string "https://x")) := by
    decide +kernel
  have hline : (linesOf threeLines.unread)[0]? = some "https://x \n".toUTF8.toList := by
    decide +kernel
  have htext : String.fromUTF8? ⟨"https://x \n".toUTF8.toList.toArray⟩ = some "https://x \n" := by
    decide +kernel
  have htrim : Text.trim "https://x \n" = "https://x" := by decide +kernel
  have hsetting : (localProviders (.string "http://localhost:8000")).settings[0]? =
      some (.string "url", .string "http://localhost:8000") :=
    rfl
  have hdecided := settings_decided_by_answers hafter hsetting hline htext
    (by rw [htrim]; decide)
  rwa [htrim] at hdecided

/-- An answer in brackets makes the setting a list. -/
theorem bracketed_answer_is_no_scalar :
    ∃ after key value, (Dialogue.configure { unread := "[1, 2]\n".toUTF8.toList }
        (localProviders (.string "http://localhost:8000"))).1 = .ok after ∧
      after.settings[0]? = some (key, value) ∧ ¬ value.IsScalar :=
  ⟨localProviders (.sequence [.number (.whole (.ofInt64 1)), .number (.whole (.ofInt64 2))]),
    .string "url", _, by decide +kernel, rfl, id⟩

end StackBridge.Build
