/-
What readers answer when they do not fail. A property of the answer follows from properties of the
answers on the way; a reader that can only fail has all of them. So arguments that are read are in
normal form.
-/
import StackBridge.Conversion.Incoming
import StackBridge.Proofs.Records

namespace StackBridge

namespace Json.Reader

variable {α β : Type} {reader : Reader α} {holds : α → Prop}

/-- Whether everything that a reader answers has a property. -/
def Ensures (reader : Reader α) (holds : α → Prop) : Prop :=
  ∀ cursor value after, reader.run cursor = (.ok value, after) → holds value

theorem run_bind_of_ok {cursor between : Cursor} {found : α}
    (hfound : reader.run cursor = (.ok found, between)) (next : α → Reader β) :
    (reader >>= next).run cursor = (next found).run between := by
  simp only [ExceptT.run] at hfound
  simp only [ExceptT.run, bind, ExceptT.bind, ExceptT.mk, StateT.bind, hfound]
  rfl

theorem run_bind_of_error {cursor between : Cursor} {fault : Fault}
    (hfault : reader.run cursor = (.error fault, between)) (next : α → Reader β) :
    (reader >>= next).run cursor = (.error fault, between) := by
  simp only [ExceptT.run] at hfault
  simp only [ExceptT.run, bind, ExceptT.bind, ExceptT.mk, StateT.bind, hfault]
  rfl

/-- Two readers in a row answer if both do. -/
theorem run_bind_eq_ok_iff {next : α → Reader β} {cursor after : Cursor} {value : β} :
    (reader >>= next).run cursor = (.ok value, after) ↔
      ∃ found between, reader.run cursor = (.ok found, between) ∧
        (next found).run between = (.ok value, after) := by
  constructor
  · intro hvalue
    rcases hrun : reader.run cursor with ⟨fault | found, between⟩
    · rw [run_bind_of_error hrun] at hvalue
      cases hvalue
    · rw [run_bind_of_ok hrun] at hvalue
      exact ⟨found, between, rfl, hvalue⟩
  · rintro ⟨found, between, hfound, hvalue⟩
    rw [run_bind_of_ok hfound, hvalue]

theorem ensures_pure {value : α} (hvalue : holds value) :
    (pure value : Reader α).Ensures holds := by
  intro cursor found after hrun
  cases hrun
  exact hvalue

theorem ensures_fault (fault : Fault) : (throw fault : Reader α).Ensures holds := by
  intro cursor value after hrun
  cases hrun

theorem Ensures.bind {next : α → Reader β} {onward : β → Prop} (hreader : reader.Ensures holds)
    (hnext : ∀ value, holds value → (next value).Ensures onward) :
    (reader >>= next).Ensures onward := by
  intro cursor value after hrun
  obtain ⟨found, between, hfound, hvalue⟩ := run_bind_eq_ok_iff.1 hrun
  exact hnext found (hreader cursor found between hfound) between value after hvalue

/-- What comes first does not matter. -/
theorem ensures_bind {next : α → Reader β} {onward : β → Prop}
    (hnext : ∀ value, (next value).Ensures onward) : (reader >>= next).Ensures onward := by
  have hreader : reader.Ensures fun _ => True := fun _ _ _ _ => trivial
  exact hreader.bind fun value _ => hnext value

theorem ensures_failNext (m : Malformed) : (failNext m : Reader α).Ensures holds :=
  ensures_bind fun _ => ensures_fault _

theorem Ensures.anchored (hreader : reader.Ensures holds) : (anchored reader).Ensures holds := by
  intro cursor value after hrun
  cases hinner : reader.run cursor with
  | mk result between =>
      simp only [Reader.anchored, ExceptT.run, ExceptT.mk] at hrun hinner
      rw [hinner] at hrun
      cases result with
      | ok found =>
          cases hrun
          exact hreader cursor value after hinner
      | error fault => cases hrun

theorem Ensures.closedBy (hreader : reader.Ensures holds) (close : Reader Unit) :
    (closedBy reader close).Ensures holds := by
  intro cursor value after hrun
  cases hinner : reader.run cursor with
  | mk result between =>
      simp only [Reader.closedBy, ExceptT.run, ExceptT.mk] at hrun hinner
      rw [hinner] at hrun
      cases result with
      | error fault => cases hrun
      | ok found =>
          have hfound := hreader cursor found between hinner
          simp only at hrun
          split at hrun
          · cases hrun
            exact hfound
          · cases hrun

theorem ensures_deeper {inner : Nat → Reader α} (hinner : ∀ depth, (inner depth).Ensures holds)
    (depth : Nat) : (deeper depth inner).Ensures holds := by
  cases depth with
  | zero => exact ensures_failNext _
  | succ depth => exact hinner depth

theorem Ensures.object (hreader : reader.Ensures holds) : (object reader).Ensures holds :=
  ensures_bind fun _ => hreader.closedBy _

/-- What every member keeps, all members keep. By induction on the steps that are left, without
which there is no answer. -/
theorem ensures_members {member : String → β → Reader β} {start : β} {kept : β → Prop}
    (hstart : kept start) (hmember : ∀ name state, kept state → (member name state).Ensures kept) :
    (members member start).Ensures kept := by
  have hfrom : ∀ (steps : Nat) (isFirst : Bool) (state : β), kept state →
      (membersFrom member steps isFirst state).Ensures kept := by
    intro steps
    induction steps with
    | zero => exact fun _ _ _ => ensures_bind fun _ => ensures_fault _
    | succ steps ih =>
        intro isFirst state hstate
        refine ensures_bind fun more => ?_
        cases more with
        | false => exact ensures_pure hstate
        | true =>
            exact ensures_bind fun name => (hmember name state hstate).bind fun next hnext =>
              ih false next hnext
  exact ensures_bind fun steps => hfrom steps true start hstart

/-- A complaint never comes to an answer. -/
theorem ensures_refuse (wanted : String) : (refuse wanted : Reader α).Ensures holds := by
  refine Ensures.anchored (ensures_bind fun next => ?_)
  split
  · exact ensures_fault _
  · exact ensures_fault _
  · refine ensures_bind fun found => ?_
    split <;> exact ensures_fault _

/-- What a reader ensures holds of every value that it gives. -/
theorem ensures_parse (hreader : reader.Ensures holds) {text : String} {value : α}
    (hvalue : parse reader text = .ok value) : holds value := by
  have hwhole : (do
      let result ← reader
      atEnd
      return result).Ensures holds :=
    hreader.bind fun result hresult => ensures_bind fun _ => ensures_pure hresult
  exact hwhole (Cursor.start text) value _ (Prod.ext hvalue rfl)

end Json.Reader

namespace Codec

open Json (Reader)

variable {α : Type} {codec : Codec α} {holds : α → Prop}

theorem ensures_readToken {reader : Char → Reader α} (hreader : ∀ c, (reader c).Ensures holds) :
    (readToken reader).Ensures holds := by
  refine Reader.ensures_bind fun next => ?_
  cases next with
  | none => exact Reader.ensures_failNext _
  | some c => exact hreader c

theorem ensures_read_any (depth : Nat) : (any.read depth).Ensures fun json => json.normal = json :=
  Reader.ensures_bind fun json => Reader.ensures_pure json.normal_normal

/-- The values of a map are what the values of its members are read as. -/
theorem ensures_read_map (hcodec : ∀ depth, (codec.read depth).Ensures holds) (depth : Nat) :
    (codec.map.read depth).Ensures fun values => ∀ entry ∈ values.entries, holds entry.2 := by
  refine ensures_readToken fun c => ?_
  by_cases hopen : c = '\x7b'
  · rw [if_pos hopen]
    refine Reader.Ensures.anchored (Reader.ensures_deeper (fun depth => ?_) depth)
    refine Reader.Ensures.object (Reader.ensures_members (fun entry hentry => ?_) ?_)
    · cases hentry
    · intro name values hvalues
      refine Reader.ensures_bind fun _ => (hcodec depth).bind fun value hvalue => ?_
      refine Reader.ensures_pure fun entry hentry => ?_
      rcases mem_insertEntry hentry with rfl | hold
      · exact hvalue
      · exact hvalues entry hold
  · rw [if_neg hopen]
    exact Reader.ensures_refuse _

end Codec

/-- Arguments are read in normal form. -/
theorem Conversion.normal_of_arguments {text : String} {parsed : SortedMap Json}
    (hparsed : arguments.ofText text = .ok parsed) :
    ∀ entry ∈ parsed.entries, entry.2.normal = entry.2 :=
  Json.Reader.ensures_parse (Codec.ensures_read_map Codec.ensures_read_any _) hparsed

end StackBridge
