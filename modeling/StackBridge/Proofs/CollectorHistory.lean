/-
Histories of collectors. Handles are made anew or as clones of others, and notices are recorded
directly, by conversions of requests and by pulls of streams; in between they are looked at and
drained, in any order. Every handle goes back to one that was made anew, its founder, and handles
with one founder are handles on one buffer. No notice is lost or repeated: what was drained from a
buffer, followed by what it holds, is what was recorded into it.
-/
import StackBridge.Conversion.Outgoing
import StackBridge.Proofs.CollectorHandles
import StackBridge.Proofs.StreamStep

namespace StackBridge.Conversion

/-- What can be done with collectors and with the streams that record into them. -/
inductive Operation where
  | new
  | clone (handle : Nat)
  | record (handle : Nat) (advisory : Advisory)
  | convert (handle : Nat) (request : Chat.Request) (n : UInt32)
  /-- Start a stream that records through a handle. -/
  | openStream (handle : Nat) (source : List SourceItem)
  | pull (stream : Nat)
  | snapshot (handle : Nat)
  | drain (handle : Nat)
  | isEmpty (handle : Nat)
  | size (handle : Nat)

inductive Answer where
  | done
  | payload (request : Provider.Request)
  | item (item : Option StreamItem)
  | notices (log : Log)
  | flag (b : Bool)
  | count (n : Nat)

/-- Collectors, and the streams that were started, each with its handle. -/
structure Session where
  collectors : Collectors := .empty
  streams : List (Nat × EventStream) := []

namespace Session

/-- The session behind notices that were recorded through a handle. -/
def recording (session : Session) (handle : Nat) (gained : Log) : Session :=
  { session with collectors := session.collectors.record handle gained }

def perform (session : Session) : Operation → Answer × Session
  | .new => (.done, { session with collectors := session.collectors.addNew })
  | .clone handle => (.done, { session with collectors := session.collectors.addClone handle })
  | .record handle advisory => (.done, session.recording handle [advisory])
  | .convert handle request n =>
      (.payload (convertRequest request n), session.recording handle (requestAdvisories request))
  | .openStream handle source =>
      (.done, { session with streams := session.streams ++ [(handle, .ofSource source)] })
  | .pull number =>
      match session.streams[number]? with
      | none => (.done, session)
      | some (handle, stream) =>
          let pull := stream.pull
          (.item pull.item,
            { session.recording handle pull.gained with
              streams := session.streams.set number (handle, pull.stream) })
  | .snapshot handle => (.notices (session.collectors.snapshot handle), session)
  | .drain handle =>
      let (log, collectors) := session.collectors.drain handle
      (.notices log, { session with collectors })
  | .isEmpty handle => (.flag (session.collectors.isEmpty handle), session)
  | .size handle => (.count (session.collectors.size handle), session)

def after (session : Session) (operations : List Operation) : Session :=
  operations.foldl (fun session operation => (session.perform operation).2) session

end Session

/-- The founder of each handle behind one more operation. A handle that is made anew is its own
founder, and a clone has the founder of the handle that it is a clone of. -/
def foundersBehind (founders : List Nat) : Operation → List Nat
  | .new => founders ++ [founders.length]
  | .clone handle => founders ++ (founders[handle]?).toList
  | _ => founders

/-- The founder of each handle that some operations have made. -/
def foundersOf (operations : List Operation) : List Nat :=
  operations.foldl foundersBehind []

/-- One operation of a history, with the session and the founders that it finds. -/
structure HistoryStep where
  founders : List Nat
  session : Session
  operation : Operation

namespace HistoryStep

/-- The handle through which an operation reaches a buffer. -/
def handle? (step : HistoryStep) : Option Nat :=
  match step.operation with
  | .record handle _ | .convert handle _ _ | .snapshot handle | .drain handle | .isEmpty handle
  | .size handle => some handle
  | .pull number => (step.session.streams[number]?).map (·.1)
  | .new | .clone _ | .openStream .. => none

def founder? (step : HistoryStep) : Option Nat :=
  step.handle?.bind (step.founders[·]?)

/-- The notices that an operation gives rise to. -/
def gained (step : HistoryStep) : Log :=
  match step.operation with
  | .record _ advisory => [advisory]
  | .convert _ request _ => requestAdvisories request
  | .pull number => (step.session.streams[number]?).elim [] fun entry =>
    entry.2.taken.flatMap itemAdvisories
  | _ => []

/-- The notices that an operation answers because they were drained. -/
def drained (step : HistoryStep) : Log :=
  match step.operation, (step.session.perform step.operation).1 with
  | .drain _, .notices log => log
  | _, _ => []

/-- What an operation does to the buffer of a founder, and nothing if it is about another one. -/
def about (founder : Nat) (step : HistoryStep) (log : Log) : Log :=
  if step.founder? = some founder then log else []

end HistoryStep

/-- The steps of a history that goes on from a session. -/
def historyFrom (founders : List Nat) (session : Session) : List Operation → List HistoryStep
  | [] => []
  | operation :: rest =>
      ⟨founders, session, operation⟩ ::
        historyFrom (foundersBehind founders operation) (session.perform operation).2 rest

def history (operations : List Operation) : List HistoryStep :=
  historyFrom [] {} operations

/-- All notices that were recorded into the buffer of a founder, in order. -/
def recordedInto (founder : Nat) (steps : List HistoryStep) : Log :=
  steps.flatMap fun step => step.about founder step.gained

/-- All notices that were drained from the buffer of a founder, in order. -/
def drainedFrom (founder : Nat) (steps : List HistoryStep) : Log :=
  steps.flatMap fun step => step.about founder step.drained

namespace Collectors

theorem buffer?_eq_none_iff {collectors : Collectors} {handle : Nat} :
    collectors.buffer? handle = none ↔ collectors.handles.length ≤ handle := by
  rw [buffer?, Option.map_eq_none_iff, List.getElem?_eq_none_iff]

theorem buffer?_addNew (collectors : Collectors) (handle : Nat) :
    collectors.addNew.buffer? handle =
      if handle = collectors.handles.length then some collectors.buffers.length
      else collectors.buffer? handle := by
  unfold addNew buffer?
  rcases Nat.lt_trichotomy handle collectors.handles.length with hlt | rfl | hgt
  · rw [if_neg (Nat.ne_of_lt hlt), List.getElem?_append_left (by simpa using hlt)]
    simp [Function.comp_def]
  · simp
  · rw [if_neg (Nat.ne_of_gt hgt), List.getElem?_eq_none (by simp; omega),
      List.getElem?_eq_none (Nat.le_of_lt hgt)]
    rfl

theorem buffer?_addClone (collectors : Collectors) (handle other : Nat) :
    (collectors.addClone handle).buffer? other =
      if other = collectors.handles.length then collectors.buffer? handle
      else collectors.buffer? other := by
  by_cases hhandle : handle < collectors.handles.length
  · by_cases hother : other = collectors.handles.length
    · rw [if_pos hother, hother, buffer?_addClone_new hhandle]
    · rw [if_neg hother, addClone_of_lt hhandle]
      unfold buffer?
      rcases Nat.lt_or_gt_of_ne hother with hlt | hgt
      · rw [List.getElem?_append_left hlt]
      · rw [List.getElem?_eq_none (by simp; omega), List.getElem?_eq_none (Nat.le_of_lt hgt)]
  · -- a handle that does not exist has no clone
    have hmissing : collectors.handles[handle]? = none := by simpa using hhandle
    have hnone : collectors.buffer? handle = none := by rw [buffer?, hmissing]; rfl
    have hsame : collectors.addClone handle = collectors := by rw [addClone, hmissing]
    rw [hsame, hnone]
    split
    case isTrue hother => exact buffer?_eq_none_iff.2 (Nat.le_of_eq hother.symm)
    case isFalse => rfl

theorem buffer?_lt {collectors : Collectors} {handle buffer : Nat}
    (hbuffer : collectors.buffer? handle = some buffer) : buffer < collectors.buffers.length := by
  unfold buffer? at hbuffer
  obtain ⟨found, -, rfl⟩ := Option.map_eq_some_iff.1 hbuffer
  exact found.isLt

theorem snapshot_of_missing {collectors : Collectors} {handle : Nat}
    (hmissing : collectors.buffer? handle = none) : collectors.snapshot handle = [] := by
  rw [snapshot_eq, hmissing]
  rfl

theorem snapshot_addNew (collectors : Collectors) (handle : Nat) :
    collectors.addNew.snapshot handle = collectors.snapshot handle := by
  rw [snapshot_eq, buffer?_addNew]
  split
  case isTrue hnew =>
    rw [snapshot_of_missing (buffer?_eq_none_iff.2 (Nat.le_of_eq hnew.symm))]
    simp [addNew]
  case isFalse =>
    rw [snapshot_eq]
    cases hbuffer : collectors.buffer? handle with
    | none => rfl
    | some buffer =>
        have hlt := buffer?_lt hbuffer
        simp [addNew, List.getElem?_append_left hlt]

theorem buffers_addClone (collectors : Collectors) (handle : Nat) :
    (collectors.addClone handle).buffers = collectors.buffers := by
  unfold addClone
  split <;> rfl

theorem snapshot_addClone {collectors : Collectors} {handle other : Nat}
    (hother : other < collectors.handles.length) :
    (collectors.addClone handle).snapshot other = collectors.snapshot other := by
  rw [snapshot_eq, buffer?_addClone, if_neg (Nat.ne_of_lt hother), buffers_addClone, ← snapshot_eq]

/-- What is replaced through one handle does not show in a handle on another buffer. -/
theorem snapshot_replace_of_ne {collectors : Collectors} {handle other : Nat}
    (hdiffers : collectors.buffer? handle ≠ collectors.buffer? other) (log : Log) :
    (collectors.replace handle log).snapshot other = collectors.snapshot other := by
  rw [snapshot_eq, buffer?_replace, snapshot_eq]
  cases hother : collectors.buffer? other with
  | none => rfl
  | some buffer =>
      rw [hother] at hdiffers
      unfold replace
      split
      case h_1 found hfound =>
        have hne : (found : Nat) ≠ buffer := by
          rintro rfl
          exact hdiffers (by rw [buffer?, hfound]; rfl)
        simp [List.getElem?_set_ne hne]
      case h_2 => rfl

end Collectors

/-- Whether the handles of a session have these founders, each of which is its own founder, and
handles have one founder exactly if they stand for one buffer. -/
structure Session.FoundedBy (session : Session) (founders : List Nat) : Prop where
  length : session.collectors.handles.length = founders.length
  founder : ∀ handle founder : Nat, founders[handle]? = some founder →
    founders[founder]? = some founder
  share : ∀ handle other : Nat, founders[handle]? = founders[other]? ↔
    session.collectors.buffer? handle = session.collectors.buffer? other

namespace Session

variable {session : Session} {founders : List Nat}

theorem foundedBy_start : ({} : Session).FoundedBy [] where
  length := rfl
  founder _ _ hfounder := by simp at hfounder
  share handle other := by
    rw [Collectors.buffer?_eq_none_iff.2 (Nat.zero_le handle),
      Collectors.buffer?_eq_none_iff.2 (Nat.zero_le other)]
    simp

/-- Operations that leave the buffer of every handle as it is leave its founder as it is. -/
theorem FoundedBy.of_buffers {next : Session} (hfounded : session.FoundedBy founders)
    (hbuffer : ∀ handle, next.collectors.buffer? handle = session.collectors.buffer? handle) :
    next.FoundedBy founders where
  length := by
    have hsame : ∀ handle, next.collectors.handles.length ≤ handle ↔
        session.collectors.handles.length ≤ handle := by
      intro handle
      rw [← Collectors.buffer?_eq_none_iff, hbuffer, Collectors.buffer?_eq_none_iff]
    rw [← hfounded.length]
    exact Nat.le_antisymm ((hsame _).2 (Nat.le_refl _)) ((hsame _).1 (Nat.le_refl _))
  founder := hfounded.founder
  share handle other := by rw [hbuffer, hbuffer, hfounded.share]

theorem getElem?_append_singleton {α : Type} (list : List α) (last : α) (index : Nat) :
    (list ++ [last])[index]? = if index = list.length then some last else list[index]? := by
  rcases Nat.lt_trichotomy index list.length with hlt | rfl | hgt
  · rw [if_neg (Nat.ne_of_lt hlt), List.getElem?_append_left hlt]
  · simp
  · rw [if_neg (Nat.ne_of_gt hgt), List.getElem?_eq_none (by simp; omega),
      List.getElem?_eq_none (Nat.le_of_lt hgt)]

theorem FoundedBy.buffer?_eq_none_iff (hfounded : session.FoundedBy founders) (handle : Nat) :
    session.collectors.buffer? handle = none ↔ founders[handle]? = none := by
  rw [Collectors.buffer?_eq_none_iff, hfounded.length, List.getElem?_eq_none_iff]

/-- A new handle is its own founder. Neither its number nor its buffer is that of a handle that was
there before. -/
theorem FoundedBy.new (hfounded : session.FoundedBy founders) :
    (session.perform .new).2.FoundedBy (foundersBehind founders .new) where
  length := by simp [Session.perform, foundersBehind, Collectors.addNew, hfounded.length]
  founder (handle founder : Nat) := by
    simp only [foundersBehind, getElem?_append_singleton]
    split
    · rintro ⟨rfl⟩
      rw [if_pos rfl]
    · intro hfounder
      have hsame := hfounded.founder handle founder hfounder
      rw [if_neg (Nat.ne_of_lt (List.getElem?_eq_some_iff.1 hsame).1), hsame]
  share handle other := by
    have hfresh : ∀ handle : Nat, founders[handle]? ≠ some founders.length := by
      intro handle hfounder
      have hsame := hfounded.founder handle founders.length hfounder
      simp at hsame
    have hfreshBuffer : ∀ handle,
        session.collectors.buffer? handle ≠ some session.collectors.buffers.length :=
      fun handle hbuffer => absurd (Collectors.buffer?_lt hbuffer) (Nat.lt_irrefl _)
    simp only [foundersBehind, Session.perform, getElem?_append_singleton,
      Collectors.buffer?_addNew,
      hfounded.length]
    split <;> split
    · simp
    · simp [(hfresh other).symm, (hfreshBuffer other).symm]
    · simp [hfresh handle, hfreshBuffer handle]
    · exact hfounded.share handle other

/-- A clone has the founder of the handle it was cloned from. What is asked of the clone is asked of
that handle. -/
theorem FoundedBy.clone (hfounded : session.FoundedBy founders) (handle : Nat) :
    (session.perform (.clone handle)).2.FoundedBy (foundersBehind founders (.clone handle)) := by
  cases hfounder : founders[handle]? with
  | none =>
      have hmissing : session.collectors.buffer? handle = none :=
        (hfounded.buffer?_eq_none_iff handle).2 hfounder
      have hsame : foundersBehind founders (.clone handle) = founders := by
        simp [foundersBehind, hfounder]
      rw [hsame]
      refine hfounded.of_buffers fun other => ?_
      rw [Session.perform, Collectors.buffer?_addClone, hmissing]
      split
      case isTrue hother =>
        exact (Collectors.buffer?_eq_none_iff.2 (Nat.le_of_eq hother.symm)).symm
      case isFalse => rfl
  | some founder =>
      have hlt : handle < session.collectors.handles.length :=
        hfounded.length ▸ (List.getElem?_eq_some_iff.1 hfounder).1
      let origin (other : Nat) : Nat := if other = founders.length then handle else other
      have hfounders : ∀ other, (founders ++ [founder])[other]? = founders[origin other]? := by
        intro other
        rw [getElem?_append_singleton]
        simp only [origin]
        split
        · exact hfounder.symm
        · rfl
      have hbuffers : ∀ other, (session.collectors.addClone handle).buffer? other =
          session.collectors.buffer? (origin other) := by
        intro other
        rw [Collectors.buffer?_addClone, hfounded.length]
        simp only [origin]
        split <;> rfl
      have hbehind : foundersBehind founders (.clone handle) = founders ++ [founder] := by
        simp [foundersBehind, hfounder]
      rw [hbehind]
      constructor
      case length =>
        rw [Session.perform, Collectors.addClone_of_lt hlt, List.length_append, hfounded.length,
          List.length_append]
        rfl
      case founder =>
        intro other found hfound
        rw [hfounders] at hfound
        have hsame := hfounded.founder _ _ hfound
        rw [getElem?_append_singleton,
          if_neg (Nat.ne_of_lt (List.getElem?_eq_some_iff.1 hsame).1), hsame]
      case share =>
        intro one other
        rw [hfounders, hfounders, Session.perform, hbuffers, hbuffers]
        exact hfounded.share _ _

/-- Only a new handle and a clone change which buffer a handle stands for. -/
theorem buffer?_perform {operation : Operation} (hnew : operation ≠ .new)
    (hclone : ∀ handle, operation ≠ .clone handle) (session : Session) (handle : Nat) :
    (session.perform operation).2.collectors.buffer? handle =
      session.collectors.buffer? handle := by
  cases operation with
  | new => exact absurd rfl hnew
  | clone other => exact absurd rfl (hclone other)
  | pull number =>
      rw [perform]
      split
      · rfl
      · exact Collectors.buffer?_record _ _ _ _
  | record other advisory => exact Collectors.buffer?_record _ _ _ _
  | convert other request n => exact Collectors.buffer?_record _ _ _ _
  | drain other => exact Collectors.buffer?_replace _ _ _ _
  | _ => rfl

/-- The founders stay those of the handles, whatever is done. -/
theorem FoundedBy.perform (hfounded : session.FoundedBy founders) (operation : Operation) :
    (session.perform operation).2.FoundedBy (foundersBehind founders operation) := by
  cases operation with
  | new => exact hfounded.new
  | clone handle => exact hfounded.clone handle
  | _ => exact hfounded.of_buffers (buffer?_perform (by simp) (by simp) session)

theorem foundedBy_after (operations : List Operation) :
    (({} : Session).after operations).FoundedBy (foundersOf operations) := by
  have hfrom : ∀ (session : Session) (founders : List Nat), session.FoundedBy founders →
      (session.after operations).FoundedBy (operations.foldl foundersBehind founders) := by
    induction operations with
    | nil => exact fun _ _ hfounded => hfounded
    | cons operation rest ih => exact fun _ _ hfounded => ih _ _ (hfounded.perform operation)
  exact hfrom {} [] foundedBy_start

theorem FoundedBy.snapshot_eq (hfounded : session.FoundedBy founders) {handle founder : Nat}
    (hfounder : founders[handle]? = some founder) :
    session.collectors.snapshot handle = session.collectors.snapshot founder := by
  have hsame : founders[handle]? = founders[founder]? :=
    hfounder.trans (hfounded.founder handle founder hfounder).symm
  exact Collectors.snapshot_of_buffer? ((hfounded.share handle founder).1 hsame)

/-- Recording through a handle shows in the handles with its founder and in no others. -/
theorem FoundedBy.snapshot_recording (hfounded : session.FoundedBy founders)
    {other founder : Nat} (hother : founders[other]? = some founder) (handle : Nat)
    (gained : Log) :
    (session.recording handle gained).collectors.snapshot other =
      session.collectors.snapshot other ++
        if founders[handle]? = some founder then gained else [] := by
  have hlt : other < session.collectors.handles.length :=
    hfounded.length ▸ (List.getElem?_eq_some_iff.1 hother).1
  have hbuffer := Collectors.buffer?_of_lt hlt
  split
  case isTrue hhandle =>
    have hsame := (hfounded.share handle other).1 (hhandle.trans hother.symm)
    exact Collectors.snapshot_record (hsame.trans hbuffer) hbuffer gained
  case isFalse hhandle =>
    rw [List.append_nil]
    refine Collectors.snapshot_replace_of_ne (fun hsame => hhandle ?_) _
    rw [(hfounded.share handle other).2 hsame, hother]

theorem FoundedBy.balance_recording (hfounded : session.FoundedBy founders) {other founder : Nat}
    (hother : founders[other]? = some founder) (handle : Nat) (gained : Log) :
    session.collectors.snapshot other ++ (if founders[handle]? = some founder then gained else []) =
      (if founders[handle]? = some founder then [] else []) ++
        (session.recording handle gained).collectors.snapshot other := by
  rw [hfounded.snapshot_recording hother, ite_self, List.nil_append]

/-- What a buffer held, with what is recorded into it, is what is drained from it, with what it
holds then. -/
theorem FoundedBy.balance (hfounded : session.FoundedBy founders) {handle founder : Nat}
    (hhandle : founders[handle]? = some founder) (operation : Operation) :
    let step : HistoryStep := ⟨founders, session, operation⟩
    session.collectors.snapshot handle ++ step.about founder step.gained =
      step.about founder step.drained ++
        (session.perform operation).2.collectors.snapshot handle := by
  intro step
  have hlt : handle < session.collectors.handles.length :=
    hfounded.length ▸ (List.getElem?_eq_some_iff.1 hhandle).1
  cases operation with
  | new => simp [step, HistoryStep.about, HistoryStep.founder?, HistoryStep.handle?,
    Session.perform,
      Collectors.snapshot_addNew]
  | clone other => simp [step, HistoryStep.about, HistoryStep.founder?, HistoryStep.handle?,
      Session.perform, Collectors.snapshot_addClone hlt]
  | openStream other source => simp [step, HistoryStep.about, HistoryStep.founder?,
      HistoryStep.handle?, Session.perform]
  | snapshot other | isEmpty other | size other =>
      simp [step, HistoryStep.about, HistoryStep.gained, HistoryStep.drained, Session.perform]
  | record other advisory =>
      exact hfounded.balance_recording hhandle other [advisory]
  | convert other request n =>
      exact hfounded.balance_recording hhandle other (requestAdvisories request)
  | pull number =>
      cases hstream : session.streams[number]? with
      | none =>
          simp [step, HistoryStep.about, HistoryStep.founder?, HistoryStep.handle?,
            Session.perform, hstream]
      | some entry =>
          have hbalance := hfounded.balance_recording hhandle entry.1
            (entry.2.taken.flatMap itemAdvisories)
          simpa [step, HistoryStep.about, HistoryStep.founder?, HistoryStep.handle?,
            HistoryStep.gained, HistoryStep.drained, Session.perform, hstream,
            EventStream.pull_gained] using hbalance
  | drain other =>
      have hbuffer := Collectors.buffer?_of_lt hlt
      have hgained : step.gained = [] := rfl
      have hdrained : step.drained = session.collectors.snapshot other := rfl
      have hfounder : step.founder? = founders[other]? := rfl
      rw [HistoryStep.about, HistoryStep.about, hgained, hdrained, hfounder]
      split
      case isTrue hother =>
        have hsame := (hfounded.share other handle).1 (hother.trans hhandle.symm)
        rw [Collectors.snapshot_of_buffer? hsame]
        exact congrArg _ (Collectors.snapshot_replace (hsame.trans hbuffer) hbuffer []).symm
      case isFalse hother =>
        rw [List.append_nil, List.nil_append]
        refine (Collectors.snapshot_replace_of_ne (fun hsame => hother ?_) []).symm
        rw [(hfounded.share other handle).2 hsame, hhandle]

theorem FoundedBy.founder?_about (hfounded : session.FoundedBy founders) {operation : Operation}
    {founder : Nat}
    (habout : (⟨founders, session, operation⟩ : HistoryStep).founder? = some founder) :
    founders[founder]? = some founder := by
  obtain ⟨handle, -, hhandle⟩ := Option.bind_eq_some_iff.1 habout
  exact hfounded.founder handle founder hhandle

end Session

/-- A handle keeps its founder. -/
theorem getElem?_foundersBehind {founders : List Nat} {handle founder : Nat}
    (hfounder : founders[handle]? = some founder) (operation : Operation) :
    (foundersBehind founders operation)[handle]? = some founder := by
  have hlt := (List.getElem?_eq_some_iff.1 hfounder).1
  cases operation with
  | new => rw [foundersBehind, List.getElem?_append_left hlt, hfounder]
  | clone other => rw [foundersBehind, List.getElem?_append_left hlt, hfounder]
  | _ => exact hfounder

theorem getElem?_foldl_foundersBehind {founders : List Nat} {handle founder : Nat}
    (hfounder : founders[handle]? = some founder) (operations : List Operation) :
    (operations.foldl foundersBehind founders)[handle]? = some founder := by
  induction operations generalizing founders with
  | nil => exact hfounder
  | cons operation rest ih => exact ih (getElem?_foundersBehind hfounder operation)

namespace Session

variable {session : Session} {founders : List Nat}

/-- Before a founder is made nothing is about it, and when it is made its buffer is empty. A clone
is never its own founder. -/
theorem FoundedBy.balance_missing (hfounded : session.FoundedBy founders) {founder : Nat}
    (hmissing : founders[founder]? = none) (operation : Operation)
    (hnext : ∀ other, (foundersBehind founders operation)[founder]? = some other →
      other = founder) :
    let step : HistoryStep := ⟨founders, session, operation⟩
    session.collectors.snapshot founder ++ step.about founder step.gained =
      step.about founder step.drained ++
        (session.perform operation).2.collectors.snapshot founder := by
  intro step
  have habout : ∀ log, step.about founder log = [] := by
    intro log
    rw [HistoryStep.about, if_neg]
    intro hfounder
    have hpresent := hfounded.founder?_about hfounder
    rw [hmissing] at hpresent
    cases hpresent
  have hbuffer := (hfounded.buffer?_eq_none_iff founder).2 hmissing
  rw [habout, habout, List.append_nil, List.nil_append, Collectors.snapshot_of_missing hbuffer]
  cases operation with
  | new => rw [Session.perform, Collectors.snapshot_addNew, Collectors.snapshot_of_missing hbuffer]
  | clone handle =>
      refine (Collectors.snapshot_of_missing ?_).symm
      rw [(hfounded.clone handle).buffer?_eq_none_iff]
      cases hclone : (foundersBehind founders (.clone handle))[founder]? with
      | none => rfl
      | some other =>
          cases hnext other hclone
          have hlt := (List.getElem?_eq_some_iff.1 hclone).1
          have hge := List.getElem?_eq_none_iff.1 hmissing
          cases hhandle : founders[handle]? with
          | none => simp [foundersBehind, hhandle] at hlt; omega
          | some found =>
              simp only [foundersBehind, hhandle, Option.toList_some,
                getElem?_append_singleton] at hclone
              split at hclone
              · cases hclone
                have hpresent := hfounded.founder handle founder hhandle
                rw [hmissing] at hpresent
                cases hpresent
              · rw [hmissing] at hclone
                cases hclone
  | _ =>
      refine (Collectors.snapshot_of_missing ?_).symm
      rw [buffer?_perform (by simp) (by simp), hbuffer]

/-- What a history drains from a buffer, with what is left in it, is what was recorded there and
what it held at first. -/
theorem FoundedBy.balance_history (hfounded : session.FoundedBy founders) {founder : Nat}
    (operations : List Operation)
    (hfounder : (operations.foldl foundersBehind founders)[founder]? = some founder) :
    let steps := historyFrom founders session operations
    session.collectors.snapshot founder ++ recordedInto founder steps =
      drainedFrom founder steps ++ (session.after operations).collectors.snapshot founder := by
  induction operations generalizing session founders with
  | nil => simp [historyFrom, recordedInto, drainedFrom, Session.after]
  | cons operation rest ih =>
      have honly : ∀ {founders : List Nat} {operations : List Operation} {other : Nat},
          (operations.foldl foundersBehind founders)[founder]? = some founder →
            founders[founder]? = some other → other = founder := by
        intro founders operations other hlast hother
        rw [getElem?_foldl_foundersBehind hother] at hlast
        exact Option.some.inj hlast
      let step : HistoryStep := ⟨founders, session, operation⟩
      have hstep : session.collectors.snapshot founder ++ step.about founder step.gained =
          step.about founder step.drained ++
            (session.perform operation).2.collectors.snapshot founder := by
        cases hpresent : founders[founder]? with
        | none => exact hfounded.balance_missing hpresent operation fun _ => honly hfounder
        | some other =>
            cases @honly founders (operation :: rest) other hfounder hpresent
            exact hfounded.balance hpresent operation
      have hrest := ih (hfounded.perform operation) hfounder
      simp only [recordedInto, drainedFrom, Session.after] at hstep hrest ⊢
      rw [historyFrom, List.flatMap_cons, List.flatMap_cons, List.foldl_cons, ← List.append_assoc,
        hstep, List.append_assoc, List.append_assoc, hrest]

end Session

/-- Whatever is done with collectors, and in whatever order: handles stand for one buffer exactly if
they go back to one founder; for each buffer all that was drained from it, followed by what its
handles show, is all that was recorded into it, in order; what is done through handles of one
founder does not show in those of another; and looking at a collector changes nothing, whichever
way it is done, while draining leaves nothing behind. -/
theorem every_notice_is_kept (operations : List Operation) :
    let session := ({} : Session).after operations
    let founders := foundersOf operations
    let steps := history operations
    session.collectors.handles.length = founders.length ∧
    (∀ handle other : Nat, founders[handle]? = founders[other]? ↔
      session.collectors.buffer? handle = session.collectors.buffer? other) ∧
    (∀ handle founder : Nat, founders[handle]? = some founder →
      drainedFrom founder steps ++ session.collectors.snapshot handle =
        recordedInto founder steps) ∧
    (∀ (operation : Operation) (handle founder : Nat), founders[handle]? = some founder →
      (⟨founders, session, operation⟩ : HistoryStep).founder? ≠ some founder →
        (session.perform operation).2.collectors.snapshot handle =
          session.collectors.snapshot handle) ∧
    ∀ handle : Nat,
      let shown := session.collectors.snapshot handle
      session.perform (.snapshot handle) = (.notices shown, session) ∧
      session.perform (.size handle) = (.count shown.length, session) ∧
      session.perform (.isEmpty handle) = (.flag (shown.length == 0), session) ∧
      (session.perform (.drain handle)).1 = .notices shown ∧
      ∀ other : Nat, founders[other]? = founders[handle]? →
        session.collectors.snapshot other = shown ∧
          (session.perform (.drain handle)).2.collectors.snapshot other = [] := by
  intro session founders steps
  have hfounded : session.FoundedBy founders := Session.foundedBy_after operations
  have hhistory : ∀ handle founder : Nat, founders[handle]? = some founder →
      drainedFrom founder steps ++ session.collectors.snapshot handle =
        recordedInto founder steps := by
    intro handle founder hhandle
    rw [hfounded.snapshot_eq hhandle]
    have hbalance := Session.foundedBy_start.balance_history operations
      (hfounded.founder handle founder hhandle)
    exact hbalance.symm
  refine ⟨hfounded.length, hfounded.share, hhistory, ?_, ?_⟩
  · intro operation handle founder hhandle habout
    have hbalance := hfounded.balance hhandle operation
    simp only [HistoryStep.about, if_neg habout, List.append_nil, List.nil_append] at hbalance
    exact hbalance.symm
  · intro handle shown
    refine ⟨rfl, rfl, ?_, rfl, fun other hother => ?_⟩
    · rw [Session.perform, Collectors.isEmpty]
      cases hshown : session.collectors.snapshot handle <;> simp [shown, hshown]
    · have hsame := (hfounded.share other handle).1 hother
      refine ⟨Collectors.snapshot_of_buffer? hsame, ?_⟩
      cases hbuffer : session.collectors.buffer? handle with
      | none =>
          refine Collectors.snapshot_of_missing ?_
          exact (Collectors.buffer?_replace _ _ _ _).trans (hsame.trans hbuffer)
      | some buffer => exact Collectors.snapshot_replace hbuffer (hsame.trans hbuffer) []

/-- Two handles on one buffer and one on another: a notice that is recorded through a clone is
drained through the handle that it is a clone of, and one that follows stays. -/
def clonedHistory : List Operation :=
  [.new, .clone 0, .new, .record 1 (.topKOutOfRange 0), .record 2 (.topKOutOfRange (-5)), .drain 0,
    .openStream 1 [.ok {}, .error (.chunkSource "x")], .pull 0,
    .record 0 (.multipleToolCalls 2 "a")]

/-- The general statement at that history: what is kept shows in the clone, and draining the other
buffer leaves it there. -/
theorem cloned_notices_are_kept :
    let session := ({} : Session).after clonedHistory
    (foundersOf clonedHistory)[1]? = some 0 ∧
      (⟨foundersOf clonedHistory, session, .drain 2⟩ : HistoryStep).founder? ≠ some 0 ∧
      (foundersOf clonedHistory)[0]? = (foundersOf clonedHistory)[1]? ∧
      drainedFrom 0 (history clonedHistory) = [.topKOutOfRange 0] ∧
      [.topKOutOfRange 0] ++ session.collectors.snapshot 1 =
        [.topKOutOfRange 0, .multipleToolCalls 2 "a"] ∧
      (session.perform (.drain 2)).2.collectors.snapshot 1 = [.multipleToolCalls 2 "a"] ∧
      (session.perform (.drain 1)).2.collectors.snapshot 0 = [] := by
  intro session
  have hclone : (foundersOf clonedHistory)[1]? = some 0 := by decide
  have hother :
      (⟨foundersOf clonedHistory, session, .drain 2⟩ : HistoryStep).founder? ≠ some 0 := by
    decide
  have hsame : (foundersOf clonedHistory)[0]? = (foundersOf clonedHistory)[1]? := by decide
  have hdrained : drainedFrom 0 (history clonedHistory) = [.topKOutOfRange 0] := by decide
  have hshown : session.collectors.snapshot 1 = [.multipleToolCalls 2 "a"] := by decide
  obtain ⟨-, -, hkept, hapart, hlooked⟩ := every_notice_is_kept clonedHistory
  have hall := hkept 1 0 hclone
  rw [hdrained] at hall
  refine ⟨hclone, hother, hsame, hdrained, ?_, ?_, ?_⟩
  · rw [hall]
    decide
  · exact (hapart (.drain 2) 1 0 hclone hother).trans hshown
  · exact ((hlooked 1).2.2.2.2 0 hsame).2

end StackBridge.Conversion
