/-
Handles on collectors. A handle is a number, and what matters of it is the buffer that it stands
for: handles on one buffer show the same notices, and recording through one of them shows in all.
-/
import StackBridge.Conversion.Advisory

namespace StackBridge.Conversion

namespace Collectors

/-- The buffer that a handle stands for. -/
def buffer? (collectors : Collectors) (handle : Nat) : Option Nat :=
  (collectors.handles[handle]?).map (·.val)

/-- The collectors with so many more clones of one handle, behind all other handles. -/
def addClones (collectors : Collectors) (handle : Nat) : Nat → Collectors
  | 0 => collectors
  | count + 1 => (collectors.addClones handle count).addClone handle

theorem snapshot_eq (collectors : Collectors) (handle : Nat) :
    collectors.snapshot handle =
      ((collectors.buffer? handle).bind (collectors.buffers[·]?)).getD [] := by
  unfold snapshot buffer?
  cases collectors.handles[handle]? <;> simp

theorem buffer?_of_lt {collectors : Collectors} {handle : Nat}
    (hhandle : handle < collectors.handles.length) :
    collectors.buffer? handle = some (collectors.handles[handle]).val := by
  simp [buffer?, hhandle]

/-- What a handle shows is decided by its buffer. -/
theorem snapshot_of_buffer? {collectors : Collectors} {handle other : Nat}
    (hsame : collectors.buffer? other = collectors.buffer? handle) :
    collectors.snapshot other = collectors.snapshot handle := by
  rw [snapshot_eq, snapshot_eq, hsame]

theorem buffer?_replace (collectors : Collectors) (handle other : Nat) (log : Log) :
    (collectors.replace handle log).buffer? other = collectors.buffer? other := by
  unfold replace buffer?
  cases collectors.handles[handle]? with
  | none => rfl
  | some buffer => simp [Function.comp_def]

theorem buffer?_record (collectors : Collectors) (handle other : Nat) (gained : Log) :
    (collectors.record handle gained).buffer? other = collectors.buffer? other :=
  buffer?_replace collectors handle other _

theorem snapshot_replace {collectors : Collectors} {handle other buffer : Nat}
    (hhandle : collectors.buffer? handle = some buffer)
    (hother : collectors.buffer? other = some buffer) (log : Log) :
    (collectors.replace handle log).snapshot other = log := by
  rw [snapshot_eq, buffer?_replace, hother]
  unfold buffer? at hhandle
  rw [Option.map_eq_some_iff] at hhandle
  obtain ⟨found, hfound, rfl⟩ := hhandle
  simp [replace, hfound]

theorem snapshot_record {collectors : Collectors} {handle other buffer : Nat}
    (hhandle : collectors.buffer? handle = some buffer)
    (hother : collectors.buffer? other = some buffer) (gained : Log) :
    (collectors.record handle gained).snapshot other = collectors.snapshot other ++ gained := by
  rw [record, snapshot_replace hhandle hother, snapshot_of_buffer? (hother.trans hhandle.symm)]

theorem addClone_of_lt {collectors : Collectors} {handle : Nat}
    (hhandle : handle < collectors.handles.length) :
    collectors.addClone handle =
      ⟨collectors.buffers, collectors.handles ++ [collectors.handles[handle]]⟩ := by
  simp [addClone, hhandle]

theorem buffer?_addClone_of_lt {collectors : Collectors} {handle other : Nat}
    (hhandle : handle < collectors.handles.length) (hother : other < collectors.handles.length) :
    (collectors.addClone handle).buffer? other = collectors.buffer? other := by
  rw [addClone_of_lt hhandle, buffer?, buffer?, List.getElem?_append_left hother]

theorem buffer?_addClone_new {collectors : Collectors} {handle : Nat}
    (hhandle : handle < collectors.handles.length) :
    (collectors.addClone handle).buffer? collectors.handles.length =
      collectors.buffer? handle := by
  rw [addClone_of_lt hhandle, buffer?_of_lt hhandle, buffer?]
  simp

/-- Clones are handles on the buffer of the handle that they are clones of, and change nothing that
the handles before them show. -/
theorem addClones_spec {collectors : Collectors} {handle : Nat}
    (hhandle : handle < collectors.handles.length) (count : Nat) :
    (collectors.addClones handle count).handles.length = collectors.handles.length + count ∧
      (collectors.addClones handle count).buffers = collectors.buffers ∧
      (∀ other < collectors.handles.length,
        (collectors.addClones handle count).buffer? other = collectors.buffer? other) ∧
      (∀ number < count, (collectors.addClones handle count).buffer?
        (collectors.handles.length + number) = collectors.buffer? handle) := by
  induction count with
  | zero => exact ⟨rfl, rfl, fun _ _ => rfl, fun _ hlt => absurd hlt (Nat.not_lt_zero _)⟩
  | succ count ih =>
      obtain ⟨hlength, hbuffers, hold, hclones⟩ := ih
      have hhandle' : handle < (collectors.addClones handle count).handles.length := by omega
      rw [addClones]
      refine ⟨?_, ?_, ?_, ?_⟩
      · rw [addClone_of_lt hhandle', List.length_append, hlength]
        rfl
      · rw [addClone_of_lt hhandle', hbuffers]
      · intro other hother
        rw [buffer?_addClone_of_lt hhandle' (by omega), hold other hother]
      · intro number hnumber
        rcases Nat.lt_succ_iff_lt_or_eq.mp hnumber with hlt | rfl
        · rw [buffer?_addClone_of_lt hhandle' (by omega), hclones number hlt]
        · rw [← hlength, buffer?_addClone_new hhandle', hold handle hhandle]

end Collectors

end StackBridge.Conversion
