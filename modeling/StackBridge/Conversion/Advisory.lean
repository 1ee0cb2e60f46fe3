/-
Notices about conversions that went through with a loss, and the collectors that keep them. A
collector is known by handles; a clone of a handle is another handle on the same buffer.
-/
import StackBridge.SortedMap

namespace StackBridge.Conversion

/-- A conversion that went through with a loss. -/
inductive Advisory where
  /-- The number of likeliest tokens is neither -1 nor positive. It is forwarded as it is. -/
  | topKOutOfRange (topK : Int64)
  /-- A stream delta held several tool calls, of which only the first was emitted. -/
  | multipleToolCalls (count : Nat) (keptCallId : String)
deriving DecidableEq, Repr

def Advisory.message : Advisory → String
  | .topKOutOfRange topK => s!"top_k must be -1 or >= 1 (got {topK.toInt})"
  | .multipleToolCalls count keptCallId =>
      s!"multiple tool calls found in a single delta ({count}), using the first ({keptCallId}), " ++
        "ignoring the rest"

/-- What a collector holds, in the order in which it was recorded. -/
abbrev Log := List Advisory

/-- All buffers, and the buffer of each handle. -/
structure Collectors where
  buffers : List Log
  handles : List (Fin buffers.length)
deriving Repr

namespace Collectors

def empty : Collectors := ⟨[], []⟩

/-- Append a handle on a fresh buffer. -/
def addNew (collectors : Collectors) : Collectors :=
  ⟨collectors.buffers ++ [[]],
    collectors.handles.map (fun buffer => ⟨buffer.val, by
      have := buffer.isLt
      rw [List.length_append]
      omega⟩) ++
      [⟨collectors.buffers.length, by simp⟩]⟩

/-- Append a handle on the buffer of another one. A handle that does not exist has no clone. -/
def addClone (collectors : Collectors) (handle : Nat) : Collectors :=
  match collectors.handles[handle]? with
  | some buffer => ⟨collectors.buffers, collectors.handles ++ [buffer]⟩
  | none => collectors

def snapshot (collectors : Collectors) (handle : Nat) : Log :=
  match collectors.handles[handle]? with
  | some buffer => collectors.buffers[buffer]
  | none => []

/-- Replace what a handle shows, and with it what all handles on the same buffer show. -/
def replace (collectors : Collectors) (handle : Nat) (log : Log) : Collectors :=
  match collectors.handles[handle]? with
  | some buffer =>
      ⟨collectors.buffers.set buffer log,
        collectors.handles.map (fun other => ⟨other.val, by simp⟩)⟩
  | none => collectors

/-- Record notices through a handle. -/
def record (collectors : Collectors) (handle : Nat) (gained : Log) : Collectors :=
  collectors.replace handle (collectors.snapshot handle ++ gained)

def drain (collectors : Collectors) (handle : Nat) : Log × Collectors :=
  (collectors.snapshot handle, collectors.replace handle [])

def size (collectors : Collectors) (handle : Nat) : Nat :=
  (collectors.snapshot handle).length

def isEmpty (collectors : Collectors) (handle : Nat) : Bool :=
  (collectors.snapshot handle).isEmpty

def sizes (collectors : Collectors) : List Nat :=
  (List.range collectors.handles.length).map collectors.size

end Collectors

end StackBridge.Conversion
