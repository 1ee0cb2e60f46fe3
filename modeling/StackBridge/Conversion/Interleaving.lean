/-
Several streams that share a collector and are pulled in some order.
-/
import StackBridge.Conversion.Stream

namespace StackBridge.Conversion

/-- Streams side by side, those that have ended marked, and what they have recorded together. -/
structure StreamGroup where
  /-- Each stream that can still be pulled. -/
  streams : List (Option EventStream)
  log : Log := []
deriving Repr

/-- What the pull of one stream of a group gives. -/
inductive GroupStep where
  /-- The stream was pulled. -/
  | pulled (pull : Pull)
  /-- The stream had ended before, or there is no such stream. -/
  | closed
deriving Repr

namespace StreamGroup

def ofSources (sources : List (List SourceItem)) : StreamGroup :=
  { streams := sources.map fun source => some (.ofSource source) }

/-- Pull one stream. A stream that is found at its end is closed. -/
def pull (group : StreamGroup) (index : Nat) : GroupStep × StreamGroup :=
  match group.streams[index]? with
  | some (some stream) =>
      let pull := stream.pull
      let left := if pull.item.isSome then some pull.stream else none
      (.pulled pull, ⟨group.streams.set index left, group.log ++ pull.gained⟩)
  | _ => (.closed, group)

/-- Pull streams in the order of a schedule. Each step comes with the group behind it. -/
def run (group : StreamGroup) : List Nat → List (GroupStep × StreamGroup)
  | [] => []
  | index :: schedule =>
      let step := group.pull index
      step :: step.2.run schedule

end StreamGroup

end StackBridge.Conversion
