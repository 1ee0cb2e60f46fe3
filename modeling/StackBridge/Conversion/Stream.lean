/-
Streamed completions on their way back from the provider. A stream is pulled one event at a time
and takes a chunk from its source only when no event is waiting. The first event is `start`, later
ones are `progress`, and behind the last chunk a `complete` event carries the stop reason; a
failure is handed out in its place and ends the stream.
-/
import StackBridge.Conversion.Advisory
import StackBridge.Conversion.Incoming

namespace StackBridge.Conversion

open Chat (Event EventChunk EventDelta EventType StopReason TokenLogProbs ToolCallDelta)

/-- What the source of a stream gives: a chunk, or a failure to get one. -/
abbrev SourceItem := Except Failure Provider.Chunk

/-- What a stream hands out: an event, or the failure that ends it. -/
abbrev StreamItem := Except Failure EventChunk

/-- Whether an event has been made yet. -/
inductive Phase where
  | notStarted
  | emitting
deriving DecidableEq, Repr

/-- The type of the next event, and the phase behind it. -/
def Phase.advance : Phase → EventType × Phase
  | .notStarted => (.start, .emitting)
  | .emitting => (.progress, .emitting)

/-- What a stream remembers between two pulls. -/
structure StreamState where
  phase : Phase := .notStarted
  /-- From the last chunk that gave a reason. -/
  stopReason : Option StopReason := none
  /-- Made and not yet handed out. -/
  pending : List StreamItem := []
  finished : Bool := false
  /-- The number of events handed out, the last one not counted. -/
  emitted : Nat := 0
deriving Repr

namespace StreamState

def emit (state : StreamState) (delta : EventDelta) (logprobs : Option (List TokenLogProbs)) :
    StreamState :=
  let (eventType, phase) := state.phase.advance
  { state with
    phase
    pending := state.pending ++ [.ok ⟨⟨eventType, delta, logprobs, none⟩⟩] }

def fail (state : StreamState) (failure : Failure) : StreamState :=
  { state with pending := state.pending ++ [.error failure] }

/-- Keep the stop reason of a choice that has one. -/
def noteReason (state : StreamState) (reason : Option String) : StreamState :=
  match reason.filter (· ≠ "") with
  | some reason => { state with stopReason := some (convertFinishReason (some reason)) }
  | none => state

/-- Take in the tool calls of a choice, the first of which becomes an event. All of them have to
convert, those that are dropped included. -/
def takeCalls (state : StreamState) (calls : List Provider.PartialToolCall)
    (logprobs : Option (List TokenLogProbs)) : StreamState :=
  match convertToolCalls (calls.map (·.record)) with
  | .ok (call :: _) => state.emit (.toolCall (ToolCallDelta.complete call)) logprobs
  | .ok [] => state
  | .error failure => state.fail failure

/-- Take in one choice. An event holds either text or a call, so the text of a choice that has
both goes first. -/
def takeChoice (state : StreamState) (choice : Provider.ChunkChoice) : StreamState :=
  let state := state.noteReason choice.finishReason
  let logprobs := convertLogprobs choice.logprobs
  match choice.delta.toolCalls.getD [] with
  | [] => state.emit (.text (choice.delta.content.getD "")) logprobs
  | calls =>
      match choice.delta.content.filter (· ≠ "") with
      | some text => (state.emit (.text text) logprobs).takeCalls calls logprobs
      | none => state.takeCalls calls logprobs

/-- Take in one chunk, of which only the first choice counts. -/
def takeChunk (state : StreamState) (chunk : Provider.Chunk) : StreamState :=
  match chunk.choices with
  | choice :: _ => state.takeChoice choice
  | [] => state

/-- The event behind the last chunk. -/
def completion (state : StreamState) : EventChunk :=
  ⟨⟨.complete, .text "", none, state.stopReason⟩⟩

end StreamState

/-- The notices that a chunk gives rise to: one if it has more than one call. -/
def chunkAdvisories (chunk : Provider.Chunk) : Log :=
  match chunk.choices with
  | choice :: _ =>
      match choice.delta.toolCalls.getD [] with
      | first :: second :: rest =>
          [.multipleToolCalls (first :: second :: rest).length (first.id.getD "")]
      | _ => []
  | [] => []

/-- A stream between two pulls, with what its source still holds. -/
structure EventStream where
  state : StreamState := {}
  source : List SourceItem
deriving Repr

/-- The outcome of one pull. -/
structure Pull where
  /-- What is handed out, or nothing at the end of the stream. -/
  item : Option StreamItem
  stream : EventStream
  /-- The notices that the pull gave rise to. -/
  gained : Log := []
deriving Repr

def EventStream.ofSource (source : List SourceItem) : EventStream :=
  { source }

/-- Take chunks from the source until something can be handed out. -/
def pullFrom (state : StreamState) (source : List SourceItem) : Pull :=
  match state.pending with
  | .ok event :: rest =>
      { item := some (.ok event)
        stream := ⟨{ state with pending := rest, emitted := state.emitted + 1 }, source⟩ }
  | .error failure :: _ =>
      { item := some (.error failure)
        stream := ⟨{ state with pending := [], finished := true }, source⟩ }
  | [] =>
      if state.finished then { item := none, stream := ⟨state, source⟩ }
      else
        match source with
        | [] =>
            { item := some (.ok state.completion)
              stream := ⟨{ state with finished := true }, []⟩ }
        | .error failure :: rest => pullFrom (state.fail failure) rest
        | .ok chunk :: rest =>
            let pull := pullFrom (state.takeChunk chunk) rest
            { pull with gained := chunkAdvisories chunk ++ pull.gained }

def EventStream.pull (stream : EventStream) : Pull :=
  pullFrom stream.state stream.source

/-- Pull a stream until it ends, at most `limit` times. The last pull may be the one that finds the
end. -/
def EventStream.pulls : Nat → EventStream → List Pull
  | 0, _ => []
  | limit + 1, stream =>
      let pull := stream.pull
      match pull.item with
      | none => [pull]
      | some _ => pull :: EventStream.pulls limit pull.stream

/-- A chunk makes at most two events; with the last event and the end this many pulls always
suffice. -/
def EventStream.pullLimit (stream : EventStream) : Nat :=
  stream.state.pending.length + 2 * stream.source.length + 2

/-- All pulls of a stream, the one that finds the end included. -/
def EventStream.run (stream : EventStream) : List Pull :=
  stream.pulls stream.pullLimit

def gainedBy (pulls : List Pull) : Log :=
  pulls.flatMap (·.gained)

end StackBridge.Conversion
