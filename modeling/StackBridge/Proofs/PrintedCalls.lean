/-
Tool calls whose arguments were printed. Converting them gives the calls that they were printed
from, whether they come whole or within chunks, as long as no argument holds a float and they are
not nested deeper than a text may be.
-/
import StackBridge.Proofs.CompactText
import StackBridge.Proofs.Parts

namespace StackBridge

/-- A value that its codec restores is read from its text. -/
theorem Codec.Tracks.ofText_text {α : Type} {codec : Codec α} (hcodec : codec.Tracks) {value : α}
    (hrestores : codec.Restores value)
    (hnormal : (codec.encode value).normal = codec.encode value)
    (hwhole : (codec.encode value).isWhole = true)
    (hdepth : (codec.encode value).depth ≤ Json.maxDepth) :
    codec.ofText (codec.text value) = .ok value := by
  rw [Codec.text, hcodec.ofText_eq_ok_iff (Json.parse_compact hdepth hwhole), ← hnormal]
  exact hrestores

namespace Conversion

/-- Arguments that can be told from their text. They are in normal form, as parsed ones always are,
have no float in them and are nested no deeper than a text may be, their own braces included. -/
structure Printable (values : SortedMap Json) : Prop where
  normal : ∀ entry ∈ values.entries, entry.2.normal = entry.2
  whole : (Json.ofMap values).isWhole = true
  depth : (Json.ofMap values).depth ≤ Json.maxDepth

theorem encode_arguments (values : SortedMap Json) :
    arguments.encode values = Json.ofMap values := by
  change Json.ofMap (values.mapValues fun value => value) = Json.ofMap values
  simp [Json.ofMap, SortedMap.mapValues]

theorem Printable.normal_encode {values : SortedMap Json} (hvalues : Printable values) :
    (arguments.encode values).normal = arguments.encode values := by
  have hentries : (values.entries.map fun entry => (entry.1, entry.2.normal)) = values.entries := by
    refine (List.map_congr_left fun entry hentry => ?_).trans values.entries.map_id
    rw [hvalues.normal entry hentry]
    rfl
  have hnormal : (arguments.encode values).normal = _ := Codec.encode_map_normal values
  rw [hnormal, encode_arguments]
  exact congrArg Json.object hentries

theorem Printable.ofText_text {values : SortedMap Json} (hvalues : Printable values) :
    arguments.ofText (arguments.text values) = .ok values := by
  have hrestores : arguments.Restores values :=
    Codec.restores_map fun entry hentry =>
      (Codec.restores_any_iff entry.2).2 (hvalues.normal entry hentry)
  have hencode := encode_arguments values
  have htracks : arguments.Tracks := Codec.tracks_any.map
  exact htracks.ofText_text hrestores hvalues.normal_encode (hencode ▸ hvalues.whole)
    (hencode ▸ hvalues.depth)

/-- What a call looks like with its arguments printed. -/
def printedRecord (call : Chat.ToolCall) : Provider.ToolCallRecord :=
  ⟨call.callId, call.toolName, arguments.text call.arguments⟩

/-- The call of a function with the arguments of a call, printed. -/
def printedCall (call : Chat.ToolCall) : Provider.ToolCall :=
  .ofFunction call.callId call.toolName (arguments.text call.arguments)

/-- Whether a call within a chunk has all its parts from a call, the arguments printed. -/
def IsPrinted (part : Provider.PartialToolCall) (call : Chat.ToolCall) : Prop :=
  part.id = some call.callId ∧
    part.function = some ⟨some call.toolName, some (arguments.text call.arguments)⟩

theorem IsPrinted.record {part : Provider.PartialToolCall} {call : Chat.ToolCall}
    (hpart : IsPrinted part call) : part.record = printedRecord call := by
  rw [Provider.PartialToolCall.record, hpart.1, hpart.2]
  rfl

theorem convertToolCall_printedRecord {call : Chat.ToolCall} (hcall : Printable call.arguments) :
    convertToolCall (printedRecord call) = .ok call := by
  rw [convertToolCall, printedRecord]
  simp only [hcall.ofText_text]
  rfl

theorem convertToolCalls_printedRecord {calls : List Chat.ToolCall}
    (hcalls : ∀ call ∈ calls, Printable call.arguments) :
    convertToolCalls (calls.map printedRecord) = .ok calls := by
  induction calls with
  | nil => rfl
  | cons call calls ih =>
      obtain ⟨hcall, hrest⟩ := List.forall_mem_cons.1 hcalls
      rw [List.map_cons, convertToolCalls_cons, convertToolCall_printedRecord hcall, ih hrest]

theorem map_record_of_isPrinted {parts : List Provider.PartialToolCall} {calls : List Chat.ToolCall}
    (hparts : List.Forall₂ IsPrinted parts calls) :
    parts.map (·.record) = calls.map printedRecord := by
  induction hparts with
  | nil => rfl
  | cons hpart _ ih => rw [List.map_cons, List.map_cons, hpart.record, ih]

/-- Printing the arguments of calls and converting the calls gives the calls again, whether they are
those of a whole message or come within chunks. -/
theorem printed_calls_convert_back {calls : List Chat.ToolCall}
    (hcalls : ∀ call ∈ calls, Printable call.arguments) :
    convertToolCalls ((calls.map printedCall).map (·.record)) = .ok calls ∧
      ∀ parts, List.Forall₂ IsPrinted parts calls →
        convertToolCalls (parts.map (·.record)) = .ok calls := by
  have hconverted := convertToolCalls_printedRecord hcalls
  constructor
  · rw [List.map_map]
    exact hconverted
  · intro parts hparts
    rw [map_record_of_isPrinted hparts]
    exact hconverted

/-- A call with characters that have to be escaped and the ends of both ranges of whole numbers. -/
def farCall : Chat.ToolCall where
  callId := "call_1"
  toolName := "measure"
  arguments := .ofList
    [("range", .array [.whole (.ofInt64 Int64.minValue), .whole ⟨0xffffffffffffffff, by decide⟩]),
      ("unit", .object [("", .null), ("\"\\\x01é", .string "\n\x7f")])]

theorem farCall_converts_back :
    Printable farCall.arguments ∧
      convertToolCalls [(printedCall farCall).record] = .ok [farCall] := by
  have hprintable : Printable farCall.arguments := by
    constructor <;> decide +kernel
  have hcalls : ∀ call ∈ [farCall], Printable call.arguments := by simpa using hprintable
  exact ⟨hprintable, (printed_calls_convert_back hcalls).1⟩

end Conversion

end StackBridge
