/-
A stream takes no more from its source than what it hands out stems from. The invariant counts: the
events handed out and those that wait are together the parts of the items taken, and the last item
was taken only after the parts of all items before it had been handed out.
-/
import StackBridge.Proofs.Transcript

namespace StackBridge.Conversion

open Chat (EventChunk EventType)

/-- The parts of a source, each with the place of the item that it stems from. -/
def attributed (source : List SourceItem) : List (Part × Nat) :=
  source.zipIdx.flatMap fun (item, place) => (itemParts item).map (·, place)

/-- Whether a result is the event that closes its stream. -/
def IsComplete (item : StreamItem) : Prop :=
  ∃ chunk, item = .ok chunk ∧ chunk.event.eventType = .complete

/-- Where a stream stands that has taken `before` from its source, has handed out `count` events of
it, and has not come to its end. -/
structure Underway (before : List SourceItem) (count : Nat) (state : StreamState) : Prop where
  waiting : count + state.pending.length = (before.flatMap itemParts).length
  needed : (before.dropLast.flatMap itemParts).length ≤ count
  unfinished : state.finished = false

namespace Underway

variable {before : List SourceItem} {count : Nat} {state : StreamState}

theorem start : Underway [] 0 {} :=
  ⟨rfl, Nat.le_refl 0, rfl⟩

theorem takeItem (hunder : Underway before count state) (hidle : state.Idle)
    (item : SourceItem) : Underway (before ++ [item]) count (state.takeItem item) := by
  have hcount : count = (before.flatMap itemParts).length := by
    simpa [hidle.1] using hunder.waiting
  rw [StreamState.takeItem_eq]
  refine ⟨?_, ?_, hunder.unfinished⟩
  · simp [hidle.1, hcount]
  · rw [List.dropLast_concat]
    exact Nat.le_of_eq hcount.symm

theorem settled (hunder : Underway before count state) (source : List SourceItem) :
    Underway (before ++ state.needs source) count (state.settled source) := by
  induction source generalizing before state with
  | nil =>
      change Underway (before ++ []) count state
      rwa [List.append_nil]
  | cons item rest ih =>
      by_cases hidle : state.Idle
      · rw [StreamState.needs_of_idle hidle, StreamState.settled_of_idle hidle,
          List.append_cons]
        exact ih (hunder.takeItem hidle item)
      · rw [StreamState.needs_of_not_idle hidle, StreamState.settled_of_not_idle hidle,
          List.append_nil]
        exact hunder

theorem handOut (hunder : Underway before count state) {event : EventChunk}
    {rest : List StreamItem} (hpending : state.pending = .ok event :: rest) :
    Underway before (count + 1) state.handOut.2 := by
  have hwaiting := hunder.waiting
  rw [hpending, List.length_cons] at hwaiting
  rw [StreamState.handOut_of_ok hpending]
  refine ⟨?_, ?_, hunder.unfinished⟩
  · change count + 1 + rest.length = _
    omega
  · exact Nat.le_succ_of_le hunder.needed

/-- What waits first stems from the item that was taken last. -/
theorem of_waiting (hunder : Underway before count state) (hpending : state.pending ≠ []) :
    ∃ earlier last, before = earlier ++ [last] ∧ (earlier.flatMap itemParts).length ≤ count ∧
      count < ((earlier ++ [last]).flatMap itemParts).length := by
  have hpos : 0 < state.pending.length := List.length_pos_iff.mpr hpending
  have hwaiting := hunder.waiting
  have hne : before ≠ [] := by
    rintro rfl
    simp only [List.flatMap_nil, List.length_nil] at hwaiting
    omega
  refine ⟨before.dropLast, before.getLast hne, ?_, hunder.needed, ?_⟩
  · exact (List.dropLast_concat_getLast hne).symm
  · rw [List.dropLast_concat_getLast hne]
    omega

end Underway

/-- The state out of which a pull hands something out. -/
theorem pull_underway {before : List SourceItem} {count : Nat} {stream : EventStream}
    (hunder : Underway before count stream.state) :
    ∃ settled, Underway (before ++ stream.taken) count settled ∧
      (settled.Idle → stream.pull.stream.source = []) ∧
      settled.handOut = (stream.pull.item, stream.pull.stream.state) := by
  refine ⟨stream.state.settled stream.source, hunder.settled stream.source, ?_, ?_⟩
  · intro hidle
    have hall : stream.taken = stream.source := StreamState.needs_eq_of_settled_idle hidle
    have hsplit := stream.taken_append_source
    rw [hall] at hsplit
    exact List.append_right_eq_self.mp hsplit
  · rw [stream.pull_item, stream.pull_state]

/-- The state out of which a pull of a run was handed, and what the run had taken by then. -/
theorem pulls_underway {before : List SourceItem} {count limit k : Nat} {stream : EventStream}
    (hunder : Underway before count stream.state) {pull : Pull}
    (hpull : (stream.pulls limit)[k]? = some pull) (hitem : pull.item ≠ none) :
    ∃ taken settled, stream.source = taken ++ pull.stream.source ∧
      Underway (before ++ taken) (count + k) settled ∧
      (settled.Idle → pull.stream.source = []) ∧
      settled.handOut = (pull.item, pull.stream.state) ∧
      gainedBy (stream.pulls (k + 1)) = taken.flatMap itemAdvisories := by
  obtain ⟨settled, hsettled, hidle, hout⟩ := pull_underway hunder
  induction k generalizing before count limit stream settled with
  | zero =>
      obtain _ | limit := limit
      · simp [EventStream.pulls] at hpull
      · rw [EventStream.pulls_succ, List.getElem?_cons_zero, Option.some.injEq] at hpull
        subst hpull
        refine ⟨stream.taken, settled, stream.taken_append_source.symm, hsettled, hidle, hout, ?_⟩
        rw [EventStream.pulls_succ, ← stream.pull_gained]
        simp [gainedBy, EventStream.pulls]
  | succ k ih =>
      obtain _ | limit := limit
      · simp [EventStream.pulls] at hpull
      · rw [EventStream.pulls_succ, List.getElem?_cons_succ] at hpull
        split at hpull
        case isFalse => simp at hpull
        case isTrue hsome =>
          rcases handOut_event_or_over settled with ⟨event, rest, hpending⟩ | hover
          · have hnext := hsettled.handOut hpending
            rw [hout] at hnext
            obtain ⟨next, hnextSettled, hnextIdle, hnextOut⟩ := pull_underway hnext
            obtain ⟨taken, last, hsource, hlast, hlastIdle, hlastOut, hgained⟩ :=
              ih hnext hpull next hnextSettled hnextIdle hnextOut
            refine ⟨stream.taken ++ taken, last, ?_, ?_, hlastIdle, hlastOut, ?_⟩
            · rw [List.append_assoc, ← hsource]
              exact stream.taken_append_source.symm
            · rw [← List.append_assoc, Nat.add_comm k 1, ← Nat.add_assoc]
              exact hlast
            · rw [EventStream.pulls_succ, if_pos hsome, List.flatMap_append, ← hgained,
                ← stream.pull_gained]
              rfl
          · -- a stream that is over hands out nothing more, and this pull handed something out
            rw [hout] at hover
            exact absurd (item_of_over hover hpull) hitem

/-- The result at some place in a run is the one at that place of the outlook. -/
theorem outlook_getElem? {stream : EventStream} {limit k : Nat} {pull : Pull} {item : StreamItem}
    (hpull : (stream.pulls limit)[k]? = some pull) (hitem : pull.item = some item) :
    stream.outlook[k]? = some item := by
  have hmap : ((stream.pulls limit).map (·.item))[k]? = some (some item) := by
    rw [List.getElem?_map, hpull, Option.map_some, hitem]
  rw [map_item_pulls] at hmap
  have hlt : k < limit := by
    obtain ⟨hlength, -⟩ := List.getElem?_eq_some_iff.mp hpull
    exact Nat.lt_of_lt_of_le hlength (pulls_length_le limit stream)
  rw [List.getElem?_take_of_lt hlt] at hmap
  by_cases hwithin : k < stream.outlook.length
  · rw [List.getElem?_append_left (by simpa using hwithin), List.getElem?_map] at hmap
    simpa using hmap
  · rw [List.getElem?_append_right (by simpa using hwithin)] at hmap
    simp [List.getElem?_singleton] at hmap

/-- Closing a list changes nothing in front of its end. -/
theorem closedBy_getElem? {closing items : List StreamItem} {k : Nat} {item : StreamItem}
    (hitem : (closedBy closing items)[k]? = some item) (hlt : k < items.length) :
    items[k]? = some item := by
  induction items generalizing k with
  | nil => simp at hlt
  | cons head rest ih =>
      cases head with
      | error failure =>
          cases k with
          | zero => exact hitem
          | succ k => simp [closedBy] at hitem
      | ok event =>
          cases k with
          | zero => exact hitem
          | succ k => exact ih hitem (Nat.lt_of_succ_lt_succ hlt)

theorem events_getElem? (parts : List Part) (k : Nat) :
    (events parts)[k]? =
      parts[k]?.map (Part.event (if k = 0 then .start else .progress)) := by
  cases parts with
  | nil => rfl
  | cons part rest =>
      cases k with
      | zero => rfl
      | succ k => simp [events]

/-- So many results as there are items before the cut do not depend on what follows. -/
theorem take_closedBy {count : Nat} (closing closing' more more' : List StreamItem)
    {items : List StreamItem} (hle : count ≤ items.length) :
    ((closedBy closing (items ++ more)).map some ++ [none]).take count =
      ((closedBy closing' (items ++ more')).map some ++ [none]).take count := by
  induction items generalizing count with
  | nil =>
      obtain rfl := Nat.eq_zero_of_le_zero hle
      rfl
  | cons item rest ih =>
      obtain _ | count := count
      · rfl
      · cases item with
        | error failure => rfl
        | ok event => exact congrArg (some (.ok event) :: ·) (ih (Nat.le_of_succ_le_succ hle))

theorem attributed_append (source more : List SourceItem) :
    attributed (source ++ more) =
      attributed source ++ (more.zipIdx source.length).flatMap fun (item, place) =>
        (itemParts item).map (·, place) := by
  simp [attributed, List.zipIdx_append]

theorem attributed_map_fst (source : List SourceItem) :
    (attributed source).map (·.1) = source.flatMap itemParts := by
  have hfrom : ∀ start, ((source.zipIdx start).flatMap fun (item, place) =>
      (itemParts item).map (·, place)).map (·.1) = source.flatMap itemParts := by
    induction source with
    | nil => simp
    | cons item rest ih => simp [List.zipIdx_cons, ih, Function.comp_def]
  exact hfrom 0

theorem attributed_length (source : List SourceItem) :
    (attributed source).length = (source.flatMap itemParts).length := by
  rw [← attributed_map_fst, List.length_map]

/-- The parts of one item stand in a row, behind those of all items before it. -/
theorem attributed_getElem? {earlier : List SourceItem} {item : SourceItem} {k : Nat}
    (hlow : (earlier.flatMap itemParts).length ≤ k)
    (hhigh : k < ((earlier ++ [item]).flatMap itemParts).length) (rest : List SourceItem) :
    ∃ part, (attributed (earlier ++ item :: rest))[k]? = some (part, earlier.length) := by
  have hlow' : (attributed earlier).length ≤ k := by rwa [attributed_length]
  have hhigh' : k - (attributed earlier).length < (itemParts item).length := by
    rw [attributed_length]
    simp only [List.flatMap_append, List.length_append, List.flatMap_singleton] at hhigh
    omega
  refine ⟨(itemParts item)[k - (attributed earlier).length], ?_⟩
  rw [attributed_append, List.getElem?_append_right hlow', List.zipIdx_cons, List.flatMap_cons,
    List.getElem?_append_left (by simpa using hhigh')]
  simp [hhigh']

theorem event_not_isComplete {eventType : EventType} (htype : eventType ≠ .complete)
    (part : Part) : ¬ IsComplete (part.event eventType) := by
  rintro ⟨chunk, hchunk, hcomplete⟩
  cases part with
  | error failure => cases hchunk
  | ok said =>
      cases hchunk
      exact htype hcomplete

/-- A result of a run either stems from the item that was taken last, or it closes the stream
because nothing was left to be taken or to be handed out. -/
theorem result_stems_from_last {source : List SourceItem} {limit k : Nat} {pull : Pull}
    {item : StreamItem} (hpull : ((EventStream.ofSource source).pulls limit)[k]? = some pull)
    (hitem : pull.item = some item) :
    (∃ earlier last, source = earlier ++ last :: pull.stream.source ∧
      (earlier.flatMap itemParts).length ≤ k ∧
      k < ((earlier ++ [last]).flatMap itemParts).length ∧
      gainedBy ((EventStream.ofSource source).pulls (k + 1)) =
        (earlier ++ [last]).flatMap itemAdvisories) ∨
    k = (source.flatMap itemParts).length ∧ pull.stream.source = [] ∧
      pull.stream.state.pending = [] ∧ IsComplete item := by
  have hstart : Underway [] 0 (EventStream.ofSource source).state := .start
  obtain ⟨taken, settled, hsource, hunder, hidle, hout, hgained⟩ :=
    pulls_underway hstart hpull (by simp [hitem])
  change source = taken ++ pull.stream.source at hsource
  rw [List.nil_append, Nat.zero_add] at hunder
  by_cases hpending : settled.pending = []
  · have hrest := hidle ⟨hpending, hunder.unfinished⟩
    have hwaiting := hunder.waiting
    rw [StreamState.handOut_of_idle ⟨hpending, hunder.unfinished⟩, hitem] at hout
    simp only [Prod.mk.injEq, Option.some.injEq] at hout
    obtain ⟨rfl, hstate⟩ := hout
    rw [hrest, List.append_nil] at hsource
    subst hsource
    refine Or.inr ⟨?_, hrest, ?_, settled.completion, rfl, rfl⟩
    · simpa [hpending] using hwaiting
    · rw [← hstate]
      exact hpending
  · obtain ⟨earlier, last, rfl, hlow, hhigh⟩ := hunder.of_waiting hpending
    refine Or.inl ⟨earlier, last, ?_, hlow, hhigh, hgained⟩
    rw [hsource, List.append_assoc]
    rfl

/-- Streams of sources with a common front agree on the results that stem from the front. -/
theorem items_agree {front : List SourceItem} (more more' : List SourceItem) {count : Nat}
    (hcount : count ≤ (front.flatMap itemParts).length) :
    ((EventStream.ofSource (front ++ more)).pulls count).map (·.item) =
      ((EventStream.ofSource (front ++ more')).pulls count).map (·.item) := by
  rw [map_item_pulls, map_item_pulls, outlook_ofSource, outlook_ofSource]
  rw [List.flatMap_append, List.flatMap_append, eventsFrom_append, eventsFrom_append]
  exact take_closedBy _ _ _ _ (by simpa using hcount)

/-- The place of a result determines what has been taken by then. -/
theorem front_unique {earlier earlier' rest rest' : List SourceItem} {last last' : SourceItem}
    {k : Nat} (hsame : earlier ++ last :: rest = earlier' ++ last' :: rest')
    (hlow : (earlier.flatMap itemParts).length ≤ k)
    (hhigh : k < ((earlier ++ [last]).flatMap itemParts).length)
    (hlow' : (earlier'.flatMap itemParts).length ≤ k)
    (hhigh' : k < ((earlier' ++ [last']).flatMap itemParts).length) :
    earlier = earlier' ∧ last = last' ∧ rest = rest' := by
  obtain ⟨part, hpart⟩ := attributed_getElem? hlow hhigh rest
  obtain ⟨part', hpart'⟩ := attributed_getElem? hlow' hhigh' rest'
  rw [hsame, hpart', Option.some.injEq, Prod.mk.injEq] at hpart
  obtain ⟨hfront, htail⟩ := List.append_inj hsame hpart.2.symm
  rw [List.cons.injEq] at htail
  exact ⟨hfront, htail⟩

/-- Streams of sources with a common front have recorded the same when they hand out what stems
from the last item of the front. -/
theorem advisories_agree {earlier more : List SourceItem} {last : SourceItem} {k : Nat}
    {pulls : List Pull} {item : StreamItem}
    (hpulls : pulls = (EventStream.ofSource (earlier ++ last :: more)).pulls (k + 1))
    (hitem : (pulls.map (·.item))[k]? = some (some item))
    (hlow : (earlier.flatMap itemParts).length ≤ k)
    (hhigh : k < ((earlier ++ [last]).flatMap itemParts).length) :
    gainedBy pulls = (earlier ++ [last]).flatMap itemAdvisories := by
  rw [List.getElem?_map, Option.map_eq_some_iff] at hitem
  obtain ⟨pull, hpull, hsome⟩ := hitem
  subst hpulls
  rcases result_stems_from_last hpull hsome with
    ⟨earlier', last', hsource, hlow', hhigh', hgained⟩ | ⟨hcount, -⟩
  · obtain ⟨rfl, rfl, -⟩ := front_unique hsource hlow hhigh hlow' hhigh'
    exact hgained
  · rw [List.append_cons, List.flatMap_append, List.length_append] at hcount
    omega

/-- What a run has handed out and recorded when it hands out what stems from an item does not depend
on what follows that item. -/
theorem runs_agree {earlier more : List SourceItem} {last : SourceItem} {limit k : Nat}
    {pull : Pull}
    {item : StreamItem}
    (hpull : ((EventStream.ofSource (earlier ++ last :: more)).pulls limit)[k]? = some pull)
    (hitem : pull.item = some item) (hlow : (earlier.flatMap itemParts).length ≤ k)
    (hhigh : k < ((earlier ++ [last]).flatMap itemParts).length) (more' : List SourceItem) :
    ((EventStream.ofSource (earlier ++ last :: more')).pulls (k + 1)).map (·.item) =
      ((EventStream.ofSource (earlier ++ last :: more)).pulls (k + 1)).map (·.item) ∧
    gainedBy ((EventStream.ofSource (earlier ++ last :: more')).pulls (k + 1)) =
      gainedBy ((EventStream.ofSource (earlier ++ last :: more)).pulls (k + 1)) := by
  have hitems := items_agree more' more (Nat.succ_le_of_lt hhigh)
  rw [← List.append_cons, ← List.append_cons] at hitems
  have hmine : (((EventStream.ofSource (earlier ++ last :: more)).pulls (k + 1)).map
      (·.item))[k]? = some (some item) := by
    obtain ⟨hlt, -⟩ := List.getElem?_eq_some_iff.mp hpull
    have hlimit := Nat.lt_of_lt_of_le hlt (pulls_length_le limit _)
    rw [← take_pulls hlimit, List.getElem?_map, List.getElem?_take_of_succ, hpull, Option.map_some,
      hitem]
  refine ⟨hitems, ?_⟩
  rw [advisories_agree rfl hmine hlow hhigh, advisories_agree rfl (hitems ▸ hmine) hlow hhigh]

/-- A result in front of the end is the event of the part at its place. -/
theorem item_eq_event {source : List SourceItem} {limit k : Nat} {pull : Pull} {item : StreamItem}
    (hpull : ((EventStream.ofSource source).pulls limit)[k]? = some pull)
    (hitem : pull.item = some item) {part : Part} {place : Nat}
    (hpart : (attributed source)[k]? = some (part, place)) :
    item = part.event (if k = 0 then .start else .progress) := by
  have hmem : (source.flatMap itemParts)[k]? = some part := by
    rw [← attributed_map_fst, List.getElem?_map, hpart]
    rfl
  have hevent := events_getElem? (source.flatMap itemParts) k
  rw [hmem, Option.map_some] at hevent
  obtain ⟨hlt, -⟩ := List.getElem?_eq_some_iff.mp hevent
  have hresult := outlook_getElem? hpull hitem
  rw [outlook_ofSource_eq_transcript] at hresult
  have hsame := (closedBy_getElem? hresult hlt).symm.trans hevent
  exact Option.some.inj hsame

/-- A result with the place of a part stems from it, and what is left of the source stands behind
the item of that part. -/
theorem front_of_part {source : List SourceItem} {limit k : Nat} {pull : Pull} {item : StreamItem}
    (hpull : ((EventStream.ofSource source).pulls limit)[k]? = some pull)
    (hitem : pull.item = some item) {part : Part} {place : Nat}
    (hpart : (attributed source)[k]? = some (part, place)) :
    ∃ earlier last, source = earlier ++ last :: pull.stream.source ∧ earlier.length = place ∧
      (earlier.flatMap itemParts).length ≤ k ∧
      k < ((earlier ++ [last]).flatMap itemParts).length := by
  rcases result_stems_from_last hpull hitem with
    ⟨earlier, last, hsource, hlow, hhigh, -⟩ | ⟨hcount, -⟩
  · obtain ⟨found, hfound⟩ := attributed_getElem? hlow hhigh pull.stream.source
    rw [← hsource, hpart, Option.some.injEq, Prod.mk.injEq] at hfound
    exact ⟨earlier, last, hsource, hfound.2.symm, hlow, hhigh⟩
  · rw [List.getElem?_eq_none (by rw [attributed_length]; omega)] at hpart
    cases hpart

/-- The event that closes a stream has the place behind all parts. -/
theorem isComplete_iff_last {source : List SourceItem} {limit k : Nat} {pull : Pull}
    {item : StreamItem} (hpull : ((EventStream.ofSource source).pulls limit)[k]? = some pull)
    (hitem : pull.item = some item) :
    (IsComplete item ↔ (attributed source)[k]? = none) ∧
      (IsComplete item → k = (attributed source).length ∧ pull.stream.source = [] ∧
        pull.stream.state.pending = []) := by
  rcases result_stems_from_last hpull hitem with
    ⟨earlier, last, hsource, hlow, hhigh, -⟩ | ⟨hcount, hrest, hpending, hcomplete⟩
  · obtain ⟨part, hpart⟩ := attributed_getElem? hlow hhigh pull.stream.source
    rw [← hsource] at hpart
    have hnot : ¬ IsComplete item := by
      rw [item_eq_event hpull hitem hpart]
      exact event_not_isComplete (by split <;> simp) part
    exact ⟨⟨fun hcomplete => absurd hcomplete hnot, fun hnone => by simp [hpart] at hnone⟩,
      fun hcomplete => absurd hcomplete hnot⟩
  · rw [← attributed_length] at hcount
    exact ⟨⟨fun _ => List.getElem?_eq_none (Nat.le_of_eq hcount.symm), fun _ => hcomplete⟩,
      fun _ => ⟨hcount, hrest, hpending⟩⟩

/-- A stream takes no more than it needs. A result that stems from the item at some place is handed
out when exactly the items up to that place have been taken, and neither it nor the results and
notices before it depend on what follows that place. Every other result closes the stream, after
all parts of the source. Behind a failure nothing is taken any more. -/
theorem pull_is_causal {source : List SourceItem} {limit k : Nat} {pull : Pull} {item : StreamItem}
    (hpull : ((EventStream.ofSource source).pulls limit)[k]? = some pull)
    (hitem : pull.item = some item) :
    (∀ part place, (attributed source)[k]? = some (part, place) →
      item = part.event (if k = 0 then .start else .progress) ∧
      place < source.length ∧ pull.stream.source = source.drop (place + 1) ∧
      ∀ other : List SourceItem, other.take (place + 1) = source.take (place + 1) →
        ((EventStream.ofSource other).pulls (k + 1)).map (·.item) =
          ((EventStream.ofSource source).pulls (k + 1)).map (·.item) ∧
        gainedBy ((EventStream.ofSource other).pulls (k + 1)) =
          gainedBy ((EventStream.ofSource source).pulls (k + 1))) ∧
    (IsComplete item ↔ (attributed source)[k]? = none) ∧
    (IsComplete item → k = (attributed source).length ∧ pull.stream.source = [] ∧
      pull.stream.state.pending = []) ∧
    (∀ failure, item = .error failure →
      ∀ count, (pull.stream.after count).source = pull.stream.source) := by
  obtain ⟨hlast, hend⟩ := isComplete_iff_last hpull hitem
  refine ⟨?_, hlast, hend, ?_⟩
  · intro part place hpart
    obtain ⟨earlier, last, hsource, rfl, hlow, hhigh⟩ := front_of_part hpull hitem hpart
    have hfront : source.take (earlier.length + 1) = earlier ++ [last] := by
      rw [hsource, List.append_cons]
      exact List.take_left' (by simp)
    refine ⟨item_eq_event hpull hitem hpart, ?_, ?_, ?_⟩
    · rw [hsource]
      simp
    · rw [hsource, List.append_cons]
      exact (List.drop_left' (by simp)).symm
    · intro other hother
      have hsplit : other = earlier ++ last :: other.drop (earlier.length + 1) := by
        rw [List.append_cons, ← hfront, ← hother, List.take_append_drop]
      rw [hsource] at hpull
      rw [hsource, hsplit]
      exact runs_agree hpull hitem hlow hhigh _
  · rintro failure rfl count
    obtain ⟨before, rfl⟩ := mem_pulls (List.mem_of_getElem? hpull)
    rw [after_of_over (pull_over_of_failure hitem)]

/-- A chunk without choices, one with a text and a call, and a failure. -/
def mixedSource : List SourceItem :=
  [.ok {},
    .ok (.single { delta := {
      content := some "a"
      toolCalls := some [⟨0, some "c", none, some ⟨some "f", some "\x7b\x7d"⟩⟩] } }),
    .error (.chunkSource "gone")]

/-- The second event of the second chunk is handed out before the failure is taken. -/
theorem mixedSource_causal :
    ∃ pull item part, ((EventStream.ofSource mixedSource).pulls 4)[1]? = some pull ∧
      pull.item = some item ∧ (attributed mixedSource)[1]? = some (part, 1) ∧
      item = part.event .progress ∧ pull.stream.source = mixedSource.drop 2 := by
  have hcausal := @pull_is_causal mixedSource 4 1 _ _ rfl rfl
  obtain ⟨hevent, -, hsource, -⟩ := hcausal.1 _ _ rfl
  exact ⟨_, _, _, rfl, rfl, rfl, hevent, hsource⟩

end StackBridge.Conversion
