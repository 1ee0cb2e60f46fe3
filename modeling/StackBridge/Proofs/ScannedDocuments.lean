/-
The tokens of a whole document that is a mapping. All of its characters can be written as they are,
so the text is scanned, and the blocks that are open at its end are closed there.
-/
import StackBridge.Proofs.ScannedNodes

namespace StackBridge.Yaml

theorem isAllowed_of_isPrintable {c : Char} (hc : isPrintable c = true) : isAllowed c = true := by
  simp only [isPrintable, isAllowed, Bool.or_eq_true, Bool.and_eq_true, decide_eq_true_eq] at hc ⊢
  omega

/-- Whether all characters of a text can be written as they are. -/
def Printable (cs : List Char) : Prop :=
  ∀ c ∈ cs, isPrintable c = true

theorem printable_append {front back : List Char} :
    Printable (front ++ back) ↔ Printable front ∧ Printable back :=
  List.forall_mem_append

theorem printable_cons {c : Char} {cs : List Char} :
    Printable (c :: cs) ↔ isPrintable c = true ∧ Printable cs :=
  List.forall_mem_cons

theorem printable_spaces (count : Nat) : Printable (spaces count) := by
  intro c hc
  rw [(List.mem_replicate.1 hc).2]
  decide

theorem printable_wordChars {cs : List Char} (hcs : Printable cs) (place : Place) :
    Printable (place.wordChars cs) := by
  unfold Place.wordChars
  split
  · exact hcs
  · exact printable_cons.2 ⟨by decide, hcs⟩

theorem printable_closeLine {cs : List Char} (hcs : Printable cs) : Printable (closeLine cs) := by
  unfold closeLine
  split
  · exact hcs
  · exact printable_append.2 ⟨hcs, by simp [Printable, isPrintable]⟩

theorem printable_inline {tag cs : List Char} (htag : Printable tag) (hcs : Printable cs)
    (place : Place) : Printable (place.inline tag cs) := by
  unfold Place.inline
  refine printable_closeLine ?_
  split
  · exact printable_wordChars hcs place
  · exact printable_append.2 ⟨printable_wordChars htag place, printable_cons.2 ⟨by decide, hcs⟩⟩

theorem printable_opening {tag : List Char} (htag : Printable tag) (place : Place)
    (blockIndent : Nat) : Printable (place.opening blockIndent tag) := by
  have hline : Printable ('\n' :: spaces blockIndent) :=
    printable_cons.2 ⟨by decide, printable_spaces _⟩
  unfold Place.opening
  split
  · cases place with
    | root => exact List.forall_mem_nil _
    | value => exact hline
    | _ => exact printable_cons.2 ⟨by decide, List.forall_mem_nil _⟩
  · exact printable_append.2 ⟨printable_wordChars htag place, hline⟩

theorem printable_tag (name : String) : Printable (tagChars name) := by
  obtain ⟨-, -, -, hline⟩ := tagChars_line name
  exact fun c hc => (hline c hc).2

theorem printable_key {key : Value} {cs : List Char} (hkey : inlineKey? key = some cs) :
    Printable cs := by
  obtain ⟨tag, word, kinds, hword, rfl, -⟩ := inlineKey_cases hkey
  refine printable_append.2 ⟨?_, ?_⟩
  · cases tag with
    | none => exact List.forall_mem_nil _
    | some name =>
        exact printable_append.2 ⟨printable_tag name, by simp [Printable, isPrintable]⟩
  · cases hword with
    | scalar hwritten => exact hwritten.printable 0
    | brackets hbrackets => cases hbrackets <;> simp [Printable, isPrintable]

mutual

/-- The text of a node can be written as it is. -/
theorem printable_node (place : Place) (indent : Nat) : (tag : List Char) → Printable tag →
    (value : Value) → Printable (nodeChars place indent tag value)
  | _, _, .tagged name value => printable_node place indent _ (printable_tag name) value
  | _, htag, .sequence [] => printable_inline htag (by simp [Printable, isPrintable]) place
  | _, htag, .mapping [] => printable_inline htag (by simp [Printable, isPrintable]) place
  | _, htag, .sequence (item :: rest) =>
      printable_append.2 ⟨printable_opening htag place _, printable_items _ (item :: rest)⟩
  | _, htag, .mapping (entry :: rest) =>
      printable_append.2 ⟨printable_opening htag place _, printable_entries _ (entry :: rest)⟩
  | _, htag, .null =>
    printable_inline htag ((@written_of_scalarForm .null _ _ rfl).printable indent) place
  | _, htag, .bool b =>
      printable_inline htag ((@written_of_scalarForm (.bool b) _ _ rfl).printable indent) place
  | _, htag, .number n =>
      printable_inline htag ((@written_of_scalarForm (.number n) _ _ rfl).printable indent) place
  | _, htag, .string s => printable_inline htag ((written_styleOf s).printable _) place

theorem printable_items (indent : Nat) : (items : List Value) → Printable (itemsChars indent items)
  | [] => List.forall_mem_nil _
  | item :: rest => by
      refine printable_append.2 ⟨printable_cons.2 ⟨by decide,
        printable_node .item indent [] (List.forall_mem_nil _) item⟩, ?_⟩
      split
      · exact List.forall_mem_nil _
      · exact printable_append.2 ⟨printable_spaces indent, printable_items indent rest⟩

theorem printable_entries (indent : Nat) :
    (entries : List (Value × Value)) → Printable (entriesChars indent entries)
  | [] => List.forall_mem_nil _
  | (key, value) :: rest => by
      rw [entriesChars_cons]
      refine printable_append.2 ⟨?_, ?_⟩
      · unfold entryChars
        split
        · rename_i hkey
          exact printable_append.2 ⟨printable_key hkey, printable_cons.2 ⟨by decide,
            printable_node .value indent [] (List.forall_mem_nil _) value⟩⟩
        · exact printable_append.2 ⟨printable_append.2 ⟨printable_cons.2 ⟨by decide,
            printable_node .part indent [] (List.forall_mem_nil _) key⟩, printable_spaces indent⟩,
            printable_cons.2 ⟨by decide,
              printable_node .part indent [] (List.forall_mem_nil _) value⟩⟩
      · split
        · exact List.forall_mem_nil _
        · exact printable_append.2 ⟨printable_spaces indent, printable_entries indent rest⟩

end

namespace Scan

variable {scan : Scan} {ks : List TokenKind} {blocks : List Int}

/-- At the end of a text that ends a line the open blocks are closed. -/
theorem At.takesEnd (hat : scan.At ⟨[], 0, ks, true, none, blocks⟩) :
    ∃ last, (scan.takeToken >>= dropStale) = .ok last ∧ last.finished = true ∧
      last.kinds = ks ++ closings (-1) blocks ++ [.streamEnd] := by
  have hnone : scan.candidate = none := hat.pending
  have hcolumn : scan.mark.column = 0 := hat.column
  obtain ⟨indent, indents, tokens, hclosed, -, hkinds⟩ := closeBlocksFrom_eq (-1) scan.indents scan
  have hclose : scan.closeBlocks (-1) = { scan with indent, indents, tokens } := by
    rw [closeBlocks, if_neg (by simp [hat.inFlow]), hclosed]
  have htake : scan.takeToken = .ok { scan with
      indent, indents, tokens := tokens.push ⟨.streamEnd, scan.mark, scan.mark⟩
      keyAllowed := false, finished := true } := by
    have hend : scan.takeToken = scan.takeEnd := by
      unfold takeToken
      simp [hat.cursor_eq, Cursor.at?]
    have hstays : scan.takeEnd = (do
        let scan ← (scan.closeBlocks (-1)).dropCandidate
        return { scan.pushHere .streamEnd with keyAllowed := false, finished := true }) := by
      unfold takeEnd
      simp only [hcolumn, if_true]
      rfl
    rw [hend, hstays, hclose, dropCandidate]
    simp only [hnone]
    rfl
  let last : Scan := { scan with
    indent, indents, tokens := tokens.push ⟨.streamEnd, scan.mark, scan.mark⟩
    keyAllowed := false, finished := true }
  have hkept : last.refresh last.candidate = .ok none := by
    rw [show last.candidate = none from hnone]
    rfl
  have hdrop : last.dropStale = .ok { last with candidate := none } :=
    dropStale_of_refresh hat.outer hkept
  refine ⟨{ last with candidate := none }, ?_, rfl, ?_⟩
  · rw [htake]
    exact hdrop
  · change (tokens.push _).toList.map (·.kind) = _
    rw [Array.toList_push, List.map_append, hkinds, hat.kinds, hat.blocks]
    rfl

end Scan

/-- A run that arrives at the end of its text has all tokens. -/
theorem run_of_reaches {scan : Scan} {length : Nat} {ks : List TokenKind} {blocks : List Int}
    (hreaches : scan.Reaches length ⟨[], 0, ks, true, none, blocks⟩) {fuel : Nat}
    (hfuel : length + 2 ≤ fuel) : ∃ tokens, Scan.run fuel scan = (tokens, none) ∧
      tokens.map (·.kind) = ks ++ closings (-1) blocks ++ [.streamEnd] := by
  obtain ⟨steps, next, hnext, hless, hrun⟩ := hreaches
  obtain ⟨landed, hlanded, hstep⟩ := hnext.step
  obtain ⟨last, hlast, hfinished, hkinds⟩ := hlanded.takesEnd
  simp only [List.length_nil] at hless
  obtain ⟨more, rfl⟩ : ∃ more, fuel = steps + (1 + (more + 1)) := ⟨fuel - steps - 2, by omega⟩
  refine ⟨last.tokens.toList, ?_, hkinds⟩
  rw [hrun, Scan.run_of_step hnext.going (hstep.trans hlast), Scan.run, hfinished]
  rfl

theorem forbiddenOffset?_of_printable {cs : List Char} (hcs : Printable cs) (offset : Nat) :
    forbiddenOffset? offset cs = none := by
  induction cs generalizing offset with
  | nil => rfl
  | cons c rest ih =>
      obtain ⟨hc, hrest⟩ := printable_cons.1 hcs
      rw [forbiddenOffset?, if_pos (isAllowed_of_isPrintable hc), ih hrest]

/-- The tokens of the document that a mapping is written as. -/
theorem tokensOf_mapping {entry : Value × Value} {entries : List (Value × Value)} {tagTaken : Bool}
    (htags : Value.TagsWithinEntries LegibleTag tagTaken (entry :: entries)) :
    ∃ tokens, tokensOf (String.ofList (Value.mapping (entry :: entries)).chars) = (tokens, none) ∧
      tokens.map (·.kind) = .streamStart :: .blockMappingStart ::
        (entriesKinds (entry :: entries) ++ [.blockEnd, .streamEnd]) := by
  have hchars : (Value.mapping (entry :: entries)).chars = entriesChars 0 (entry :: entries) := rfl
  have hprintable := printable_entries 0 (entry :: entries)
  have hstarts := startsToken_entries entry entries 0 []
  have hscans : ScansEntries (entry :: entries) :=
    scans_entries (List.cons_ne_nil _ _) (scans_all_entries (entry :: entries) htags)
  have hend : Scan.StartsToken [] := ⟨by simp [Lexer.StartsWord], by simp⟩
  have hleads := hscans [.streamStart] [] (show (-1 : Int) ≤ (0 : Nat) by decide)
    (Nat.le_refl 0) hend
  rw [hchars]
  generalize entriesChars 0 (entry :: entries) = cs at hprintable hstarts hleads ⊢
  rw [List.append_nil] at hstarts
  rw [List.replicate_zero, List.nil_append, List.append_nil] at hleads
  have hat : Scan.At
    { cursor := .start (String.ofList cs), tokens := #[⟨.streamStart, .start, .start⟩] }
      ⟨cs, 0, [.streamStart], true, none, [-1]⟩ := by
    constructor
    case rest => exact String.toList_ofList
    case noMark =>
      rintro - hmark
      exact absurd (hprintable '\ufeff' (List.mem_of_mem_head? hmark)) (by decide)
    all_goals rfl
  have hgoes := Scan.goes_trans
    (Scan.goes_of_word hstarts (Scan.droppable_none.lasts 0) (by decide))
    hleads
  have hlength : (String.ofList cs).length = cs.length := by
    rw [← String.length_toList, String.toList_ofList]
  have hfuel : cs.length + 2 ≤ 2 * (String.ofList cs).length + 2 := by omega
  obtain ⟨tokens, htokens, hkinds⟩ := run_of_reaches (hgoes _ hat) hfuel
  refine ⟨tokens, ?_, hkinds.trans ?_⟩
  · unfold tokensOf
    rw [String.toList_ofList, forbiddenOffset?_of_printable hprintable]
    exact htokens
  · simp [openings, opened, closings, openAt]

end StackBridge.Yaml
