/-
The texts that scalars are written as: what they begin with, where they end, and that all of their
characters can be written as they are.
-/
import StackBridge.Proofs.TagNames

namespace StackBridge.Yaml

/-- What a text meets that is written in a style. -/
inductive Written (cs : List Char) : ScalarStyle → Prop
  | plain (hempty : cs ≠ []) (hallows : allowsPlain cs = true) : Written cs .plain
  | singleQuoted (hallows : allowsSingleQuotes cs = true) (hfeed : '\n' ∉ cs) :
      Written cs .singleQuoted
  | doubleQuoted : Written cs .doubleQuoted
  | literal (hallows : allowsLiteral cs = true) (hfeed : '\n' ∈ cs) : Written cs .literal

/-- The style of a text is one that it can be written in. -/
theorem written_styleOf (text : String) : Written text.toList (styleOf text) := by
  unfold styleOf
  simp only
  split
  · rename_i hfeed
    split
    · rename_i hallows
      exact .literal hallows (List.contains_iff_mem.1 hfeed)
    · exact .doubleQuoted
  · rename_i hfeed
    split
    · rename_i hplain
      obtain ⟨hreads, hallows⟩ := Bool.and_eq_true_iff.1 hplain
      refine .plain (fun hempty => ?_) hallows
      rw [String.toList_eq_nil_iff.1 hempty] at hreads
      exact absurd hreads (by decide)
    · unfold quoteStyle
      split
      · rename_i hallows
        exact .singleQuoted hallows fun hmem => hfeed (List.contains_iff_mem.2 hmem)
      · exact .doubleQuoted

/-- Every scalar is written in a style that its text allows. -/
theorem written_of_scalarForm {value : Value} {text : String} {style : ScalarStyle}
    (hform : scalarForm? value = some (text, style)) : Written text.toList style := by
  cases value with
  | null =>
      cases hform
      exact .plain (by decide) (by decide)
  | bool b =>
      cases hform
      cases b
      · exact .plain (by decide) (by decide)
      · exact .plain (by decide) (by decide)
  | number n =>
      cases hform
      exact .plain (allowsPlain_numberText n).1 (allowsPlain_numberText n).2
  | string =>
      cases hform
      exact written_styleOf text
  | _ => cases hform

namespace Written

variable {cs : List Char} {style : ScalarStyle} {indent : Nat}

theorem not_needsEscapes {cs : List Char} (hescapes : needsEscapes cs = false) :
    (∀ c ∈ cs, isPrintable c = true) ∧ hasPair isSpace isBreak cs = false := by
  obtain ⟨hprintable, hpair⟩ := Bool.or_eq_false_iff.1 hescapes
  exact ⟨fun c hc => by simpa using List.any_eq_false.1 hprintable c hc, hpair⟩

theorem singleText (hallows : allowsSingleQuotes cs = true) (hfeed : '\n' ∉ cs)
    (hindent : indent ≠ 0 ∨ ∀ c ∈ cs, isBreak c = false) : Lexer.SingleText indent cs := by
  unfold allowsSingleQuotes at hallows
  simp only [Bool.and_eq_true, Bool.not_eq_true'] at hallows
  obtain ⟨hprintable, hspaces⟩ := not_needsEscapes hallows.1
  refine ⟨fun c hc => ⟨hprintable c hc, ?_⟩, hspaces, hallows.2, hindent⟩
  rintro rfl
  exact hfeed hc

/-- The characters of lines are those of the text and of the indentation. -/
theorem mem_indentedLines {charText : Char → List Char} {lineStart : Bool} {c : Char}
    (hc : c ∈ indentedLines indent charText lineStart cs) :
    c = ' ' ∨ ∃ d ∈ cs, c = d ∨ c ∈ charText d := by
  induction cs generalizing lineStart with
  | nil => cases hc
  | cons d rest ih =>
      have hmore : ∀ {flag}, c ∈ indentedLines indent charText flag rest →
          c = ' ' ∨ ∃ e ∈ d :: rest, c = e ∨ c ∈ charText e := by
        intro flag hrest
        exact (ih hrest).imp_right fun ⟨e, he, hchar⟩ => ⟨e, List.mem_cons_of_mem d he, hchar⟩
      unfold indentedLines at hc
      split at hc
      · rcases List.mem_cons.1 hc with rfl | hrest
        · exact Or.inr ⟨c, List.mem_cons_self, Or.inl rfl⟩
        · exact hmore hrest
      · rcases List.mem_append.1 hc with hfront | hrest
        · rcases List.mem_append.1 hfront with hspace | hchar
          · split at hspace
            · exact Or.inl (List.mem_replicate.1 hspace).2
            · cases hspace
          · exact Or.inr ⟨d, List.mem_cons_self, Or.inr hchar⟩
        · exact hmore hrest

theorem mem_literalHints {c : Char} (hc : c ∈ literalHints cs) : c = '2' ∨ c = '-' ∨ c = '+' := by
  have hdigit : Nat.toDigits 10 indentWidth = ['2'] := by decide
  unfold literalHints at hc
  simp only [hdigit] at hc
  rcases List.mem_append.1 hc with hfirst | hsign
  · split at hfirst
    · exact Or.inl (List.mem_singleton.1 hfirst)
    · cases hfirst
  · split at hsign
    · split at hsign
      · exact Or.inr (Or.inl (List.mem_singleton.1 hsign))
      · split at hsign
        · exact Or.inr (Or.inr (List.mem_singleton.1 hsign))
        · cases hsign
    · exact Or.inr (Or.inl (List.mem_singleton.1 hsign))

/-- Everything that is written can be written as it is. -/
theorem printable (hwritten : Written cs style) (indent : Nat) :
    ∀ c ∈ styledChars indent cs style, isPrintable c = true := by
  have hlines : ∀ {charText : Char → List Char} {lineStart : Bool},
      (∀ c ∈ cs, isPrintable c = true) → (∀ d, ∀ c ∈ charText d, c = d ∨ c = '\'') →
        ∀ c ∈ indentedLines indent charText lineStart cs, isPrintable c = true := by
    intro charText lineStart hprintable hchars c hc
    rcases mem_indentedLines hc with rfl | ⟨d, hd, rfl | hchar⟩
    · decide
    · exact hprintable c hd
    · rcases hchars d c hchar with rfl | rfl
      · exact hprintable c hd
      · decide
  cases hwritten with
  | plain hempty hallows =>
      unfold allowsPlain at hallows
      simp only [Bool.and_eq_true, Bool.not_eq_true'] at hallows
      exact (not_needsEscapes hallows.1.1.1.2).1
  | singleQuoted hallows hfeed =>
      unfold allowsSingleQuotes at hallows
      simp only [Bool.and_eq_true, Bool.not_eq_true'] at hallows
      have hprintable := (not_needsEscapes hallows.1).1
      have hquote : ∀ d, ∀ c ∈ (if d = '\'' then ['\'', '\''] else [d]), c = d ∨ c = '\'' := by
        intro d c hc
        split at hc
        · exact Or.inr (by simpa using hc)
        · exact Or.inl (by simpa using hc)
      unfold styledChars
      refine List.forall_mem_append.2 ⟨List.forall_mem_cons.2 ⟨by decide, ?_⟩,
        List.forall_mem_singleton.2 (by decide)⟩
      refine List.forall_mem_append.2 ⟨hlines hprintable hquote, fun c hc => ?_⟩
      split at hc
      · rw [(List.mem_replicate.1 hc).2]
        decide
      · cases hc
  | doubleQuoted =>
      unfold styledChars
      refine List.forall_mem_append.2 ⟨List.forall_mem_cons.2 ⟨by decide, fun c hc => ?_⟩,
        List.forall_mem_singleton.2 (by decide)⟩
      obtain ⟨d, -, hd⟩ := List.mem_flatMap.1 hc
      exact ((Lexer.escapedChar_line d).1 c hd).2
  | literal hallows hfeed =>
      unfold allowsLiteral at hallows
      simp only [Bool.and_eq_true, Bool.not_eq_true'] at hallows
      have hprintable := (not_needsEscapes hallows.1.2).1
      unfold styledChars
      refine List.forall_mem_append.2 ⟨List.forall_mem_cons.2 ⟨by decide, fun c hc => ?_⟩,
        List.forall_mem_cons.2 ⟨by decide, ?_⟩⟩
      · rcases mem_literalHints hc with rfl | rfl | rfl <;> decide
      · exact hlines hprintable fun d c hc => Or.inl (by simpa using hc)

/-- A scalar begins with a character that is no blank, no break and no sign of a comment. -/
theorem first (hwritten : Written cs style) (indent : Nat) :
    ∃ c others, styledChars indent cs style = c :: others ∧ isBlank c = false ∧
      isBreak c = false ∧ c ≠ '#' := by
  cases hwritten with
  | plain hempty hallows =>
      have htext := plainText_of_allowsPlain hempty hallows
      obtain ⟨c, rest, rfl, hspace, hcomment⟩ := htext.first
      have hline := htext.line c List.mem_cons_self
      refine ⟨c, rest, rfl, ?_, hline.1, hcomment⟩
      rw [Bool.eq_false_iff]
      exact fun hblank => hspace (hline.2 hblank)
  | singleQuoted => exact ⟨'\'', _, rfl, by decide, by decide, by decide⟩
  | doubleQuoted => exact ⟨'"', _, rfl, by decide, by decide, by decide⟩
  | literal => exact ⟨'|', _, rfl, by decide, by decide, by decide⟩

theorem singleQuoted_line (hline : ∀ c ∈ cs, isBreak c = false) :
    styledChars indent cs .singleQuoted = '\'' :: cs.flatMap Lexer.doubledQuote ++ ['\''] := by
  have hlast : cs.getLast?.any isBreak = false := by
    cases hfound : cs.getLast? with
    | none => rfl
    | some c => exact hline c (List.mem_of_getLast? hfound)
  have hbody : singleQuotedBody indent cs = cs.flatMap Lexer.doubledQuote := by
    have hlines : indentedLines indent Lexer.doubledQuote false (cs ++ []) = _ :=
      Lexer.indentedLines_word hline []
    rw [List.append_nil] at hlines
    unfold singleQuotedBody
    rw [hlast]
    change indentedLines indent Lexer.doubledQuote false cs ++ _ = _
    rw [hlines]
    simp [indentedLines]
  rw [styledChars, hbody]

/-- The text of a scalar without breaks stands on one line and is not much longer. -/
theorem line (hwritten : Written cs style) (hline : ∀ c ∈ cs, isBreak c = false) (indent : Nat) :
    (styledChars indent cs style).length ≤ 4 * (String.ofList cs).utf8ByteSize + 2 ∧
      ∀ c ∈ styledChars indent cs style, isBreak c = false := by
  cases hwritten with
  | plain hempty hallows =>
      have hone : ∀ c : Char, [c].length ≤ 4 * c.utf8Size := by
        intro c
        have := c.utf8Size_pos
        rw [List.length_singleton]
        omega
      have hlength := length_flatMap_le hone cs
      rw [List.flatMap_singleton'] at hlength
      refine ⟨?_, hline⟩
      simp only [styledChars]
      omega
  | singleQuoted hallows hfeed =>
      have htwo : ∀ c, (Lexer.doubledQuote c).length ≤ 4 * c.utf8Size := by
        intro c
        have := c.utf8Size_pos
        unfold Lexer.doubledQuote
        split <;> simp only [List.length_cons, List.length_nil] <;> omega
      have hlength := length_flatMap_le htwo cs
      rw [singleQuoted_line hline]
      constructor
      · simp only [List.length_append, List.length_cons, List.length_nil]
        omega
      · refine List.forall_mem_append.2 ⟨List.forall_mem_cons.2 ⟨by decide, fun c hc => ?_⟩,
          List.forall_mem_singleton.2 (by decide)⟩
        exact Lexer.not_isBreak_of_mem_doubledQuote hline c hc
  | doubleQuoted =>
      have hlength := length_flatMap_le (fun c => (Lexer.escapedChar_line c).2.2.1) cs
      unfold styledChars
      constructor
      · simp only [List.length_append, List.length_cons, List.length_nil]
        omega
      · refine List.forall_mem_append.2 ⟨List.forall_mem_cons.2 ⟨by decide, fun c hc => ?_⟩,
          List.forall_mem_singleton.2 (by decide)⟩
        obtain ⟨d, -, hd⟩ := List.mem_flatMap.1 hc
        exact ((Lexer.escapedChar_line d).1 c hd).1
  | literal hallows hfeed => exact absurd (hline '\n' hfeed) (by decide)

end Written

/-- What ends the line of a scalar that has no end of its own. -/
def scalarEnd (cs : List Char) (style : ScalarStyle) : List Char :=
  if style = .literal then lineEnd cs else ['\n']

theorem closeLine_of_not_break {cs : List Char} (hlast : cs.getLast?.any isBreak = false) :
    closeLine cs = cs ++ ['\n'] :=
  if_neg (by simp [hlast])

/-- A scalar in any style ends its line, or the line is ended for it. -/
theorem Written.closeLine {cs : List Char} {style : ScalarStyle} (hwritten : Written cs style)
    (indent : Nat) (front : List Char) : closeLine (front ++ styledChars indent cs style) =
      front ++ styledChars indent cs style ++ scalarEnd cs style := by
  cases hwritten with
  | plain hempty hallows =>
      refine closeLine_of_not_break ?_
      obtain ⟨c, hc⟩ := Option.ne_none_iff_exists'.1 (mt List.getLast?_eq_none_iff.1 hempty)
      have hlast : (front ++ styledChars indent cs .plain).getLast? = some c := by
        rw [styledChars, List.getLast?_append, hc, Option.some_or]
      rw [hlast]
      exact ((plainText_of_allowsPlain hempty hallows).line c (List.mem_of_getLast? hc)).1
  | singleQuoted =>
      refine closeLine_of_not_break ?_
      rw [styledChars, ← List.append_assoc, List.getLast?_concat]
      rfl
  | doubleQuoted =>
      refine closeLine_of_not_break ?_
      rw [styledChars, ← List.append_assoc, List.getLast?_concat]
      rfl
  | literal hallows hfeed => exact closeLine_literal (List.ne_nil_of_mem hfeed) front

end StackBridge.Yaml
