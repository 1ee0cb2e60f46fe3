/-
Tags as they are written. A byte that cannot stand in a tag is written in hexadecimal digits, and
the bytes of one character are put together again. Three characters are written as they are although
only a tag between angle brackets can have them, so a tag with one of these is not read back.
-/
import StackBridge.Proofs.LiteralBlocks
import StackBridge.Proofs.ShownValues
import StackBridge.Yaml.Token.Name
import StackBridge.Yaml.Writing

namespace StackBridge.Yaml

theorem toList_loop (bytes : ByteArray) (place : Nat) (read : List UInt8) :
    ByteArray.toList.loop bytes place read = read.reverse ++ bytes.data.toList.drop place := by
  induction hleft : bytes.size - place generalizing place read with
  | zero =>
      have hsize : bytes.data.toList.length = bytes.size := rfl
      rw [ByteArray.toList.loop.eq_def, if_neg (by omega), List.drop_of_length_le (by omega),
        List.append_nil]
  | succ left ih =>
      have hsize : bytes.data.toList.length = bytes.size := rfl
      have hplace : place < bytes.data.toList.length := by omega
      have hget : bytes.get! place = bytes.data.toList[place] := by
        simp only [ByteArray.get!, Array.getElem_toList]
        exact getElem!_pos bytes.data place hplace
      rw [ByteArray.toList.loop.eq_def, if_pos (by omega), ih (place + 1) _ (by omega),
        List.reverse_cons, List.append_assoc, List.drop_eq_getElem_cons hplace, hget]
      rfl

theorem toList_toUTF8 (cs : List Char) :
    (String.ofList cs).toUTF8.toList = cs.flatMap String.utf8EncodeChar := by
  rw [ByteArray.toList, toList_loop, String.toUTF8_eq_toByteArray, String.toByteArray_ofList,
    List.utf8Encode, List.data_toByteArray]
  simp

theorem toList_toUTF8_char (c : Char) : c.toString.toUTF8.toList = String.utf8EncodeChar c := by
  rw [show c.toString = String.ofList [c] from rfl, toList_toUTF8]
  simp

theorem upperHex_byte {n : Nat} (hn : n < 256) : ∃ high low, upperHex 2 n = [high, low] ∧
    hexValue? high = some (n / 16) ∧ hexValue? low = some (n % 16) ∧ isBreak high = false ∧
    isBreak low = false := by
  have hlow := hexValue?_digitChar (Nat.mod_lt n (show 0 < 16 by decide))
  by_cases hsmall : n < 16
  · refine ⟨'0', (Nat.digitChar n).toUpper, ?_, ?_, ?_, by decide, ?_⟩
    · rw [upperHex, Nat.toDigits_eq_if (by decide), if_pos hsmall]
      rfl
    · rw [Nat.div_eq_of_lt hsmall]
      rfl
    · rw [Nat.mod_eq_of_lt hsmall] at hlow ⊢
      exact hlow.1
    · rw [Nat.mod_eq_of_lt hsmall] at hlow
      exact hlow.2.1
  · have hhigh := hexValue?_digitChar (show n / 16 < 16 by omega)
    refine ⟨(Nat.digitChar (n / 16)).toUpper, (Nat.digitChar (n % 16)).toUpper, ?_, hhigh.1, hlow.1,
      hhigh.2.1, hlow.2.1⟩
    rw [upperHex, Nat.toDigits_eq_if (by decide), if_neg hsmall, Nat.toDigits_eq_if (by decide),
      if_pos (show n / 16 < 16 by omega)]
    rfl

/-- Whether a byte stands in a tag as the character with that code. -/
def standsInTag (c : Char) : Bool :=
  isNameChar c || ";/?:@&=+$,.~*'()[]".toList.contains c

theorem tagByte_of_standsInTag {byte : UInt8} (hbyte : standsInTag (Char.ofNat byte.toNat) = true) :
    tagByte byte = [Char.ofNat byte.toNat] :=
  if_pos hbyte

theorem tagByte_of_not {byte : UInt8} (hbyte : standsInTag (Char.ofNat byte.toNat) = false) :
    tagByte byte = '%' :: upperHex 2 byte.toNat := by
  have hnot : ¬ standsInTag (Char.ofNat byte.toNat) = true := by simp [hbyte]
  exact if_neg hnot

theorem not_standsInTag {c : Char} (hc : 0x7f < c.toNat) : standsInTag c = false := by
  have hother : ∀ d : Char, d.toNat ≤ 0x7f → c ≠ d := by
    rintro d hd rfl
    omega
  have hname : isNameChar c = false := by
    have hle : ∀ d : Char, d.toNat ≤ 0x7f → ¬ c ≤ d := by
      intro d hd hcd
      have : c.toNat ≤ d.toNat := hcd
      omega
    simp [isNameChar, hle '9' (by decide), hle 'Z' (by decide), hle 'z' (by decide),
      hother '_' (by decide), hother '-' (by decide)]
  have hmarks : (";/?:@&=+$,.~*'()[]".toList.all fun d => d.toNat ≤ 0x7f) = true := by decide
  refine Bool.or_eq_false_iff.2 ⟨hname, Bool.eq_false_iff.2 fun hmem => ?_⟩
  have hsmall := of_decide_eq_true (List.all_eq_true.1 hmarks c (List.contains_iff_mem.1 hmem))
  omega

namespace Lexer

variable {activity : Activity} {start mark : Mark} {rest : List Char}

theorem lexes_escapedOctet (byte : UInt8) :
    (escapedOctet activity start).Lexes ⟨'%' :: (upperHex 2 byte.toNat ++ rest), mark⟩ byte
      ⟨rest, mark.over ('%' :: upperHex 2 byte.toNat)⟩ := by
  obtain ⟨high, low, hchars, hhigh, hlow, hhighLine, hlowLine⟩ := upperHex_byte byte.toNat_lt
  have hvalue : UInt8.ofNat (byte.toNat / 16 * 16 + byte.toNat % 16) = byte := by
    rw [show byte.toNat / 16 * 16 + byte.toNat % 16 = byte.toNat by omega, UInt8.ofNat_toNat]
  rw [hchars]
  unfold escapedOctet
  refine (lexes_get _).bind ?_
  simp only [List.cons_append, List.nil_append, hhigh, hlow]
  refine (lexes_advance (by decide) _ _).bind ((lexes_advance hhighLine _ _).bind ?_)
  refine (lexes_advance hlowLine _ _).bind ?_
  rw [hvalue]
  exact lexes_pure _ _

/-- Bytes that are written in hexadecimal digits. -/
def escapedBytes (bytes : List UInt8) : List Char :=
  bytes.flatMap fun byte => '%' :: upperHex 2 byte.toNat

/-- The octets behind the leading one are read from their escapes. -/
theorem lexes_trailingOctets (activity : Activity) (start : Mark) {bytes : List UInt8}
    (hbytes : ∀ byte ∈ bytes, byte.toNat / 64 = 2)
    (rest : List Char) (mark : Mark) :
    (trailingOctets activity start bytes.length).Lexes ⟨escapedBytes bytes ++ rest, mark⟩ bytes
      ⟨rest, mark.over (escapedBytes bytes)⟩ := by
  induction bytes generalizing mark with
  | nil => exact lexes_pure _ _
  | cons byte others ih =>
      obtain ⟨hbyte, hothers⟩ := List.forall_mem_cons.1 hbytes
      have hmore := ih hothers (mark.over ('%' :: upperHex 2 byte.toNat))
      rw [← Mark.over_append] at hmore
      have hchars : escapedBytes (byte :: others) =
          '%' :: upperHex 2 byte.toNat ++ escapedBytes others := rfl
      rw [hchars, List.append_assoc]
      refine (lexes_escapedOctet byte).bind ?_
      simp only [hbyte]
      exact hmore.bind (lexes_pure _ _)

/-- The bytes of a character: the first one announces how many there are. -/
theorem utf8EncodeChar_cases (c : Char) :
    (c.toNat ≤ 0x7f ∧ String.utf8EncodeChar c = [UInt8.ofNat c.toNat]) ∨
      0x7f < c.toNat ∧ ∃ first others, String.utf8EncodeChar c = first :: others ∧
        octetCount first.toNat = others.length + 1 ∧ (∀ byte ∈ others, byte.toNat / 64 = 2) ∧
        ∀ byte ∈ first :: others, 0x7f < byte.toNat := by
  have hcode : c.val.toNat = c.toNat := rfl
  have hbound : c.toNat < 0x110000 := by
    have hc : c.toNat < 0xd800 ∨ 0xdfff < c.toNat ∧ c.toNat < 0x110000 := c.valid
    omega
  have hbyte : ∀ n < 256, (UInt8.ofNat n).toNat = n := by
    intro n hn
    rw [UInt8.toNat_ofNat']
    exact Nat.mod_eq_of_lt hn
  unfold String.utf8EncodeChar
  simp only [hcode]
  split
  · exact Or.inl ⟨by assumption, rfl⟩
  · refine Or.inr ⟨by omega, ?_⟩
    split
    · refine ⟨_, _, rfl, ?_, ?_, ?_⟩
      · rw [hbyte _ (by omega)]
        simp only [octetCount, List.length_cons, List.length_nil]
        rw [if_neg (by omega), if_pos (by omega)]
      · simp only [List.forall_mem_cons, List.not_mem_nil, false_imp_iff, implies_true, and_true]
        rw [hbyte _ (by omega)]
        omega
      · simp only [List.forall_mem_cons, List.not_mem_nil, false_imp_iff, implies_true, and_true]
        rw [hbyte _ (by omega), hbyte _ (by omega)]
        omega
    · split
      · refine ⟨_, _, rfl, ?_, ?_, ?_⟩
        · rw [hbyte _ (by omega)]
          simp only [octetCount, List.length_cons, List.length_nil]
          rw [if_neg (by omega), if_neg (by omega), if_pos (by omega)]
        · simp only [List.forall_mem_cons, List.not_mem_nil, false_imp_iff, implies_true, and_true]
          rw [hbyte _ (by omega), hbyte _ (by omega)]
          omega
        · simp only [List.forall_mem_cons, List.not_mem_nil, false_imp_iff, implies_true, and_true]
          rw [hbyte _ (by omega), hbyte _ (by omega), hbyte _ (by omega)]
          omega
      · refine ⟨_, _, rfl, ?_, ?_, ?_⟩
        · rw [hbyte _ (by omega)]
          simp only [octetCount, List.length_cons, List.length_nil]
          rw [if_neg (by omega), if_neg (by omega), if_neg (by omega), if_pos (by omega)]
        · simp only [List.forall_mem_cons, List.not_mem_nil, false_imp_iff, implies_true, and_true]
          rw [hbyte _ (by omega), hbyte _ (by omega), hbyte _ (by omega)]
          omega
        · simp only [List.forall_mem_cons, List.not_mem_nil, false_imp_iff, implies_true, and_true]
          rw [hbyte _ (by omega), hbyte _ (by omega), hbyte _ (by omega), hbyte _ (by omega)]
          omega

/-- The characters that a tag has as they are written but not as they are read. -/
def isBracketedTagChar (c : Char) : Bool :=
  c = ',' || c = '[' || c = ']'

theorem isTagChar_of_standsInTag {c : Char} (hc : standsInTag c = true)
    (hplain : isBracketedTagChar c = false) : isTagChar false c = true ∧ c ≠ '%' := by
  constructor
  · unfold standsInTag at hc
    rcases Bool.or_eq_true_iff.1 hc with hname | hmark
    · simp [isTagChar, hname]
    · have hall : (";/?:@&=+$,.~*'()[]".toList.all fun c =>
          isBracketedTagChar c || isTagChar false c) = true := by decide
      simpa only [hplain, Bool.false_or] using
        List.all_eq_true.1 hall c (List.contains_iff_mem.1 hmark)
  · rintro rfl
    exact absurd hc (by decide)

/-- What a character of a tag is written as. -/
def tagChar (c : Char) : List Char :=
  (String.utf8EncodeChar c).flatMap tagByte

theorem tagBody_eq (cs : List Char) : tagBody cs = cs.flatMap tagChar := by
  rw [tagBody, toList_toUTF8, List.flatMap_assoc]
  rfl

theorem escapedBytes_of_not {bytes : List UInt8}
    (hbytes : ∀ byte ∈ bytes, standsInTag (Char.ofNat byte.toNat) = false) :
    bytes.flatMap tagByte = escapedBytes bytes :=
  List.flatMap_congr fun byte hbyte => tagByte_of_not (hbytes byte hbyte)

theorem toNat_ofNat_byte (byte : UInt8) : (Char.ofNat byte.toNat).toNat = byte.toNat := by
  have hbyte := byte.toNat_lt
  have hvalid : byte.toNat.isValidChar := Or.inl (by omega)
  rw [Char.ofNat, dif_pos hvalid]
  rfl

/-- A character of a tag is written as it is, or its bytes have escapes. -/
theorem tagChar_cases (c : Char) :
    (standsInTag c = true ∧ tagChar c = [c]) ∨
      (standsInTag c = false ∧ ∃ first others, String.utf8EncodeChar c = first :: others ∧
        tagChar c = escapedBytes (first :: others) ∧
        octetCount first.toNat = others.length + 1 ∧ ∀ byte ∈ others, byte.toNat / 64 = 2) := by
  rcases utf8EncodeChar_cases c with ⟨hsmall, hbytes⟩ |
    ⟨hwide, first, others, hbytes, hcount, hmore, hlarge⟩
  · have hcode : (UInt8.ofNat c.toNat).toNat = c.toNat := by
      rw [UInt8.toNat_ofNat']
      exact Nat.mod_eq_of_lt (by omega)
    have hchar : Char.ofNat (UInt8.ofNat c.toNat).toNat = c := by
      rw [hcode, Char.ofNat_toNat]
    by_cases hc : standsInTag c = true
    · refine Or.inl ⟨hc, ?_⟩
      rw [tagChar, hbytes, List.flatMap_singleton, tagByte_of_standsInTag (by rwa [hchar]), hchar]
    · rw [Bool.not_eq_true] at hc
      refine Or.inr ⟨hc, _, [], hbytes, ?_, ?_, by simp⟩
      · rw [tagChar, hbytes]
        refine escapedBytes_of_not fun byte hbyte => ?_
        rw [List.mem_singleton.1 hbyte, hchar]
        exact hc
      · rw [hcode, octetCount, if_pos (by omega)]
        rfl
  · refine Or.inr ⟨not_standsInTag hwide, first, others, hbytes, ?_, hcount, hmore⟩
    rw [tagChar, hbytes]
    refine escapedBytes_of_not fun byte hbyte => not_standsInTag ?_
    rw [toNat_ofNat_byte]
    exact hlarge byte hbyte

theorem standsInTag_line {c : Char} (hc : standsInTag c = true) :
    isBreak c = false ∧ isPrintable c = true := by
  have hmarks : (";/?:@&=+$,.~*'()[]".toList.all fun d =>
      decide (0x20 < d.toNat ∧ d.toNat ≤ 0x7e)) = true := by decide
  have hcode : 0x20 < c.toNat ∧ c.toNat ≤ 0x7e := by
    rcases Bool.or_eq_true_iff.1 hc with hname | hmark
    · simp only [isNameChar, Bool.or_eq_true, Bool.and_eq_true, decide_eq_true_eq] at hname
      have hrange : ∀ first last : Char, 0x20 < first.toNat → last.toNat ≤ 0x7e →
          first ≤ c ∧ c ≤ last → 0x20 < c.toNat ∧ c.toNat ≤ 0x7e := by
        intro first last hfirst hlast hbetween
        have hleft : first.toNat ≤ c.toNat := hbetween.1
        have hright : c.toNat ≤ last.toNat := hbetween.2
        omega
      rcases hname with (((hdigit | hupper) | hlower) | rfl) | rfl
      · exact hrange '0' '9' (by decide) (by decide) hdigit
      · exact hrange 'A' 'Z' (by decide) (by decide) hupper
      · exact hrange 'a' 'z' (by decide) (by decide) hlower
      · decide
      · decide
    · exact of_decide_eq_true (List.all_eq_true.1 hmarks c (List.contains_iff_mem.1 hmark))
  have hreturn : c ≠ '\r' := by
    rintro rfl
    exact absurd hcode.1 (by decide)
  have hfeed : c ≠ '\n' := by
    rintro rfl
    exact absurd hcode.1 (by decide)
  constructor
  · have hfar : c.toNat ≠ 0x85 ∧ c.toNat ≠ 0x2028 ∧ c.toNat ≠ 0x2029 := by omega
    simp [isBreak, hreturn, hfeed, hfar]
  · have hleast : 0x20 ≤ c.toNat := Nat.le_of_lt hcode.1
    simp [isPrintable, hleast, hcode.2]

/-- Whether nothing of a tag stands here. -/
def EndsTag : List Char → Prop
  | [] => True
  | c :: _ => isTagChar false c = false ∧ c ≠ '%'

theorem tagBytes_at_end (hrest : EndsTag rest) (steps : Nat) :
    (tagBytes false activity start steps).Lexes ⟨rest, mark⟩ [] ⟨rest, mark⟩ := by
  cases steps with
  | zero => exact lexes_pure _ _
  | succ steps =>
      unfold tagBytes
      refine (lexes_peek _ _).bind ?_
      cases rest with
      | nil => exact lexes_pure _ _
      | cons c others =>
          obtain ⟨hc, hpercent⟩ := hrest
          simp only [Cursor.at?, List.drop_zero, List.head?_cons]
          rw [if_neg (by simp [hc])]
          exact lexes_pure _ _

/-- The characters of a tag are read from what they are written as. -/
theorem lexes_tagBytes {cs : List Char} (hcs : ∀ c ∈ cs, isBracketedTagChar c = false)
    (hrest : EndsTag rest) {steps : Nat} (hsteps : cs.length ≤ steps) (mark : Mark) :
    (tagBytes false activity start steps).Lexes ⟨cs.flatMap tagChar ++ rest, mark⟩
      (cs.flatMap String.utf8EncodeChar) ⟨rest, mark.over (cs.flatMap tagChar)⟩ := by
  induction cs generalizing steps mark with
  | nil => exact tagBytes_at_end hrest steps
  | cons c others ih =>
      obtain ⟨steps, rfl⟩ : ∃ before, steps = before + 1 := ⟨steps - 1, by
        rw [List.length_cons] at hsteps
        omega⟩
      obtain ⟨hc, hothers⟩ := List.forall_mem_cons.1 hcs
      have hmore := ih hothers (Nat.le_of_succ_le_succ hsteps) (mark.over (tagChar c))
      rw [← Mark.over_append] at hmore
      rw [List.flatMap_cons, List.append_assoc, List.flatMap_cons]
      rcases tagChar_cases c with ⟨hstands, hchars⟩ |
        ⟨-, first, trailing, hbytes, hchars, hcount, htrail⟩
      · obtain ⟨htag, hpercent⟩ := isTagChar_of_standsInTag hstands hc
        have hline := (standsInTag_line hstands).1
        rw [hchars] at hmore ⊢
        unfold tagBytes
        refine (lexes_peek _ _).bind ?_
        simp only [Cursor.at?, List.drop_zero, List.cons_append, List.head?_cons]
        rw [if_pos htag]
        refine (lexes_advance hline _ _).bind (hmore.bind ?_)
        rw [toList_toUTF8_char]
        exact lexes_pure _ _
      · rw [hchars] at hmore ⊢
        have hcharacter : (escapedCharacter activity start).Lexes
            ⟨escapedBytes (first :: trailing) ++ (others.flatMap tagChar ++ rest), mark⟩
            (first :: trailing)
            ⟨others.flatMap tagChar ++ rest, mark.over (escapedBytes (first :: trailing))⟩ := by
          have htrailing := lexes_trailingOctets activity start htrail
            (others.flatMap tagChar ++ rest) (mark.over ('%' :: upperHex 2 first.toNat))
          rw [← Mark.over_append] at htrailing
          unfold escapedCharacter
          refine (lexes_here _).bind ?_
          rw [show escapedBytes (first :: trailing) =
            '%' :: upperHex 2 first.toNat ++ escapedBytes trailing from rfl, List.append_assoc]
          refine (lexes_escapedOctet first).bind ?_
          simp only [hcount]
          exact htrailing.bind (lexes_pure _ _)
        unfold tagBytes
        refine (lexes_peek _ _).bind ?_
        rw [hbytes]
        exact hcharacter.bind (hmore.bind (lexes_pure _ _))

theorem ne_zero_of_mem_bytes {c : Char} (hc : c ≠ '\x00') {byte : UInt8}
    (hbyte : byte ∈ String.utf8EncodeChar c) : byte ≠ 0 := by
  rintro rfl
  rcases utf8EncodeChar_cases c with ⟨hsmall, hbytes⟩ | ⟨-, first, others, hbytes, -, -, hlarge⟩
  · rw [hbytes, List.mem_singleton] at hbyte
    have hcode : (UInt8.ofNat c.toNat).toNat = c.toNat := by
      rw [UInt8.toNat_ofNat']
      exact Nat.mod_eq_of_lt (by omega)
    rw [← hbyte] at hcode
    have hzero : c = Char.ofNat 0 := by
      rw [← Char.ofNat_toNat c, ← hcode]
      rfl
    exact hc hzero
  · rw [hbytes] at hbyte
    exact absurd (hlarge 0 hbyte) (by decide)

theorem textOfTag_bytes {cs : List Char} (hcs : ∀ c ∈ cs, c ≠ '\x00') :
    textOfTag (cs.flatMap String.utf8EncodeChar) = String.ofList cs := by
  have htake : (cs.flatMap String.utf8EncodeChar).takeWhile (· ≠ 0) =
      cs.flatMap String.utf8EncodeChar := by
    have hall : ∀ byte ∈ cs.flatMap String.utf8EncodeChar, decide (byte ≠ 0) = true := by
      intro byte hbyte
      obtain ⟨c, hc, hmem⟩ := List.mem_flatMap.1 hbyte
      simpa using ne_zero_of_mem_bytes (hcs c hc) hmem
    have hnone : (cs.flatMap String.utf8EncodeChar ++ []).takeWhile
      (fun byte => decide (byte ≠ 0)) =
        cs.flatMap String.utf8EncodeChar ++ [].takeWhile (fun byte => decide (byte ≠ 0)) :=
      List.takeWhile_append_of_pos hall
    simpa using hnone
  have hbytes : (⟨(cs.flatMap String.utf8EncodeChar).toArray⟩ : ByteArray) =
      (String.ofList cs).toByteArray := by
    rw [String.toByteArray_ofList, List.utf8Encode]
    exact ByteArray.ext List.data_toByteArray.symm
  rw [textOfTag, htake, hbytes, String.fromUTF8?, dif_pos (String.ofList cs).isValidUTF8]
  rfl

def tagKind (name : String) : TokenKind :=
  match markedTag name with
  | ['!'] => .tag "" "!"
  | cs => .tag "!" (String.ofList (cs.drop 1))

/-- Whether a word ends here, at a space or at the end of the line. -/
def EndsWordHere (rest : List Char) : Prop :=
  rest.head? = some ' ' ∨ rest.head? = some '\n'

theorem endsTag_of_endsWordHere (hrest : EndsWordHere rest) : EndsTag rest := by
  cases rest with
  | nil => trivial
  | cons c others =>
      rcases hrest with hc | hc <;> obtain rfl := Option.some.inj hc <;> constructor <;> decide

/-- Behind the name in front there is neither a further character of a name nor a mark. -/
theorem head_tagChars {cs : List Char} (hcs : cs.head?.any isNameChar = false)
    (hrest : EndsWordHere rest) : ∃ c others, cs.flatMap tagChar ++ rest = c :: others ∧
      isNameChar c = false ∧ c ≠ '!' := by
  cases cs with
  | nil =>
      cases rest with
      | nil => rcases hrest with hc | hc <;> cases hc
      | cons c others =>
          refine ⟨c, others, rfl, ?_⟩
          rcases hrest with hc | hc <;> obtain rfl := Option.some.inj hc <;> constructor <;> decide
  | cons c more =>
      have hname : isNameChar c = false := by simpa using hcs
      rcases tagChar_cases c with ⟨hstands, hchars⟩ | ⟨-, first, others, -, hchars, -⟩
      · refine ⟨c, more.flatMap tagChar ++ rest, by simp [hchars], hname, ?_⟩
        rintro rfl
        exact absurd hstands (by decide)
      · refine ⟨'%', upperHex 2 first.toNat ++ escapedBytes others ++ more.flatMap tagChar ++ rest,
          ?_, by decide, by decide⟩
        simp [hchars, escapedBytes]

theorem tagChar_ne_nil (c : Char) : tagChar c ≠ [] := by
  rcases tagChar_cases c with ⟨-, hchars⟩ | ⟨-, first, others, -, hchars, -⟩
  · simp [hchars]
  · simp [hchars, escapedBytes]

theorem flatMap_tagChar_name {cs : List Char} (hcs : ∀ c ∈ cs, isNameChar c = true) :
    cs.flatMap tagChar = cs := by
  induction cs with
  | nil => rfl
  | cons c others ih =>
      obtain ⟨hc, hothers⟩ := List.forall_mem_cons.1 hcs
      have hstands : standsInTag c = true := by simp [standsInTag, hc]
      rcases tagChar_cases c with ⟨-, hchars⟩ | ⟨hnot, -⟩
      · rw [List.flatMap_cons, hchars, ih hothers]
        rfl
      · rw [hstands] at hnot
        cases hnot

/-- The handle and the suffix of a tag behind its mark. -/
theorem lexes_shorthandTag {cs : List Char} (hcs : cs ≠ [])
    (hchars : ∀ c ∈ cs, isBracketedTagChar c = false ∧ c ≠ '\x00') (hrest : EndsWordHere rest)
    (mark : Mark) :
    (shorthandTag start).Lexes ⟨'!' :: (cs.flatMap tagChar ++ rest), mark⟩ ("!", String.ofList cs)
      ⟨rest, mark.over ('!' :: cs.flatMap tagChar)⟩ := by
  obtain ⟨name, more, rfl, hname, hmore⟩ := exists_span isNameChar cs
  obtain ⟨c, others, hfirst, hother, hmark⟩ := head_tagChars hmore hrest
  have hline : ∀ c ∈ name, isNameChar c = true ∧ isBreak c = false := fun c hc =>
    ⟨hname c hc, (standsInTag_line (by simp [standsInTag, hname c hc])).1⟩
  have hhandle : (tagHandle false start).Lexes
      ⟨'!' :: ((name ++ more).flatMap tagChar ++ rest), mark⟩ ('!' :: name)
      ⟨more.flatMap tagChar ++ rest, mark.over ('!' :: name)⟩ := by
    rw [List.flatMap_append, flatMap_tagChar_name hname, List.append_assoc]
    unfold tagHandle
    refine (lexes_peek _ _).bind ?_
    rw [if_neg (by simp [Cursor.at?])]
    refine (lexes_advance (by decide) _ _).bind ?_
    refine (lexes_takeWhile hline (by simp [hfirst, hother]) _).bind ((lexes_peek _ _).bind ?_)
    rw [if_neg (by simp [Cursor.at?, hfirst, hmark])]
    exact lexes_pure _ _
  have hlast : ¬ (decide (1 < ('!' :: name).length) && decide (('!' :: name).getLast? = some '!')) =
      true := by
    rcases List.eq_nil_or_concat name with rfl | ⟨front, d, rfl⟩
    · simp
    · have hd : d ≠ '!' := by
        rintro rfl
        exact absurd (hname '!' (by simp)) (by decide)
      rw [List.concat_eq_append, ← List.cons_append, List.getLast?_concat]
      simp [hd]
  have htext : (tagText false .parsingTag start ('!' :: name)).Lexes
      ⟨more.flatMap tagChar ++ rest, mark.over ('!' :: name)⟩ (String.ofList (name ++ more))
      ⟨rest, (mark.over ('!' :: name)).over (more.flatMap tagChar)⟩ := by
    unfold tagText
    refine (lexes_remaining _).bind ?_
    refine (lexes_tagBytes (fun c hc => (hchars c (List.mem_append_right name hc)).1)
      (endsTag_of_endsWordHere hrest) ?_ _).bind ?_
    · have hlength := length_le_flatMap tagChar_ne_nil more
      simp only [List.length_append]
      omega
    · rw [if_neg (by simp), List.drop_succ_cons, List.drop_zero, toList_toUTF8,
        ← List.flatMap_append]
      change (pure (textOfTag _) : Lexer String).Lexes _ _ _
      rw [textOfTag_bytes fun c hc => (hchars c hc).2]
      exact lexes_pure _ _
  have hempty : String.ofList (name ++ more) ≠ "" := by
    intro hnone
    exact hcs (by simpa using congrArg String.toList hnone)
  unfold shorthandTag
  refine hhandle.bind ?_
  rw [if_neg hlast]
  refine htext.bind ?_
  rw [if_neg hempty, List.flatMap_append, flatMap_tagChar_name hname, ← List.cons_append,
    Mark.over_append]
  exact lexes_pure _ _

/-- The mark alone stands between angle brackets. -/
theorem lexes_verbatimTag (rest : List Char) (mark : Mark) :
    (verbatimTag start).Lexes ⟨'!' :: '<' :: ('%' :: upperHex 2 0x21 ++ '>' :: rest), mark⟩
      ("", "!")
      ⟨rest, mark.over ('!' :: '<' :: ('%' :: upperHex 2 0x21 ++ ['>']))⟩ := by
  have hcharacter : ∀ mark : Mark, (escapedCharacter .parsingTag start).Lexes
      ⟨'%' :: upperHex 2 0x21 ++ '>' :: rest, mark⟩ [0x21]
      ⟨'>' :: rest, mark.over ('%' :: upperHex 2 0x21)⟩ := by
    intro mark
    unfold escapedCharacter
    exact (lexes_here _).bind ((lexes_escapedOctet 0x21).bind (lexes_pure _ _))
  have hend : ∀ (steps : Nat) (mark : Mark),
      (tagBytes true .parsingTag start steps).Lexes ⟨'>' :: rest, mark⟩ [] ⟨'>' :: rest, mark⟩ := by
    intro steps mark
    cases steps with
    | zero => exact lexes_pure _ _
    | succ steps =>
        unfold tagBytes
        refine (lexes_peek _ _).bind ?_
        change (if isTagChar true '>' = true then _ else pure [] : Lexer (List UInt8)).Lexes _ _ _
        rw [if_neg (by decide)]
        exact lexes_pure _ _
  have htext : textOfTag [0x21] = "!" :=
    textOfTag_bytes (show ∀ c ∈ ['!'], c ≠ '\x00' by simp)
  have hsuffix : (tagText true .parsingTag start []).Lexes
      ⟨'%' :: upperHex 2 0x21 ++ '>' :: rest, (mark.past '!').past '<'⟩ "!"
      ⟨'>' :: rest, ((mark.past '!').past '<').over ('%' :: upperHex 2 0x21)⟩ := by
    unfold tagText
    refine (lexes_remaining _).bind ?_
    have hbytes : ∀ steps, (tagBytes true .parsingTag start (steps + 1)).Lexes
        ⟨'%' :: upperHex 2 0x21 ++ '>' :: rest, (mark.past '!').past '<'⟩ [0x21]
        ⟨'>' :: rest, ((mark.past '!').past '<').over ('%' :: upperHex 2 0x21)⟩ := by
      intro steps
      unfold tagBytes
      refine (lexes_peek _ _).bind ?_
      exact (hcharacter _).bind ((hend _ _).bind (lexes_pure _ _))
    refine (hbytes _).bind ?_
    rw [if_neg (by decide)]
    have hnone : (String.ofList (([] : List Char).drop 1)).toUTF8.toList = [] := by
      rw [toList_toUTF8]
      rfl
    rw [hnone]
    change (pure (textOfTag [0x21]) : Lexer String).Lexes _ _ _
    rw [htext]
    exact lexes_pure _ _
  have hover : mark.over ('!' :: '<' :: ('%' :: upperHex 2 0x21 ++ ['>'])) =
      (((mark.past '!').past '<').over ('%' :: upperHex 2 0x21)).past '>' := by
    rw [Mark.over_cons, Mark.over_cons, Mark.over_append]
    rfl
  unfold verbatimTag
  refine (lexes_advance (by decide) _ _).bind ((lexes_advance (by decide) _ _).bind ?_)
  refine hsuffix.bind ((lexes_peek _ _).bind ?_)
  rw [if_neg (by simp [Cursor.at?]), hover]
  exact (lexes_advance (by decide) _ _).bind (lexes_pure _ _)

/-- Behind its mark a tag has the characters of its name. -/
theorem markedTag_cases (name : String) :
    ∃ body, markedTag name = '!' :: body ∧ ∀ c ∈ body, c ∈ name.toList := by
  unfold markedTag
  split
  · rename_i hmark
    cases hchars : name.toList with
    | nil =>
        rw [hchars] at hmark
        cases hmark
    | cons c rest =>
        rw [hchars] at hmark
        cases hmark
        exact ⟨rest, rfl, fun d hd => List.mem_cons_of_mem '!' hd⟩
  · exact ⟨name.toList, rfl, fun _ hc => hc⟩

/-- A tag that a space or the end of the line follows. -/
theorem lexes_tag {name : String}
    (hchars : ∀ c ∈ name.toList, isBracketedTagChar c = false ∧ c ≠ '\x00')
    (hrest : EndsWordHere rest) (mark : Mark) :
    ∃ token, token.kind = tagKind name ∧
      (tag false).Lexes ⟨tagChars name ++ rest, mark⟩ token ⟨rest, mark.over (tagChars name)⟩ := by
  have hword : endsWord rest.head? = true := by
    rcases hrest with hc | hc <;> rw [hc] <;> decide
  have hbehind : ∀ {handle suffix : String}, tagKind name = .tag handle suffix →
      (∀ start, (if (Cursor.mk (tagChars name ++ rest) mark).at? 1 = some '<' then verbatimTag start
        else shorthandTag start).Lexes ⟨tagChars name ++ rest, mark⟩ (handle, suffix)
        ⟨rest, mark.over (tagChars name)⟩) →
      ∃ token, token.kind = tagKind name ∧
        (tag false).Lexes ⟨tagChars name ++ rest, mark⟩ token
          ⟨rest, mark.over (tagChars name)⟩ := by
    intro handle suffix hkind hread
    refine ⟨⟨.tag handle suffix, mark, mark.over (tagChars name)⟩, hkind.symm, ?_⟩
    unfold tag
    refine (lexes_here _).bind ((lexes_peek _ _).bind ?_)
    by_cases hangle : (Cursor.mk (tagChars name ++ rest) mark).at? 1 = some '<'
    · simp only [hangle, if_true] at hread ⊢
      refine (hread mark).bind ((lexes_peek _ _).bind ?_)
      rw [if_neg (by simp [Cursor.at?, hword])]
      exact (lexes_here _).bind (lexes_pure _ _)
    · simp only [hangle, if_false] at hread ⊢
      refine (hread mark).bind ((lexes_peek _ _).bind ?_)
      rw [if_neg (by simp [Cursor.at?, hword])]
      exact (lexes_here _).bind (lexes_pure _ _)
  obtain ⟨body, hmarked, hbody⟩ := markedTag_cases name
  cases body with
  | nil =>
      have hwritten : tagChars name = '!' :: '<' :: ('%' :: upperHex 2 0x21 ++ ['>']) := by
        rw [tagChars, hmarked]
        simp only [tagBody_eq]
        decide +kernel
      have hkind : tagKind name = .tag "" "!" := by
        rw [tagKind, hmarked]
        rfl
      refine hbehind hkind fun start => ?_
      rw [hwritten]
      exact lexes_verbatimTag rest mark
  | cons c others =>
      have hwritten : tagChars name = '!' :: (c :: others).flatMap tagChar := by
        rw [tagChars, hmarked]
        exact congrArg (List.cons '!') (tagBody_eq _)
      have hkind : tagKind name = .tag "!" (String.ofList (c :: others)) := by
        rw [tagKind, hmarked]
        rfl
      refine hbehind hkind fun start => ?_
      have hangle : (tagChar c).head? ≠ some '<' := by
        rcases tagChar_cases c with ⟨hstands, hchar⟩ | ⟨-, first, trailing, -, hchar, -⟩
        · rw [hchar]
          rintro hc
          obtain rfl := Option.some.inj hc
          exact absurd hstands (by decide)
        · rw [hchar]
          simp [escapedBytes]
      have hempty := tagChar_ne_nil c
      have hsecond : ¬ (Cursor.mk ('!' :: (c :: others).flatMap tagChar ++ rest) mark).at? 1 =
          some '<' := by
        obtain ⟨d, more, hsplit⟩ := List.exists_cons_of_ne_nil hempty
        rw [hsplit] at hangle
        simpa [Cursor.at?, hsplit] using hangle
      rw [hwritten, if_neg hsecond]
      exact lexes_shorthandTag (by simp) (fun d hd => hchars d (hbody d hd)) hrest mark

end Lexer

open Lexer (tagChar tagBody_eq markedTag_cases standsInTag_line isBracketedTagChar)

theorem tagByte_line (byte : UInt8) : (tagByte byte).length ≤ 3 ∧
    ∀ c ∈ tagByte byte, isBreak c = false ∧ isPrintable c = true := by
  cases hbyte : standsInTag (Char.ofNat byte.toNat) with
  | true =>
      rw [tagByte_of_standsInTag hbyte]
      exact ⟨by simp, by simpa using standsInTag_line hbyte⟩
  | false =>
      rw [tagByte_of_not hbyte]
      have hlength : (upperHex 2 byte.toNat).length = 2 := length_upperHex (by decide) byte.toNat_lt
      refine ⟨by simp [hlength], List.forall_mem_cons.2 ⟨by decide, fun c hc => upperHex_line hc⟩⟩

/-- A tag stays on its line, and takes at most three characters for each byte. -/
theorem tagBody_line (cs : List Char) :
    (tagBody cs).length ≤ 3 * (String.ofList cs).utf8ByteSize ∧
      ∀ c ∈ tagBody cs, isBreak c = false ∧ isPrintable c = true := by
  constructor
  · have hchar : ∀ c, (tagChar c).length ≤ 3 * c.utf8Size := by
      intro c
      have hbytes : ∀ bytes : List UInt8, (bytes.flatMap tagByte).length ≤ 3 * bytes.length := by
        intro bytes
        induction bytes with
        | nil => exact Nat.zero_le _
        | cons byte rest ih =>
            have hbyte := (tagByte_line byte).1
            rw [List.flatMap_cons, List.length_append, List.length_cons]
            omega
      rw [← String.length_utf8EncodeChar]
      exact hbytes _
    rw [tagBody_eq]
    exact length_flatMap_le hchar cs
  · intro c hc
    obtain ⟨byte, -, hbyte⟩ := List.mem_flatMap.1 hc
    exact (tagByte_line byte).2 c hbyte

/-- A tag stands on one line and is not much longer than its name. -/
theorem tagChars_line (name : String) : ∃ body, tagChars name = '!' :: body ∧
    (tagChars name).length ≤ 3 * (String.ofList (markedTag name)).utf8ByteSize + 3 ∧
      ∀ c ∈ tagChars name, isBreak c = false ∧ isPrintable c = true := by
  obtain ⟨body, hmarked, -⟩ := markedTag_cases name
  have hsize : (String.ofList (markedTag name)).utf8ByteSize =
      1 + (String.ofList body).utf8ByteSize := by
    have hsplit : String.ofList ('!' :: body) = String.singleton '!' ++ String.ofList body := by
      rw [← List.singleton_append, String.ofList_append]
      rfl
    rw [hmarked, hsplit, String.utf8ByteSize_append]
    rfl
  cases body with
  | nil =>
      obtain ⟨hlength, hline⟩ := tagBody_line ['!']
      have hwritten : tagChars name = '!' :: '<' :: (tagBody ['!'] ++ ['>']) := by
        rw [tagChars, hmarked]
        rfl
      have hone : (String.ofList ['!']).utf8ByteSize = 1 := rfl
      rw [hwritten, hsize]
      refine ⟨_, rfl, ?_, ?_⟩
      · simp only [List.length_cons, List.length_append, List.length_nil]
        omega
      · refine List.forall_mem_cons.2 ⟨by decide, List.forall_mem_cons.2 ⟨by decide, ?_⟩⟩
        exact List.forall_mem_append.2 ⟨hline, by simp [isBreak, isPrintable]⟩
  | cons c others =>
      obtain ⟨hlength, hline⟩ := tagBody_line (c :: others)
      have hwritten : tagChars name = '!' :: tagBody (c :: others) := by
        rw [tagChars, hmarked]
        rfl
      rw [hwritten, hsize]
      refine ⟨_, rfl, ?_, List.forall_mem_cons.2 ⟨by decide, hline⟩⟩
      rw [List.length_cons]
      omega

/-- Whether a tag is read back as it was written: by its own name, and without the marks of lists
that are written as they are but end a tag. -/
def LegibleTag (name : String) : Prop :=
  TagReadsBack name ∧ ∀ c ∈ name.toList, isBracketedTagChar c = false

/-- A legible tag has none of the marks of lists in it, and no null character. -/
theorem LegibleTag.chars {name : String} (hname : LegibleTag name) :
    ∀ c ∈ name.toList, isBracketedTagChar c = false ∧ c ≠ '\x00' := by
  have hreads : localTag? (fullTag name) = some name := hname.1
  unfold localTag? at hreads
  simp only at hreads
  split at hreads
  · rename_i htext
    have hnull : '\x00' ∉ (fullTag name).toList := by
      simpa using (Bool.and_eq_true_iff.1 htext).2
    refine fun c hc => ⟨hname.2 c hc, ?_⟩
    rintro rfl
    refine hnull ?_
    rw [fullTag, String.toList_ofList, markedTag]
    split
    · exact hc
    · exact List.mem_cons_of_mem '!' hc
  · cases hreads

end StackBridge.Yaml
