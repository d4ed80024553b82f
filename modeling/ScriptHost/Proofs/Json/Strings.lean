import ScriptHost.Json.Token
import ScriptHost.Proofs.Text.Decoding

/-!
# Strings between quotes

A string is written character by character, and each character in bytes that stand for it whatever comes
next (`StandsFor`): as it is, as a short escape, or as a numeric one. What stands for two texts one after
the other stands for both, so a whole string follows from its characters, and the closing quote ends it
because no character is written with a bare quote.

* **`ofBytes_quote`**: a written string is one token, and the token holds the string.
-/

namespace ScriptHost.Json

open String (utf8EncodeChar)

namespace StringBody

/-! ## Bytes that stand for others

A string is read twice: once to find its end (`skip`) and once for what it holds (`content`). Both walks are in
`StandsFor`, and for any bytes behind, so that the facts about single characters can be laid end to end. -/

/-- Inside a string, `written` is passed over as a whole and read as `meant`. -/
structure StandsFor (written meant : List UInt8) : Prop where
  skip : ∀ rest, StringBody.skip (written ++ rest) = StringBody.skip rest
  content : ∀ rest, StringBody.content (written ++ rest) = prepend meant (StringBody.content rest)

/-- A byte that stands for itself. -/
structure Plain (b : UInt8) : Prop where
  ne_quote : b ≠ quoteByte
  ne_escape : b ≠ escapeByte
  not_control : ¬ b < 0x20

/-- What has been read is kept in front, also across a failure further on. -/
theorem prepend_prepend (front bytes : List UInt8) (rest : Except Fault (List UInt8)) :
    prepend front (prepend bytes rest) = prepend (front ++ bytes) rest := by
  cases rest with
  | error fault => rfl
  | ok more =>
    show Except.ok (front ++ (bytes ++ more)) = Except.ok (front ++ bytes ++ more)
    rw [List.append_assoc]

namespace StandsFor

variable {written meant written' meant' : List UInt8}

/-- Nothing stands for nothing. -/
theorem nil : StandsFor [] [] where
  skip _ := rfl
  content rest := by
    rw [List.nil_append]
    cases StringBody.content rest with
    | error fault => rfl
    | ok more => rfl

/-- What stands for one text and what stands for another stand for both, one after the other. -/
theorem append (h : StandsFor written meant) (h' : StandsFor written' meant') :
    StandsFor (written ++ written') (meant ++ meant') where
  skip rest := by rw [List.append_assoc, h.skip, h'.skip]
  content rest := by rw [List.append_assoc, h.content, h'.content, prepend_prepend]

/-- The two readers pass such a byte on. -/
theorem plain {b : UInt8} (h : Plain b) : StandsFor [b] [b] where
  skip rest := by
    rw [List.singleton_append, StringBody.skip.eq_def]
    simp only [if_neg h.ne_quote, if_neg h.ne_escape, if_neg h.not_control]
  content rest := by
    rw [List.singleton_append, StringBody.content.eq_def]
    simp only [if_neg h.ne_quote, if_neg h.ne_escape, if_neg h.not_control]

/-- So bytes that are all plain stand for themselves. -/
theorem allPlain {bytes : List UInt8} (h : ∀ b ∈ bytes, Plain b) : StandsFor bytes bytes := by
  induction bytes with
  | nil => exact .nil
  | cons b bytes ih =>
    have hb : Plain b := h b List.mem_cons_self
    have hrest : StandsFor bytes bytes := ih fun b' hb' => h b' (List.mem_cons_of_mem b hb')
    exact (plain hb).append hrest

/-- A backslash and a letter, where the letter names a character. -/
theorem short (kind : UInt8) {b : UInt8} (hkind : kind ≠ numericByte) (h : shortEscape? kind = some b) :
    StandsFor [escapeByte, kind] [b] where
  skip rest := by
    rw [StringBody.skip.eq_def]
    simp only [List.cons_append, List.nil_append, if_neg (show escapeByte ≠ quoteByte by decide), if_true,
      if_neg hkind, h]
  content rest := by
    rw [StringBody.content.eq_def]
    simp only [List.cons_append, List.nil_append, if_neg (show escapeByte ≠ quoteByte by decide), if_true,
      if_neg hkind, h]

/-- A numeric escape stands for the character with that number, unless it is one half of a pair. -/
theorem numeric {a b c d : UInt8} {n : Nat} (h : codeUnit? a b c d = some n) (hlow : isLow n = false)
    (hhigh : isHigh n = false) :
    StandsFor [escapeByte, numericByte, a, b, c, d] (utf8EncodeChar (Char.ofNat n)) where
  skip rest := by
    rw [StringBody.skip.eq_def]
    simp only [List.cons_append, List.nil_append, if_neg (show escapeByte ≠ quoteByte by decide), if_true, h]
  content rest := by
    rw [StringBody.content.eq_def]
    simp only [List.cons_append, List.nil_append, if_neg (show escapeByte ≠ quoteByte by decide), if_true, h,
      hlow, hhigh, Bool.false_eq_true, if_false]

end StandsFor

/-! ## Characters

The printer escapes the two bytes that a reader would stop at and the control characters. Every byte of what it
leaves alone is plain: an ASCII character is its own byte, and the others have no byte below 0x80. -/

/-- A character that is written as it is. -/
theorem plain_of_mem {c : Char} (hquote : c ≠ '"') (hescape : c ≠ '\\') (hcontrol : ¬ c.toNat < 0x20)
    {b : UInt8} (hb : b ∈ utf8EncodeChar c) : Plain b := by
  -- an ASCII character is its own byte, and the others have no byte that low
  by_cases hc : c.toNat < 0x80
  · rw [Utf8.utf8EncodeChar_ascii hc, List.mem_singleton] at hb
    have hnat : b.toNat = c.toNat := by
      rw [hb, UInt8.toNat_ofNat_of_lt' (by show _ < 256; omega)]
    have ne_of_ne {d : Char} (hd : c ≠ d) : b.toNat ≠ d.toNat := by
      rw [hnat]
      exact fun h => hd (Char.toNat_inj.mp h)
    exact ⟨fun h => ne_of_ne hquote (by rw [h]; rfl), fun h => ne_of_ne hescape (by rw [h]; rfl),
      fun h => hcontrol (hnat ▸ UInt8.lt_iff_toNat_lt.mp h)⟩
  · have hle := Utf8.le_toNat_of_mem (Nat.le_of_not_lt hc) hb
    have ne_of_lt {d : UInt8} (hd : d.toNat < 0x80) : b ≠ d := by
      rintro rfl
      omega
    refine ⟨ne_of_lt (by decide), ne_of_lt (by decide), fun h => ?_⟩
    have := UInt8.lt_iff_toNat_lt.mp h
    have : (0x20 : UInt8).toNat = 0x20 := rfl
    omega

/-- A hexadecimal digit is one byte, and reading that byte gives the number. -/
theorem byteValue?_digit {n : Nat} (hn : n < 16) :
    ∃ b, utf8EncodeChar (Hex.digit n) = [b] ∧ Hex.byteValue? b = some n := by
  have : ∀ n < 16, utf8EncodeChar (Hex.digit n) = [UInt8.ofNat (Hex.digit n).toNat] ∧
      Hex.byteValue? (UInt8.ofNat (Hex.digit n).toNat) = some n := by decide
  exact ⟨_, this n hn⟩

/-- **What a character is written as stands for its bytes.** -/
theorem standsFor_escapeChar (c : Char) : StandsFor (Utf8.encode (escapeChar c)) (utf8EncodeChar c) := by
  unfold escapeChar
  split
  · exact .short 0x22 (by decide) rfl
  · exact .short 0x5C (by decide) rfl
  · exact .short 0x62 (by decide) rfl
  · exact .short 0x66 (by decide) rfl
  · exact .short 0x6E (by decide) rfl
  · exact .short 0x72 (by decide) rfl
  · exact .short 0x74 (by decide) rfl
  -- what is left is a control character, or a character that is written as it is
  next hquote hescape _ _ _ _ _ =>
  split
  · next hcontrol =>
    obtain ⟨high, hhigh, vhigh⟩ := byteValue?_digit (n := c.toNat / 16) (by omega)
    obtain ⟨low, hlow, vlow⟩ := byteValue?_digit (n := c.toNat % 16) (by omega)
    have hcode : codeUnit? 0x30 0x30 high low = some c.toNat := by
      have hzero : Hex.byteValue? 0x30 = some 0 := by decide
      simp only [codeUnit?, hzero, vhigh, vlow, bind, Option.bind, pure, Option.some.injEq]
      omega
    have hnumeric := StandsFor.numeric hcode
      (by simp only [isLow, Bool.and_eq_false_iff, decide_eq_false_iff_not]; omega)
      (by simp only [isHigh, Bool.and_eq_false_iff, decide_eq_false_iff_not]; omega)
    have hbytes : Utf8.encode ['\\', 'u', '0', '0', Hex.digit (c.toNat / 16), Hex.digit (c.toNat % 16)]
        = [escapeByte, numericByte, 0x30, 0x30, high, low] := by
      simp only [Utf8.encode, List.flatMap_cons, List.flatMap_nil, hhigh, hlow]
      rfl
    rwa [Char.ofNat_toNat, ← hbytes] at hnumeric
  · next hcontrol =>
    have hbytes : Utf8.encode [c] = utf8EncodeChar c := by
      rw [Utf8.encode_cons]
      exact List.append_nil _
    rw [hbytes]
    exact .allPlain fun b hb => plain_of_mem hquote hescape hcontrol hb

/-- A whole text, by `StandsFor.append` from its characters. -/
theorem standsFor_escaped (text : List Char) :
    StandsFor (Utf8.encode (text.flatMap escapeChar)) (Utf8.encode text) := by
  induction text with
  | nil => exact .nil
  | cons c text ih =>
    rw [List.flatMap_cons, Utf8.encode_append, Utf8.encode_cons]
    exact (standsFor_escapeChar c).append ih

/-- The closing quote ends the content, and the bytes before it are the text's, so they decode to it. -/
theorem read_escaped (s : String) (rest : List UInt8) :
    read (Utf8.encode (s.toList.flatMap escapeChar) ++ quoteByte :: rest) = .ok s := by
  have hcontent : content (Utf8.encode (s.toList.flatMap escapeChar) ++ quoteByte :: rest)
      = .ok (Utf8.encode s.toList) := by
    rw [(standsFor_escaped s.toList).content, content.eq_def]
    simp [prepend, Except.map]
  have hdecode : Utf8.decodeString (Utf8.encode s.toList) = .ok s := by
    rw [Utf8.decodeString, Utf8.decode_eq_ok_iff.mpr rfl]
    exact congrArg Except.ok String.ofList_toList
  rw [read, hcontent]
  simp only [hdecode]

/-- The reader that only looks for the end finds it at the closing quote too. -/
theorem skip_escaped (s : String) (rest : List UInt8) :
    skip (Utf8.encode (s.toList.flatMap escapeChar) ++ quoteByte :: rest) = .ok rest := by
  rw [(standsFor_escaped s.toList).skip, skip.eq_def]
  simp only [if_true]

end StringBody

/-- **A written string is one token, which holds the string.** -/
theorem Token.ofBytes_quote (s : String) (rest : List UInt8) :
    Token.ofBytes (Utf8.encode (quote s) ++ rest) = .string (.ok s) (.ok ()) :: Token.ofBytes rest := by
  have hbytes : Utf8.encode (quote s) ++ rest
      = StringBody.quoteByte :: (Utf8.encode (s.toList.flatMap escapeChar) ++ StringBody.quoteByte :: rest) := by
    rw [quote, Utf8.encode_append, Utf8.encode_cons, List.append_assoc]
    rfl
  rw [hbytes, Token.ofBytes, if_neg (by decide)]
  -- the opening quote hands the rest to the two readers of strings
  have hscan (inside : List UInt8) : scan StringBody.quoteByte inside = quoted inside := rfl
  rw [hscan, quoted, StringBody.skip_escaped, StringBody.read_escaped]

end ScriptHost.Json
