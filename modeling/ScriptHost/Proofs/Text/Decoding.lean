import ScriptHost.Proofs.Text.Pieces

/-!
# When bytes are text

Bytes are well-formed if some text has them as its UTF-8. Reading them goes as far as characters stand one
after the other, and a text in front can be left out (`wellFormed_append_iff`), so all that has to be known of
bytes that are no text is what stands where the first broken part begins (`Broken`).

* **`decode_eq_ok_iff`**: bytes are read as a text exactly if they are its UTF-8.
* **`decode_cases`**: otherwise the fault says where the longest text in front ends, and whether more bytes
  could still have completed the whole.
-/

namespace ScriptHost.Utf8

open String (utf8EncodeChar)

/-- Bytes that are the UTF-8 of some text. -/
def WellFormed (bytes : List UInt8) : Prop := ∃ text, encode text = bytes

/-- Whether text stands in front does not matter. -/
theorem wellFormed_append_iff (text : List Char) (rest : List UInt8) :
    WellFormed (encode text ++ rest) ↔ WellFormed rest := by
  constructor
  · rintro ⟨whole, hwhole⟩
    induction text generalizing whole with
    | nil => exact ⟨whole, hwhole⟩
    | cons c text ih =>
      rw [encode_cons, List.append_assoc] at hwhole
      cases whole with
      | nil => exact absurd (List.append_eq_nil_iff.mp hwhole.symm).1 String.utf8EncodeChar_ne_nil
      | cons d whole =>
        rw [encode_cons] at hwhole
        -- two characters that stand at one place are the same
        obtain rfl : d = c := by
          obtain h | h := List.prefix_or_prefix_of_prefix
            (hwhole ▸ List.prefix_append (utf8EncodeChar d) (encode whole))
            (List.prefix_append (utf8EncodeChar c) (encode text ++ rest))
          · exact eq_of_begins h
          · exact (eq_of_begins h).symm
        exact ih whole (List.append_cancel_left hwhole)
  · rintro ⟨more, rfl⟩
    exact ⟨text ++ more, encode_append text more⟩

/-! ## The first broken part

Decoding stops at the first part that is no character. What can be said of the bytes from there on does not
depend on the text in front. -/

/-- Bytes with a broken part in front, and the length that is reported for it. -/
structure Broken (bytes : List UInt8) (length? : Option Nat) : Prop where
  ne_nil : bytes ≠ []
  unread : ∀ c, ¬ utf8EncodeChar c <+: bytes
  truncated_iff : length? = none ↔ ∃ c, bytes <+: utf8EncodeChar c
  bounds : ∀ n ∈ length?, 1 ≤ n ∧ n ≤ 3 ∧ n ≤ bytes.length

namespace Broken

variable {bytes : List UInt8} {length? : Option Nat}

/-- No text begins where a broken part does, however far one looks. -/
theorem not_wellFormed (h : Broken bytes length?) {front : List UInt8} (hfront : front <+: bytes)
    (hne : front ≠ []) : ¬ WellFormed front := by
  rintro ⟨text, rfl⟩
  cases text with
  | nil => exact hne rfl
  | cons c text =>
    rw [encode_cons] at hfront
    exact h.unread c ((List.prefix_append _ _).trans hfront)

/-- A broken part is truncated exactly if the bytes can be continued to a text. -/
theorem truncated_iff_wellFormed (h : Broken bytes length?) :
    length? = none ↔ ∃ more, WellFormed (bytes ++ more) := by
  rw [h.truncated_iff]
  constructor
  · rintro ⟨c, more, hc⟩
    refine ⟨more, [c], ?_⟩
    rw [hc, encode_cons]
    exact List.append_nil _
  · rintro ⟨more, text, htext⟩
    cases text with
    | nil => exact absurd (List.append_eq_nil_iff.mp htext.symm).1 h.ne_nil
    | cons c text =>
      rw [encode_cons] at htext
      -- the first character of the text reaches beyond the bytes, since they begin with none
      obtain hc | hc := List.prefix_or_prefix_of_prefix
        (htext ▸ List.prefix_append (utf8EncodeChar c) (encode text)) (List.prefix_append bytes more)
      · exact absurd hc (h.unread c)
      · exact ⟨c, hc⟩

end Broken

/-- What a fault says of bytes: how long the longest text in front is, whether more bytes could complete the
whole, and if not, how long the part is that stands in the way. -/
structure Fault.Locates (fault : Fault) (bytes : List UInt8) : Prop where
  inside : fault.validUpTo < bytes.length
  wellFormed : WellFormed (bytes.take fault.validUpTo)
  longest : ∀ n, n ≤ bytes.length → WellFormed (bytes.take n) → n ≤ fault.validUpTo
  truncated_iff : fault.errorLen? = none ↔ ∃ more, WellFormed (bytes ++ more)
  bounds : ∀ n ∈ fault.errorLen?, 1 ≤ n ∧ n ≤ 3 ∧ fault.validUpTo + n ≤ bytes.length

/-- A broken part behind a text is where the fault says it is. The text in front is the longest one, since
whatever ends inside the broken part is no text. -/
theorem Broken.locates {rest : List UInt8} {length? : Option Nat} (h : Broken rest length?)
    (text : List Char) : Fault.Locates ⟨(encode text).length, length?⟩ (encode text ++ rest) where
  inside := by
    have := List.length_pos_iff.mpr h.ne_nil
    simp only [List.length_append]
    omega
  wellFormed := ⟨text, by simp⟩
  longest := by
    intro n _ hwell
    refine Nat.le_of_not_lt fun hlt => ?_
    obtain ⟨k, rfl⟩ := Nat.exists_eq_add_of_lt hlt
    rw [Nat.add_assoc, List.take_length_add_append, wellFormed_append_iff] at hwell
    have hne : rest.take (k + 1) ≠ [] := by simp [h.ne_nil]
    exact h.not_wellFormed ( List.take_prefix _ rest) hne hwell
  truncated_iff := by
    simp only [List.append_assoc, wellFormed_append_iff]
    exact h.truncated_iff_wellFormed
  bounds := by
    intro n hn
    obtain ⟨hpos, hle, hlength⟩ := h.bounds n hn
    refine ⟨hpos, hle, ?_⟩
    rw [List.length_append]
    exact Nat.add_le_add_left hlength _

/-! ## Decoding

The two outcomes of decoding follow from how the bytes fall into pieces. -/

/-- Assembling pieces goes through to the end, or up to the first broken part. -/
theorem assemble_of_reads {bytes : List UInt8} {pieces : List Piece} (h : Reads bytes pieces)
    (offset : Nat) :
    (∃ text, encode text = bytes ∧ assemble offset pieces = .ok text) ∨
    ∃ text rest length?, encode text ++ rest = bytes ∧ Broken rest length? ∧
      assemble offset pieces = .error ⟨offset + (encode text).length, length?⟩ := by
  induction h generalizing offset with
  | nil => exact .inl ⟨[], rfl, rfl⟩
  | char c _ ih =>
    obtain ⟨text, rfl, hok⟩ | ⟨text, rest, length?, rfl, hbroken, herror⟩ :=
      ih (offset + (utf8EncodeChar c).length)
    · exact .inl ⟨c :: text, encode_cons c text, by rw [assemble, hok]⟩
    · refine .inr ⟨c :: text, rest, length?, by rw [encode_cons, List.append_assoc], hbroken, ?_⟩
      rw [assemble, herror, encode_cons, List.length_append, Nat.add_assoc]
  | @broken bytes n _ hpos hle hlength hunread huncompleted _ _ =>
    -- the broken part stands in front, so no text is left of what was read here
    have hne : bytes ≠ [] := List.length_pos_iff.mp (Nat.lt_of_lt_of_le hpos hlength)
    refine .inr ⟨[], _, some n, rfl, ⟨hne, hunread, by simp [huncompleted], ?_⟩, rfl⟩
    rintro m ⟨⟩
    exact ⟨hpos, hle, hlength⟩
  | truncated c hne hunread hc =>
    exact .inr ⟨[], _, none, rfl, ⟨hne, hunread, by simpa using ⟨c, hc⟩, nofun⟩, rfl⟩

/-- Either the bytes are the UTF-8 of a text, and that is the result, or they are not well-formed, and the fault
says where. Both sides of every law of decoding come from here. -/
theorem decode_cases (bytes : List UInt8) :
    (∃ text, encode text = bytes ∧ decode bytes = .ok text) ∨
    ¬ WellFormed bytes ∧ ∃ fault, decode bytes = .error fault ∧ fault.Locates bytes := by
  obtain h | ⟨text, rest, length?, rfl, hbroken, herror⟩ := assemble_of_reads (reads_pieces bytes) 0
  · exact .inl h
  · rw [Nat.zero_add] at herror
    refine .inr ⟨?_, _, herror, hbroken.locates text⟩
    rw [wellFormed_append_iff]
    exact hbroken.not_wellFormed List.prefix_rfl hbroken.ne_nil

/-- **Reading gives back what was written, and nothing else is read.** -/
theorem decode_eq_ok_iff {bytes : List UInt8} {text : List Char} :
    decode bytes = .ok text ↔ encode text = bytes := by
  obtain ⟨whole, rfl, hok⟩ | ⟨hill, fault, herror, -⟩ := decode_cases bytes
  · rw [hok, Except.ok.injEq, encode_inj, eq_comm]
  · rw [herror]
    exact ⟨nofun, fun h => absurd ⟨text, h⟩ hill⟩

/-- `decode_cases` for strings. -/
theorem decodeString_cases (bytes : List UInt8) :
    (∃ text, ofString text = bytes ∧ decodeString bytes = .ok text) ∨
    ¬ WellFormed bytes ∧ ∃ fault, decodeString bytes = .error fault ∧ fault.Locates bytes := by
  unfold decodeString
  obtain ⟨text, hbytes, hok⟩ | ⟨hill, fault, herror, hlocates⟩ := decode_cases bytes
  · refine .inl ⟨String.ofList text, ?_, by rw [hok]; rfl⟩
    rw [ofString, String.toList_ofList, hbytes]
  · exact .inr ⟨hill, fault, by rw [herror]; rfl, hlocates⟩

/-! ## Lossy decoding

The lossy reading differs from the strict one at broken parts only. -/

/-- Pieces that make up a text are its characters. None of them is broken, so there is nothing to replace. -/
theorem map_lossy_of_assemble {pieces : List Piece} {offset : Nat} {text : List Char}
    (h : assemble offset pieces = .ok text) : pieces.map Piece.lossy = text := by
  induction pieces generalizing offset text with
  | nil => exact Except.ok.inj h
  | cons piece pieces ih =>
    cases piece with
    | broken length truncated => cases h
    | char c =>
      rw [assemble] at h
      split at h
      · next more hmore =>
        cases h
        rw [List.map_cons, ih hmore]
        rfl
      · cases h

/-- **Lossy decoding loses nothing of a text.** -/
theorem decodeLossy_ofString (s : String) : decodeLossy (ofString s) = s := by
  have hok : decode (ofString s) = .ok s.toList := decode_eq_ok_iff.mpr rfl
  rw [decodeLossy, map_lossy_of_assemble hok, String.ofList_toList]

end ScriptHost.Utf8
