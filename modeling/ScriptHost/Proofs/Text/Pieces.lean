import ScriptHost.Text.Utf8

/-!
# How bytes fall into pieces

Reading goes one byte at a time, with a character part way through in hand. What that character is, is said
once (`Pending.Spells`): the characters that begin with the bytes read so far are those whose code points lie
between two bounds, and the bytes that each of them still has to come are known. A byte within the bounds of
the next one either ends the character (`Spells.last`) or narrows the bounds by six bits (`Spells.concat`);
any other byte carries no character on (`Spells.next`).

* **`eq_of_begins`**: no character begins another, so that bytes are cut into characters in one way only.
* **`reads_pieces`**: the pieces of any bytes. A broken part stands where no character does, and it is marked
  as truncated exactly if the input ended inside a character.
-/

namespace ScriptHost.Utf8

open String (utf8EncodeChar)

/-! ## The bytes of a character

A code point is written in groups of six bits. The first byte says how many groups follow and holds what is
above them (`lead`, `following`), and each byte after it holds one group (`tail`). -/

/-- The first byte of the character with this code point. -/
def lead (n : Nat) : Nat :=
  if n < 0x80 then n
  else if n < 0x800 then 0xC0 + n / 64
  else if n < 0x10000 then 0xE0 + n / 4096
  else 0xF0 + n / 262144

/-- How many bytes follow a first one. -/
def following (first : Nat) : Nat :=
  if first < 0x80 then 0 else if first < 0xE0 then 1 else if first < 0xF0 then 2 else 3

/-- A code point without its last `k` groups of six bits. -/
def shifted : Nat → Nat → Nat
  | 0, n => n
  | k + 1, n => shifted k n / 64

/-- The last `k` bytes of a character: each holds six bits of its code point. -/
def tail : Nat → Nat → List UInt8
  | 0, _ => []
  | k + 1, n => UInt8.ofNat (0x80 + shifted k n % 64) :: tail k n

/-- Every number is a code point without its last groups, as far as the arithmetic goes. -/
theorem exists_shifted_eq (k m : Nat) : ∃ n, shifted k n = m := by
  induction k generalizing m with
  | zero => exact ⟨m, rfl⟩
  | succ k ih =>
    obtain ⟨n, hn⟩ := ih (m * 64)
    exact ⟨n, by rw [shifted, hn, Nat.mul_div_cancel _ (by decide)]⟩

@[simp] theorem length_tail (k n : Nat) : (tail k n).length = k := by
  induction k with
  | zero => rfl
  | succ k ih => rw [tail, List.length_cons, ih]

/-- The four lengths, each with the first byte that stands for it. The bounds come with the equation, so that
`omega` can do the rest. -/
theorem lead_cases (n : Nat) :
    n < 0x80 ∧ lead n = n ∨ 0x80 ≤ n ∧ n < 0x800 ∧ lead n = 0xC0 + n / 64 ∨
      0x800 ≤ n ∧ n < 0x10000 ∧ lead n = 0xE0 + n / 4096 ∨
        0x10000 ≤ n ∧ lead n = 0xF0 + n / 262144 := by
  unfold lead
  split
  · omega
  split
  · omega
  split <;> omega

/-- The same seen from the first byte. -/
theorem following_cases (first : Nat) :
    first < 0x80 ∧ following first = 0 ∨ 0x80 ≤ first ∧ first < 0xE0 ∧ following first = 1 ∨
      0xE0 ≤ first ∧ first < 0xF0 ∧ following first = 2 ∨ 0xF0 ≤ first ∧ following first = 3 := by
  unfold following
  split
  · omega
  split
  · omega
  split <;> omega

/-- A code point has at most 21 bits. -/
theorem toNat_lt (c : Char) : c.toNat < 0x110000 := by
  have hvalid := c.valid
  simp only [UInt32.isValidChar, Nat.isValidChar] at hvalid
  show c.val.toNat < _
  omega

/-- The first byte of a character is a byte, so nothing is cut off when it is written as one. -/
theorem lead_lt (c : Char) : lead c.toNat < 256 := by
  have hc := toNat_lt c
  have hlead := lead_cases c.toNat
  omega

/-- The library's encoding in this form: the first byte, and the groups after it. The library chooses among four
rows of bytes; here the choice is made once, in `lead`. -/
theorem utf8EncodeChar_eq (c : Char) :
    utf8EncodeChar c = UInt8.ofNat (lead c.toNat) :: tail (following (lead c.toNat)) c.toNat := by
  have hc := toNat_lt c
  simp only [utf8EncodeChar, show c.val.toNat = c.toNat from rfl]
  generalize c.toNat = n at hc
  have hfollowing := following_cases (lead n)
  -- one case for each length; what the library masks is no more than the group has
  obtain ⟨_, hlead⟩ | ⟨_, _, hlead⟩ | ⟨_, _, hlead⟩ | ⟨_, hlead⟩ := lead_cases n
  · rw [if_pos (by omega), show following (lead n) = 0 by omega, hlead, tail]
  · rw [if_neg (by omega), if_pos (by omega), show following (lead n) = 1 by omega, hlead,
      Nat.mod_eq_of_lt (by omega : n / 64 < 0x20)]
    simp only [tail, shifted, Nat.add_comm]
  · rw [if_neg (by omega), if_neg (by omega), if_pos (by omega), show following (lead n) = 2 by omega,
      hlead, Nat.mod_eq_of_lt (by omega : n / 4096 < 0x10)]
    simp only [tail, shifted, Nat.add_comm]
  · rw [if_neg (by omega), if_neg (by omega), if_neg (by omega), show following (lead n) = 3 by omega,
      hlead, Nat.mod_eq_of_lt (by omega : n / 262144 < 0x08)]
    simp only [tail, shifted, Nat.div_div_eq_div_mul, Nat.reduceMul, Nat.add_comm]

/-- An ASCII character is its own byte. -/
theorem utf8EncodeChar_ascii {c : Char} (hc : c.toNat < 0x80) :
    utf8EncodeChar c = [UInt8.ofNat c.toNat] := by
  have hlead : lead c.toNat = c.toNat := by
    have := lead_cases c.toNat
    omega
  have hfollowing : following c.toNat = 0 := by
    have := following_cases c.toNat
    omega
  rw [utf8EncodeChar_eq, hlead, hfollowing, tail]

/-- The bytes after the first have the high bit set. -/
theorem le_toNat_of_mem_tail {k n : Nat} {b : UInt8} (hb : b ∈ tail k n) : 0x80 ≤ b.toNat := by
  induction k with
  | zero => exact nomatch hb
  | succ k ih =>
    rw [tail, List.mem_cons] at hb
    obtain rfl | hb := hb
    · rw [UInt8.toNat_ofNat_of_lt' (by show _ < 256; omega)]
      omega
    · exact ih hb

/-- A character beyond ASCII has no ASCII byte. -/
theorem le_toNat_of_mem {c : Char} (hc : 0x80 ≤ c.toNat) {b : UInt8} (hb : b ∈ utf8EncodeChar c) :
    0x80 ≤ b.toNat := by
  rw [utf8EncodeChar_eq, List.mem_cons] at hb
  obtain rfl | hb := hb
  · have hlead := lead_cases c.toNat
    rw [UInt8.toNat_ofNat_of_lt' (lead_lt c)]
    omega
  · exact le_toNat_of_mem_tail hb

theorem encode_cons (c : Char) (text : List Char) :
    encode (c :: text) = utf8EncodeChar c ++ encode text := List.flatMap_cons ..

/-- Different texts have different bytes. -/
theorem encode_inj {s t : List Char} : encode s = encode t ↔ s = t := by
  refine ⟨fun h => ?_, congrArg encode⟩
  have : ofString (String.ofList s) = ofString (String.ofList t) := by
    simpa [ofString] using h
  exact String.ofList_injective (ofString_inj.mp this)

/-- **No character begins another.** The first byte settles how many there are. -/
theorem eq_of_begins {c d : Char} (h : utf8EncodeChar c <+: utf8EncodeChar d) : c = d := by
  -- the same first byte, and so the same number of bytes
  have hlength : (utf8EncodeChar c).length = (utf8EncodeChar d).length := by
    rw [utf8EncodeChar_eq, utf8EncodeChar_eq, List.cons_prefix_cons] at h
    have hlead : lead c.toNat = lead d.toNat := by
      have := congrArg UInt8.toNat h.1
      rwa [UInt8.toNat_ofNat_of_lt' (lead_lt c), UInt8.toNat_ofNat_of_lt' (lead_lt d)] at this
    simp only [utf8EncodeChar_eq, List.length_cons, length_tail, hlead]
  have : encode [c] = encode [d] := by rw [encode_cons, encode_cons, h.eq_of_length hlength]
  exact List.singleton_inj.mp (encode_inj.mp this)

/-! ## A character part way through

The reader keeps a code so far, the bounds on the next byte and the number of bytes owed. `Pending.Spells` says
what that means for the characters, and the lemmas after it what one more byte does. -/

/-- The next byte may lead to the character with this code point, with `k` bytes after it. -/
def Pending.Covers (p : Pending) (k n : Nat) : Prop :=
  p.code * 64 + p.low ≤ shifted k n + 0x80 ∧ shifted k n + 0x80 ≤ p.code * 64 + p.high

/-- What is known once these bytes have been read: the characters that begin with them are those that `p`
covers, and the next byte has `k` more behind it. -/
structure Pending.Spells (p : Pending) (k : Nat) (bytes : List UInt8) : Prop where
  ne_nil : bytes ≠ []
  seen : p.seen = bytes.length
  owed : p.owed = k + 1
  low : 0x80 ≤ p.low
  high : p.high ≤ 0xBF
  low_le_high : p.low ≤ p.high
  covered : ∀ n, p.Covers k n → ∃ c : Char, c.toNat = n ∧ utf8EncodeChar c = bytes ++ tail (k + 1) n
  covers : ∀ c : Char, bytes <+: utf8EncodeChar c → p.Covers k c.toNat

namespace Pending.Spells

variable {p : Pending} {k : Nat} {bytes : List UInt8} {b : UInt8}

theorem encoded (h : p.Spells k bytes) {c : Char} (hc : bytes <+: utf8EncodeChar c) :
    utf8EncodeChar c = bytes ++ tail (k + 1) c.toNat := by
  obtain ⟨d, hd, hbytes⟩ := h.covered _ (h.covers c hc)
  rwa [Char.toNat_inj.mp hd] at hbytes

/-- The next byte of a character that begins so lies within the bounds, and adds six bits. -/
theorem next (h : p.Spells k bytes) {c : Char} (hc : bytes ++ [b] <+: utf8EncodeChar c) :
    p.low ≤ b.toNat ∧ b.toNat ≤ p.high ∧ shifted k c.toNat = p.code * 64 + (b.toNat - 0x80) := by
  have hbytes : bytes <+: utf8EncodeChar c := (List.prefix_append _ _).trans hc
  have hcovers := h.covers c hbytes
  rw [h.encoded hbytes, tail, List.prefix_append_right_inj, List.cons_prefix_cons] at hc
  have hb : b.toNat = 0x80 + shifted k c.toNat % 64 := by
    rw [hc.1, UInt8.toNat_ofNat_of_lt' (by show _ < 256; omega)]
  have hlow := h.low
  have hhigh := h.high
  unfold Covers at hcovers
  omega

/-- A byte within the bounds leads to the characters that have its six bits next. -/
theorem covered_of_next (h : p.Spells k bytes) (hb_low : p.low ≤ b.toNat) (hb_high : b.toNat ≤ p.high)
    {n : Nat} (hn : shifted k n = p.code * 64 + (b.toNat - 0x80)) :
    ∃ c : Char, c.toNat = n ∧ utf8EncodeChar c = bytes ++ [b] ++ tail k n := by
  have hlow := h.low
  have hhigh := h.high
  have hcovers : p.Covers k n := by
    unfold Covers
    omega
  have hb : UInt8.ofNat (0x80 + shifted k n % 64) = b := by
    rw [← UInt8.toNat_inj, UInt8.toNat_ofNat_of_lt' (by show _ < 256; omega)]
    omega
  obtain ⟨c, hc, hbytes⟩ := h.covered n hcovers
  exact ⟨c, hc, by rw [hbytes, tail, hb, List.append_assoc, List.singleton_append]⟩

/-- The last byte of a character. -/
theorem last (h : p.Spells 0 bytes) (hlow : p.low ≤ b.toNat) (hhigh : b.toNat ≤ p.high) :
    utf8EncodeChar (Char.ofNat (p.code * 64 + (b.toNat - 0x80))) = bytes ++ [b] := by
  obtain ⟨c, hc, hbytes⟩ := h.covered_of_next hlow hhigh rfl
  rw [← hc, Char.ofNat_toNat, hbytes, tail, List.append_nil]

/-- A byte within the bounds that is not the last one. -/
theorem concat (h : p.Spells (k + 1) bytes) (hlow : p.low ≤ b.toNat) (hhigh : b.toNat ≤ p.high) :
    Spells ⟨p.code * 64 + (b.toNat - 0x80), p.owed - 1, 0x80, 0xBF, p.seen + 1⟩ k (bytes ++ [b]) where
  ne_nil := by simp
  seen := by rw [List.length_append, h.seen]; rfl
  owed := by rw [h.owed, Nat.add_sub_cancel]
  low := Nat.le_refl _
  high := Nat.le_refl _
  low_le_high := (by decide : 0x80 ≤ 0xBF)
  covered := by
    intro n hn
    refine h.covered_of_next hlow hhigh ?_
    simp only [Covers] at hn
    rw [shifted]
    omega
  covers := by
    intro c hc
    have hgroups := (h.next hc).2.2
    rw [shifted] at hgroups
    simp only [Covers]
    omega

/-- A character part way through can be finished: the lowest byte within the bounds leads to one. -/
theorem exists_char (h : p.Spells k bytes) : ∃ c : Char, bytes <+: utf8EncodeChar c := by
  have hlow := h.low
  have hle := h.low_le_high
  obtain ⟨n, hn⟩ := exists_shifted_eq k (p.code * 64 + (p.low - 0x80))
  obtain ⟨c, -, hc⟩ := h.covered n (by
    rw [Covers, hn]
    omega)
  exact ⟨c, hc ▸ List.prefix_append _ _⟩

/-- No character ends within the bytes. -/
theorem unfinished (h : p.Spells k bytes) (c : Char) : ¬ utf8EncodeChar c <+: bytes := by
  intro hc
  obtain ⟨d, hd⟩ := h.exists_char
  obtain rfl := eq_of_begins (hc.trans hd)
  have := hc.length_le
  rw [h.encoded hd, List.length_append, length_tail] at this
  omega

/-- A character part way through has three bytes at most, since a whole one has four. -/
theorem length_le (h : p.Spells k bytes) : bytes.length ≤ 3 := by
  obtain ⟨c, hc⟩ := h.exists_char
  have := c.utf8Size_le_four
  rw [← String.length_utf8EncodeChar, h.encoded hc, List.length_append, length_tail] at this
  omega

end Pending.Spells

/-! ## The first byte

A first byte is a character, or begins some, or begins none. -/

theorem singleton_begins_iff {b : UInt8} {c : Char} :
    [b] <+: utf8EncodeChar c ↔ lead c.toNat = b.toNat := by
  rw [utf8EncodeChar_eq, List.cons_prefix_cons, ← UInt8.toNat_inj, UInt8.toNat_ofNat_of_lt' (lead_lt c)]
  simp [eq_comm]

/-- What a byte can be that is read as a first one. -/
inductive Opens (b : UInt8) : List Piece × Option Pending → Prop
  | char {c : Char} : utf8EncodeChar c = [b] → Opens b ([.char c], none)
  | stray : (∀ c, ¬ [b] <+: utf8EncodeChar c) → Opens b ([.broken 1 false], none)
  | pending {p : Pending} {k : Nat} : p.Spells k [b] → Opens b ([], some p)

/-- A first byte after which `k + 1` bytes are owed. -/
theorem Opens.of_lead {b : UInt8} {code low high : Nat} (k : Nat)
    (hbounds : 0x80 ≤ low ∧ low ≤ high ∧ high ≤ 0xBF) (hlength : following b.toNat = k + 1)
    (hcovers : ∀ n, (code * 64 + low ≤ shifted k n + 0x80 ∧ shifted k n + 0x80 ≤ code * 64 + high) ↔
      n.isValidChar ∧ lead n = b.toNat) :
    Opens b ([], some ⟨code, k + 1, low, high, 1⟩) := by
  refine .pending ⟨by simp, rfl, rfl, hbounds.1, hbounds.2.2, hbounds.2.1, fun n hn => ?_, fun c hc => ?_⟩
  · obtain ⟨hvalid, hlead⟩ := (hcovers n).mp hn
    refine ⟨Char.ofNatAux n hvalid, rfl, ?_⟩
    rw [utf8EncodeChar_eq, show (Char.ofNatAux n hvalid).toNat = n from rfl, hlead, hlength,
      UInt8.ofNat_toNat, List.singleton_append]
  · exact (hcovers _).mpr ⟨c.valid, singleton_begins_iff.mp hc⟩

/-- Every byte is one of the three when it is read as a first one. The reader has a branch for each range of
bytes; what differs between the branches is the bounds on the second byte, and `Opens.of_lead` asks no more of
them than that they cover the code points with that lead. -/
theorem opens_start (b : UInt8) : Opens b (start b) := by
  have hb := b.toNat_lt
  have hlength := following_cases b.toNat
  have hstray (h : ∀ n, n.isValidChar → lead n ≠ b.toNat) : Opens b ([.broken 1 false], none) :=
    .stray fun c hc => h _ c.valid (singleton_begins_iff.mp hc)
  simp only [start]
  split
  · have hvalid : b.toNat.isValidChar := .inl (by omega)
    have hlead : lead b.toNat = b.toNat := by
      have := lead_cases b.toNat
      omega
    refine .char ?_
    rw [Char.ofNat, dif_pos hvalid, utf8EncodeChar_eq,
      show (Char.ofNatAux b.toNat hvalid).toNat = b.toNat from rfl, hlead,
      show following b.toNat = 0 by omega, UInt8.ofNat_toNat, tail]
  split
  · exact hstray fun n _ => by have := lead_cases n; omega
  -- the bounds of the second byte leave out what is no code point or has a shorter form
  split
  · exact .of_lead 0 (by decide) (by omega) fun n => by have := lead_cases n; simp only [shifted]; omega
  split
  · exact .of_lead 1 (by decide) (by omega) fun n => by have := lead_cases n; simp only [shifted]; omega
  split
  · exact .of_lead 1 (by decide) (by omega) fun n => by have := lead_cases n; simp only [shifted]; omega
  split
  · exact .of_lead 1 (by decide) (by omega) fun n => by have := lead_cases n; simp only [shifted]; omega
  split
  · exact .of_lead 2 (by decide) (by omega) fun n => by have := lead_cases n; simp only [shifted]; omega
  split
  · exact .of_lead 2 (by decide) (by omega) fun n => by have := lead_cases n; simp only [shifted]; omega
  split
  · exact .of_lead 2 (by decide) (by omega) fun n => by have := lead_cases n; simp only [shifted]; omega
  · exact hstray fun n _ => by have := lead_cases n; omega

/-! ## Pieces

The reader is followed by induction on the bytes, in both of its states at once: with nothing in hand, and
behind a character part way through. -/

/-- How bytes fall into pieces. No character stands at the beginning of a broken part, whatever follows it;
the input is truncated there exactly if it ends inside a character. -/
inductive Reads : List UInt8 → List Piece → Prop
  | nil : Reads [] []
  | char (c : Char) {rest : List UInt8} {pieces : List Piece} :
      Reads rest pieces → Reads (utf8EncodeChar c ++ rest) (.char c :: pieces)
  | broken {bytes : List UInt8} (n : Nat) {pieces : List Piece} :
      0 < n → n ≤ 3 → n ≤ bytes.length → (∀ c, ¬ utf8EncodeChar c <+: bytes) →
      (∀ c, ¬ bytes <+: utf8EncodeChar c) → Reads (bytes.drop n) pieces →
      Reads bytes (.broken n false :: pieces)
  | truncated {bytes : List UInt8} (c : Char) :
      bytes ≠ [] → (∀ c, ¬ utf8EncodeChar c <+: bytes) → bytes <+: utf8EncodeChar c →
      Reads bytes [.broken bytes.length true]

/-- A byte that carries no character on parts what stands before it from what follows. -/
theorem parted {front : List UInt8} {b : UInt8} (hunfinished : ∀ c, ¬ utf8EncodeChar c <+: front)
    (hcut : ∀ c, ¬ front ++ [b] <+: utf8EncodeChar c) (rest : List UInt8) (c : Char) :
    ¬ utf8EncodeChar c <+: front ++ b :: rest ∧ ¬ front ++ b :: rest <+: utf8EncodeChar c := by
  have hfront : front ++ [b] <+: front ++ b :: rest :=
    (List.prefix_append_right_inj _).mpr (List.cons_prefix_cons.mpr ⟨rfl, List.nil_prefix⟩)
  refine ⟨fun hc => ?_, fun hc => hcut c (hfront.trans hc)⟩
  -- a character that begins the whole reaches the byte or ends before it
  obtain hc | hc := List.prefix_or_prefix_of_prefix hc hfront
  · obtain hc | hc := List.prefix_concat_iff.mp hc
    · exact hcut c (hc ▸ List.prefix_rfl)
    · exact hunfinished c hc
  · exact hcut c hc

/-- One byte read afresh, when the rest is known to be read rightly both afresh and behind that byte. -/
theorem reads_pieces_cons {b : UInt8} {rest : List UInt8} (hfresh : Reads rest (pieces rest))
    (hpending : ∀ p k, Pending.Spells p k [b] → Reads (b :: rest) (piecesFrom (some p) rest)) :
    Reads (b :: rest) (pieces (b :: rest)) := by
  show Reads (b :: rest) ((start b).1 ++ piecesFrom (start b).2 rest)
  have hopened := opens_start b
  generalize start b = opening at hopened ⊢
  cases hopened with
  | @char c hc =>
    rw [← List.singleton_append, ← hc]
    exact .char c hfresh
  | stray hstray =>
    have hcut := parted (fun c h => String.utf8EncodeChar_ne_nil (List.prefix_nil.mp h)) hstray rest
    exact .broken 1 (by decide) (by decide) (by simp) (fun c => (hcut c).1) (fun c => (hcut c).2) hfresh
  | pending hp => exact hpending _ _ hp

/-- The pieces of the bytes, read afresh or behind a character part way through. -/
theorem reads_piecesFrom (bytes : List UInt8) :
    Reads bytes (pieces bytes) ∧ ∀ p k front, Pending.Spells p k front →
      Reads (front ++ bytes) (piecesFrom (some p) bytes) := by
  -- both states at once, since a byte that cuts a character off is read afresh
  induction bytes with
  | nil =>
    refine ⟨.nil, fun p k front h => ?_⟩
    obtain ⟨c, hc⟩ := h.exists_char
    rw [piecesFrom, h.seen, List.append_nil]
    exact .truncated c h.ne_nil h.unfinished hc
  | cons b rest ih =>
    have hfresh := reads_pieces_cons ih.1 fun p k h => ih.2 p k [b] h
    refine ⟨hfresh, fun p k front h => ?_⟩
    by_cases hb : p.low ≤ b.toNat ∧ b.toNat ≤ p.high
    · rw [List.append_cons]
      cases k with
      | zero =>
        rw [piecesFrom, feed, if_pos hb, if_pos h.owed, ← h.last hb.1 hb.2]
        exact .char _ ih.1
      | succ k =>
        rw [piecesFrom, feed, if_pos hb, if_neg (by rw [h.owed]; omega)]
        exact ih.2 _ k _ (h.concat hb.1 hb.2)
    · -- the byte cuts the character off, and is the first one of the next piece
      have hcut := parted h.unfinished (fun c hc => hb ⟨(h.next hc).1, (h.next hc).2.1⟩) rest
      have hpieces : piecesFrom (some p) (b :: rest) = .broken p.seen false :: pieces (b :: rest) := by
        rw [piecesFrom, feed, if_neg hb]
        rfl
      rw [hpieces, h.seen]
      refine .broken _ (List.length_pos_iff.mpr h.ne_nil) h.length_le (by simp) (fun c => (hcut c).1)
        (fun c => (hcut c).2) ?_
      rwa [List.drop_left]

/-- **What bytes read as.** -/
theorem reads_pieces (bytes : List UInt8) : Reads bytes (pieces bytes) := (reads_piecesFrom bytes).1

end ScriptHost.Utf8
