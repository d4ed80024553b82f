import ScriptHost.Text.Utf8

/-!
# Characters and how they are spelled

The characters that count as blank, and three ways of spelling a character or a byte by others: hexadecimal
digits (`Hex`), escapes between double quotes (`Quoted`), and escapes behind percent signs (`Percent`).
-/

/-! ## Blanks

The characters with the Unicode property White_Space, and text without them at its ends. -/

namespace ScriptHost.Blank

/-- The inclusive ranges of the White_Space characters. -/
def ranges : List (Nat × Nat) :=
  [(0x09, 0x0D), (0x20, 0x20), (0x85, 0x85), (0xA0, 0xA0), (0x1680, 0x1680), (0x2000, 0x200A),
    (0x2028, 0x2029), (0x202F, 0x202F), (0x205F, 0x205F), (0x3000, 0x3000)]

def isBlank (c : Char) : Bool := ranges.any fun r => r.1 ≤ c.toNat && c.toNat ≤ r.2

/-- A text without the blanks at its ends. -/
def trim (s : String) : String :=
  String.ofList ((s.toList.dropWhile isBlank).reverse.dropWhile isBlank).reverse

def isBlankText (s : String) : Bool := s.toList.all isBlank

example : isBlank '\u00A0' = true ∧ isBlank '\u200B' = false := by decide

end ScriptHost.Blank

/-! ## Hexadecimal text

Bytes have two lower-case digits each; digits of both cases are read. -/

namespace ScriptHost.Hex

/-- The lower-case digit of a number below sixteen. -/
def digit (n : Nat) : Char := if n < 10 then Char.ofNat (0x30 + n) else Char.ofNat (0x57 + n)

/-- The upper-case digit of a number below sixteen. -/
def digitUpper (n : Nat) : Char := if n < 10 then Char.ofNat (0x30 + n) else Char.ofNat (0x37 + n)

/-- The number that a digit of either case stands for. -/
def value? (c : Char) : Option Nat :=
  if '0' ≤ c ∧ c ≤ '9' then some (c.toNat - 0x30)
  else if 'a' ≤ c ∧ c ≤ 'f' then some (c.toNat - 0x57)
  else if 'A' ≤ c ∧ c ≤ 'F' then some (c.toNat - 0x37)
  else none

def byteValue? (b : UInt8) : Option Nat := value? (Char.ofNat b.toNat)

/-- Two digits for each byte. -/
def ofBytes (bytes : List UInt8) : List Char :=
  bytes.flatMap fun b => [digit (b.toNat / 16), digit (b.toNat % 16)]

/-- A byte has two digits. -/
theorem length_ofBytes (bytes : List UInt8) : (ofBytes bytes).length = 2 * bytes.length := by
  induction bytes with
  | nil => rfl
  | cons b bytes ih =>
    rw [ofBytes, List.flatMap_cons, List.length_append, ← ofBytes, ih]
    simp only [List.length_cons, List.length_nil]
    omega

/-- Bytes are written in lower-case digits only. -/
theorem exists_digit_of_mem_ofBytes {bytes : List UInt8} {c : Char} (h : c ∈ ofBytes bytes) :
    ∃ n < 16, c = digit n := by
  obtain ⟨b, -, hc⟩ := List.mem_flatMap.mp h
  have hb : b.toNat < 256 := b.toNat_lt
  simp only [List.mem_cons, List.not_mem_nil, or_false] at hc
  obtain rfl | rfl := hc
  · exact ⟨b.toNat / 16, by omega, rfl⟩
  · exact ⟨b.toNat % 16, by omega, rfl⟩

def toBytes? : List Char → Option (List UInt8)
  | [] => some []
  | a :: b :: rest => do
    let high ← value? a
    let low ← value? b
    let bytes ← toBytes? rest
    return UInt8.ofNat (high * 16 + low) :: bytes
  | [_] => none

/-- A number in lower-case digits without padding. -/
def ofNat (n : Nat) : List Char := (Nat.toDigits 16 n)

end ScriptHost.Hex

/-! ## Quoted text

How messages and summaries show a text: in double quotes, with a backslash before a double quote or a
backslash, short escapes for the usual control characters and the code point of the others. All other
characters stay as they are. -/

namespace ScriptHost.Quoted

/-- Control characters of both blocks. -/
def isControl (c : Char) : Bool := c.toNat < 0x20 || (0x7F ≤ c.toNat && c.toNat ≤ 0x9F)

def encodeChar (c : Char) : List Char :=
  match c with
  | '"' => ['\\', '"']
  | '\\' => ['\\', '\\']
  | '\n' => ['\\', 'n']
  | '\r' => ['\\', 'r']
  | '\t' => ['\\', 't']
  | '\x00' => ['\\', '0']
  | c => if isControl c then ['\\', 'u', '\x7b'] ++ Hex.ofNat c.toNat ++ ['\x7d'] else [c]

def quote (s : String) : String := String.ofList ('"' :: s.toList.flatMap encodeChar ++ ['"'])

/-- A list of texts in brackets, each in quotes. -/
def quoteList (texts : List String) : String := "[" ++ ", ".intercalate (texts.map quote) ++ "]"

end ScriptHost.Quoted

/-! ## Percent encoding

A percent sign and two hexadecimal digits stand for a byte, so what is decoded is bytes and not characters. -/

namespace ScriptHost.Percent

/-- Reads `%XX` as the byte with that number; any other percent sign stands for itself. -/
def decode : List UInt8 → List UInt8
  | [] => []
  | b :: rest =>
    if b = 0x25 then
      match rest with
      | a :: c :: tail =>
        match Hex.byteValue? a, Hex.byteValue? c with
        | some high, some low => UInt8.ofNat (high * 16 + low) :: decode tail
        -- the two characters are not taken, since an escape may begin at one of them
        | _, _ => b :: decode (a :: c :: tail)
      | [a] => b :: decode [a]
      | [] => [b]
    else b :: decode rest

/-- A byte that is no percent sign stands for itself. -/
theorem decode_cons {b : UInt8} (h : b ≠ 0x25) (rest : List UInt8) : decode (b :: rest) = b :: decode rest := by
  rw [decode.eq_def]
  simp only [if_neg h]

/-- Two digits behind a percent sign are taken together as a byte. -/
theorem decode_escape {a c : UInt8} {high low : Nat} (ha : Hex.byteValue? a = some high)
    (hc : Hex.byteValue? c = some low) (rest : List UInt8) :
    decode (0x25 :: a :: c :: rest) = UInt8.ofNat (high * 16 + low) :: decode rest := by
  rw [decode.eq_def]
  simp only [if_true, ha, hc]

/-- A percent sign without two digits behind it stands for itself. -/
theorem decode_percent {rest : List UInt8}
    (h : ∀ a c tail, rest = a :: c :: tail → Hex.byteValue? a = none ∨ Hex.byteValue? c = none) :
    decode (0x25 :: rest) = 0x25 :: decode rest := by
  match rest with
  | [] => rfl
  | [a] => rfl
  | a :: c :: tail =>
    rw [decode.eq_def]
    obtain ha | hc := h a c tail rfl
    · simp only [if_true, ha]
    · cases ha : Hex.byteValue? a with
      | none => simp only [if_true, ha]
      | some high => simp only [if_true, ha, hc]

/-- One byte as `%XX`, with upper-case digits. -/
def encodeByte (b : UInt8) : List Char :=
  ['%', Hex.digitUpper (b.toNat / 16), Hex.digitUpper (b.toNat % 16)]

/-- A text with every byte of a non-ASCII character, and every ASCII character that `escaped` names,
written as `%XX`. -/
def encode (escaped : Char → Bool) (s : String) : String :=
  String.ofList <| s.toList.flatMap fun c =>
    if c.toNat < 0x80 && !escaped c then [c]
    else (String.utf8EncodeChar c).flatMap encodeByte

end ScriptHost.Percent
