/-!
# UTF-8

Text as bytes and back. `encode` writes characters as bytes. Reading goes one byte at a time (`feed`): a
byte either continues the character that is under way, within the bounds that the bytes so far leave, or
cuts it off and starts anew. `pieces` thus splits any bytes into characters and broken parts, each broken
part being as long as it could be and still begin a character. `decode` refuses at the first broken part
and says where it lies; `decodeLossy` puts the replacement character in place of each.
-/

namespace ScriptHost.Utf8

/-- The bytes of a text. -/
def encode (text : List Char) : List UInt8 := text.flatMap String.utf8EncodeChar

/-- The bytes of a string. -/
def ofString (s : String) : List UInt8 := encode s.toList

/-- A character part way through: its bits so far, how many bytes are still owed, the bounds of the next
one, and how many bytes have been read. -/
structure Pending where
  code : Nat
  owed : Nat
  low : Nat
  high : Nat
  seen : Nat
deriving DecidableEq, Repr

/-- A part of the input: a character, or bytes that begin no character. `truncated` marks a broken part
that the end of the input cut off, so that more bytes could have completed it. -/
inductive Piece where
  | char (c : Char)
  | broken (length : Nat) (truncated : Bool)
deriving DecidableEq, Repr

def start (b : UInt8) : List Piece × Option Pending :=
  let n := b.toNat
  if n < 0x80 then ([.char (Char.ofNat n)], none)
  -- a byte that continues a character, or one that could only begin too long a form
  else if n < 0xC2 then ([.broken 1 false], none)
  else if n < 0xE0 then ([], some ⟨n - 0xC0, 1, 0x80, 0xBF, 1⟩)
  -- the bounds leave out forms that are too long, surrogates, and numbers beyond 0x10FFFF
  else if n = 0xE0 then ([], some ⟨0, 2, 0xA0, 0xBF, 1⟩)
  else if n = 0xED then ([], some ⟨0xD, 2, 0x80, 0x9F, 1⟩)
  else if n < 0xF0 then ([], some ⟨n - 0xE0, 2, 0x80, 0xBF, 1⟩)
  else if n = 0xF0 then ([], some ⟨0, 3, 0x90, 0xBF, 1⟩)
  else if n < 0xF4 then ([], some ⟨n - 0xF0, 3, 0x80, 0xBF, 1⟩)
  else if n = 0xF4 then ([], some ⟨4, 3, 0x80, 0x8F, 1⟩)
  else ([.broken 1 false], none)

/-- Reads one more byte, with a character part way through in hand or with none. -/
def feed (pending? : Option Pending) (b : UInt8) : List Piece × Option Pending :=
  match pending? with
  | none => start b
  | some p =>
    if p.low ≤ b.toNat ∧ b.toNat ≤ p.high then
      let code := p.code * 64 + (b.toNat - 0x80)
      if p.owed = 1 then ([.char (Char.ofNat code)], none)
      else ([], some ⟨code, p.owed - 1, 0x80, 0xBF, p.seen + 1⟩)
    else
      -- the byte cuts the character off, and is read once more as a first one
      let (pieces, next) := start b
      (.broken p.seen false :: pieces, next)

/-- The pieces of the input that follows a character part way through. -/
def piecesFrom : Option Pending → List UInt8 → List Piece
  | none, [] => []
  | some p, [] => [.broken p.seen true]
  | pending?, b :: rest =>
    let (pieces, next) := feed pending? b
    pieces ++ piecesFrom next rest

def pieces (bytes : List UInt8) : List Piece := piecesFrom none bytes

/-- Where bytes stop being UTF-8: after how many good bytes, and how many bytes the broken part has;
no length means that the input ended inside a character. -/
structure Fault where
  validUpTo : Nat
  errorLen? : Option Nat
deriving DecidableEq, Repr

/-- The wording, which tells a broken part from an end within a character. -/
def Fault.message (f : Fault) : String :=
  match f.errorLen? with
  | some n => s!"invalid utf-8 sequence of {n} bytes from index {f.validUpTo}"
  | none => s!"incomplete utf-8 byte sequence from index {f.validUpTo}"

/-- The characters of pieces without a broken part; `offset` counts the bytes before them. -/
def assemble (offset : Nat) : List Piece → Except Fault (List Char)
  | [] => .ok []
  | .broken length truncated :: _ => .error ⟨offset, if truncated then none else some length⟩
  | .char c :: rest =>
    match assemble (offset + (String.utf8EncodeChar c).length) rest with
    | .ok text => .ok (c :: text)
    | .error fault => .error fault

/-- The characters of the bytes, or the place of the first broken part. -/
def decode (bytes : List UInt8) : Except Fault (List Char) := assemble 0 (pieces bytes)

/-- The text of the bytes, or the place of the first broken part. -/
def decodeString (bytes : List UInt8) : Except Fault String := (decode bytes).map String.ofList

/-- What stands for a piece when every piece must be a character. -/
def Piece.lossy : Piece → Char
  | .char c => c
  | .broken _ _ => '\uFFFD'

/-- The text of the bytes, with the replacement character for each broken part. -/
def decodeLossy (bytes : List UInt8) : String := String.ofList ((pieces bytes).map Piece.lossy)

theorem encode_append (s t : List Char) : encode (s ++ t) = encode s ++ encode t := by
  simp [encode]

/-- Two texts with the same bytes are the same. -/
theorem ofString_inj {s t : String} : ofString s = ofString t ↔ s = t := by
  refine ⟨fun h => ?_, congrArg ofString⟩
  have hbytes (u : String) : (ofString u).toByteArray = u.toByteArray := String.utf8Encode_toList
  rw [← String.toByteArray_inj, ← hbytes s, ← hbytes t, h]

end ScriptHost.Utf8
