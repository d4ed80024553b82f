import ScriptHost.Data.Dict
import ScriptHost.Text.Characters

/-!
# Query parameters

A raw query is a list of pieces between ampersands; empty pieces say nothing, and every other one is a
parameter, cut at its first equals sign. `Query.pairs` lists the parameters with plus signs read as blanks
and percent escapes decoded; `Query.grouped` collects the values of each name.
-/

namespace ScriptHost.Http.Query

/-- Cuts bytes at every occurrence of a separator. -/
def splitAll (separator : UInt8) : List UInt8 → List (List UInt8)
  | [] => [[]]
  | b :: rest =>
    if b = separator then [] :: splitAll separator rest
    else
      match splitAll separator rest with
      | [] => [[b]]
      | piece :: pieces => (b :: piece) :: pieces

/-- A plus sign stands for a blank. -/
def blankForPlus (b : UInt8) : UInt8 := if b = 0x2B then 0x20 else b

/-- The text that bytes of a query stand for. -/
def decodeText (bytes : List UInt8) : String :=
  Utf8.decodeLossy (Percent.decode (bytes.map blankForPlus))

/-- The name and the value of a piece; without an equals sign the value is empty. -/
def pair (piece : List UInt8) : String × String :=
  (decodeText (piece.takeWhile (· != 0x3D)), decodeText ((piece.dropWhile (· != 0x3D)).drop 1))

def pieces (raw : List UInt8) : List (List UInt8) := (splitAll 0x26 raw).filter (· ≠ [])

def pairs (raw : List UInt8) : List (String × String) := (pieces raw).map pair

def grouped (raw : List UInt8) : Dict (List String) := Entries.group (pairs raw)

/-- There is always a last piece, even if it is empty. -/
theorem splitAll_ne_nil (separator : UInt8) (bytes : List UInt8) : splitAll separator bytes ≠ [] := by
  cases bytes with
  | nil => simp [splitAll]
  | cons b rest =>
    rw [splitAll]
    split
    · simp
    · split <;> simp

end ScriptHost.Http.Query
