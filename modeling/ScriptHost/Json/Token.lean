import ScriptHost.Json.Numeral
import ScriptHost.Json.StringBody

/-!
# Tokens of a JSON text

`Token.ofBytes` cuts a text into tokens. It never fails: a scalar that cannot be read is a token that
holds its fault, because a fault counts only once a reader gets to it. A scalar holds two outcomes, one
for a reader that wants its value and one for a reader that passes over it; the latter asks for less.
-/

namespace ScriptHost.Json

inductive Token where
  | openObject
  | closeObject
  | openArray
  | closeArray
  | colon
  | comma
  | string (read : Except Fault String) (skip : Except Fault Unit)
  | bare (read : Except Fault Scalar) (skip : Except Fault Unit)
  | stray

namespace Token

def isBlank (b : UInt8) : Bool := b = 0x20 || b = 0x09 || b = 0x0A || b = 0x0D

/-- What follows a word whose remaining bytes are given. -/
def spell : List UInt8 → List UInt8 → Except Fault (List UInt8)
  | [], rest => .ok rest
  | _ :: _, [] => .error .endInValue
  | e :: expected, b :: rest => if b = e then spell expected rest else .error .misspelledWord

/-- A word whose first byte has been read; `expected` are the others. -/
def word (s : Scalar) (expected rest : List UInt8) : Token × List UInt8 :=
  match spell expected rest with
  | .ok after => (.bare (.ok s) (.ok ()), after)
  | .error fault => (.bare (.error fault) (.error fault), [])

/-- A number whose first byte has been read. One that is passed over may be too large. -/
def number (b : UInt8) (rest : List UInt8) : Token × List UInt8 :=
  match Numeral.scan b rest with
  | .error fault => (.bare (.error fault) (.error .badNumber), [])
  | .ok (n, after) =>
    match n.value? with
    | some x => (.bare (.ok (.number x)) (.ok ()), after)
    | none => (.bare (.error .numberTooLarge) (.ok ()), after)

/-- A string whose opening quote has been read. -/
def quoted (rest : List UInt8) : Token × List UInt8 :=
  match StringBody.skip rest with
  | .ok after => (.string (StringBody.read rest) (.ok ()), after)
  | .error fault => (.string (StringBody.read rest) (.error fault), [])

/-- The bytes that are tokens by themselves. -/
def mark? (b : UInt8) : Option Token :=
  if b = 0x7B then some .openObject
  else if b = 0x7D then some .closeObject
  else if b = 0x5B then some .openArray
  else if b = 0x5D then some .closeArray
  else if b = 0x3A then some .colon
  else if b = 0x2C then some .comma
  else none

/-- The token that begins with this byte, and what follows it. -/
def scan (b : UInt8) (rest : List UInt8) : Token × List UInt8 :=
  match mark? b with
  | some t => (t, rest)
  | none =>
    if b = 0x22 then quoted rest
    else if b = 0x6E then word .null [0x75, 0x6C, 0x6C] rest
    else if b = 0x74 then word (.bool true) [0x72, 0x75, 0x65] rest
    else if b = 0x66 then word (.bool false) [0x61, 0x6C, 0x73, 0x65] rest
    else if b = 0x2D ∨ isDigit b then number b rest
    else (.stray, rest)

/-- A word is taken from the front. -/
theorem length_spell_le {expected bytes rest : List UInt8} (h : spell expected bytes = .ok rest) :
    rest.length ≤ bytes.length := by
  fun_induction spell expected bytes with
  | case1 => cases h; simp
  | case2 | case4 => cases h
  | case3 =>
    rename_i ih
    have := ih h
    rw [List.length_cons]; omega

/-- What follows a word is no longer than what it was read from. -/
theorem length_word_le (s : Scalar) (expected rest : List UInt8) :
    (word s expected rest).2.length ≤ rest.length := by
  unfold word
  split
  · rename_i h; exact length_spell_le h
  · simp

/-- What follows a number is no longer than what follows its first byte. -/
theorem length_number_le (b : UInt8) (rest : List UInt8) : (number b rest).2.length ≤ rest.length := by
  unfold number
  split
  · simp
  · rename_i h
    split <;> exact Numeral.length_scan_le h

/-- What follows a string is no longer than what follows its quote. -/
theorem length_quoted_le (rest : List UInt8) : (quoted rest).2.length ≤ rest.length := by
  unfold quoted
  split
  · rename_i h
    exact Nat.le_of_lt (StringBody.length_skip_lt h)
  · simp

/-- **What follows a token is shorter than the text.** Its first byte is taken, and the rest of it is cut off in
front. This is why `ofBytes` comes to an end. -/
theorem length_scan_le (b : UInt8) (rest : List UInt8) : (scan b rest).2.length ≤ rest.length := by
  unfold scan
  split
  · exact Nat.le_refl _
  · split
    · exact length_quoted_le rest
    · split
      · exact length_word_le _ _ rest
      · split
        · exact length_word_le _ _ rest
        · split
          · exact length_word_le _ _ rest
          · split
            · exact length_number_le b rest
            · exact Nat.le_refl _

/-- The tokens of a text, without the blanks between them. -/
def ofBytes : List UInt8 → List Token
  | [] => []
  | b :: rest =>
    if isBlank b then ofBytes rest
    else (scan b rest).1 :: ofBytes (scan b rest).2
termination_by bytes => bytes.length
decreasing_by
  · simp
  · have := length_scan_le b rest
    rw [List.length_cons]; omega

end Token

end ScriptHost.Json
