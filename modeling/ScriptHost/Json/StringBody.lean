import ScriptHost.Json.Fault
import ScriptHost.Text.Utf8

/-!
# JSON strings, from the opening quote on

A string is read in two ways. `StringBody.skip` finds its end and looks at no more than it must: control
characters and the form of the escapes. `StringBody.read` wants the content, so surrogates must come in
pairs and the bytes must be UTF-8.
-/

namespace ScriptHost.Json.StringBody

def quoteByte : UInt8 := 0x22

def escapeByte : UInt8 := 0x5C

/-- The byte that makes an escape a numeric one. -/
def numericByte : UInt8 := 0x75

/-- The byte that a short escape stands for. -/
def shortEscape? (b : UInt8) : Option UInt8 :=
  if b = 0x22 ∨ b = 0x5C ∨ b = 0x2F then some b
  else if b = 0x62 then some 0x08
  else if b = 0x66 then some 0x0C
  else if b = 0x6E then some 0x0A
  else if b = 0x72 then some 0x0D
  else if b = 0x74 then some 0x09
  else none

def codeUnit? (a b c d : UInt8) : Option Nat := do
  let a ← Hex.byteValue? a
  let b ← Hex.byteValue? b
  let c ← Hex.byteValue? c
  let d ← Hex.byteValue? d
  return ((a * 16 + b) * 16 + c) * 16 + d

def isHigh (n : Nat) : Bool := 0xD800 ≤ n && n < 0xDC00

def isLow (n : Nat) : Bool := 0xDC00 ≤ n && n < 0xE000

/-- The code point that the two halves stand for. -/
def paired (high low : Nat) : Nat := (high - 0xD800) * 0x400 + (low - 0xDC00) + 0x10000

def skip : List UInt8 → Except Fault (List UInt8)
  | [] => .error .endInString
  | b :: rest =>
    if b = quoteByte then .ok rest
    else if b = escapeByte then
      match rest with
      | [] => .error .endInString
      | kind :: tail =>
        if kind = numericByte then
          match tail with
          | h₁ :: h₂ :: h₃ :: h₄ :: after =>
            match codeUnit? h₁ h₂ h₃ h₄ with
            | some _ => skip after
            | none => .error .badEscape
          | _ => .error .endInString
        else
          match shortEscape? kind with
          | some _ => skip tail
          | none => .error .badEscape
    else if b < 0x20 then .error .controlInString
    else skip rest

def prepend (bytes : List UInt8) (rest : Except Fault (List UInt8)) : Except Fault (List UInt8) :=
  rest.map (bytes ++ ·)

/-- The bytes of the content, with the escapes resolved. -/
def content : List UInt8 → Except Fault (List UInt8)
  | [] => .error .endInString
  | b :: rest =>
    if b = quoteByte then .ok []
    else if b = escapeByte then
      match rest with
      | [] => .error .endInString
      | kind :: tail =>
        if kind = numericByte then
          match tail with
          | h₁ :: h₂ :: h₃ :: h₄ :: after =>
            match codeUnit? h₁ h₂ h₃ h₄ with
            | none => .error .badEscape
            | some n =>
              if isLow n then .error .strayLowSurrogate
              else if isHigh n then
                -- the other half must follow at once; a text that ends here may have meant to give it
                match after with
                | [] => .error .endInString
                | [e] => if e = escapeByte then .error .endInString else .error .highSurrogateAlone
                | e :: u :: more =>
                  if e = escapeByte ∧ u = numericByte then
                    match more with
                    | l₁ :: l₂ :: l₃ :: l₄ :: last =>
                      match codeUnit? l₁ l₂ l₃ l₄ with
                      | none => .error .badEscape
                      | some m =>
                        if isLow m then
                          prepend (String.utf8EncodeChar (Char.ofNat (paired n m))) (content last)
                        else .error .strayLowSurrogate
                    | _ => .error .endInString
                  else .error .highSurrogateAlone
              else prepend (String.utf8EncodeChar (Char.ofNat n)) (content after)
          | _ => .error .endInString
        else
          match shortEscape? kind with
          | some e => prepend [e] (content tail)
          | none => .error .badEscape
    else if b < 0x20 then .error .controlInString
    else prepend [b] (content rest)

/-- The string that is written here. The bytes must be text, which only shows once all of them are there. -/
def read (bytes : List UInt8) : Except Fault String :=
  match content bytes with
  | .error fault => .error fault
  | .ok inside =>
    match Utf8.decodeString inside with
    | .ok text => .ok text
    | .error _ => .error .notUtf8

/-- The closing quote is taken at least. Induction along the recursion of `skip`: each escape and each plain
byte shortens what is left. -/
theorem length_skip_lt {bytes rest : List UInt8} (h : skip bytes = .ok rest) :
    rest.length < bytes.length := by
  fun_induction skip bytes with
  | case1 | case3 | case5 | case6 | case8 | case9 => cases h
  | case2 => cases h; simp
  | case4 | case7 | case10 =>
    rename_i ih
    have := ih h
    simp only [List.length_cons]
    omega

end ScriptHost.Json.StringBody
