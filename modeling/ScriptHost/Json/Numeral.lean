import ScriptHost.Decimal.Digits
import ScriptHost.Json.Fault

/-!
# JSON numbers

`Numeral.scan` splits a number into its parts, and `Numeral.value?` gives those parts a value. A number
without fraction and exponent that fits into 64 bits is whole; every other one is a float, and so is the
negative zero.
-/

namespace ScriptHost.Json

def isDigit (b : UInt8) : Bool := 0x30 ≤ b && b ≤ 0x39

def leadingDigits (bytes : List UInt8) : List Nat × List UInt8 :=
  ((bytes.takeWhile isDigit).map fun b => b.toNat - 0x30, bytes.dropWhile isDigit)

/-- The parts of a number: no fraction digits stand for no fraction. -/
structure Numeral where
  negative : Bool
  whole : List Nat
  fraction : List Nat
  exponent? : Option (Bool × List Nat)

namespace Numeral

/-- The digits in front, of which there is at least one. -/
def someDigits (bytes : List UInt8) : Except Fault (List Nat × List UInt8) :=
  match leadingDigits bytes with
  | ([], []) => .error .endInValue
  | ([], _ :: _) => .error .badNumber
  | digits => .ok digits

/-- The digits before the point: a zero stands alone. -/
def scanWhole (bytes : List UInt8) : Except Fault (List Nat × List UInt8) :=
  match someDigits bytes with
  | .ok (0 :: _ :: _, _) => .error .badNumber
  | result => result

/-- The point and the digits after it, if there is a point. -/
def scanFraction : List UInt8 → Except Fault (List Nat × List UInt8)
  | [] => .ok ([], [])
  | b :: rest => if b = 0x2E then someDigits rest else .ok ([], b :: rest)

/-- The sign of an exponent, if there is one, and what follows it. -/
def scanSign : List UInt8 → Bool × List UInt8
  | [] => (false, [])
  | b :: rest => if b = 0x2B then (false, rest) else if b = 0x2D then (true, rest) else (false, b :: rest)

/-- The exponent with its sign, if there is one. -/
def scanExponent : List UInt8 → Except Fault (Option (Bool × List Nat) × List UInt8)
  | [] => .ok (none, [])
  | b :: rest =>
    if b = 0x65 ∨ b = 0x45 then
      let (negative, bytes) := scanSign rest
      match someDigits bytes with
      | .ok (digits, after) => .ok (some (negative, digits), after)
      | .error fault => .error fault
    else .ok (none, b :: rest)

/-- The parts of the number in front, after its sign, and what follows it. -/
def scanUnsigned (negative : Bool) (bytes : List UInt8) : Except Fault (Numeral × List UInt8) := do
  let (whole, bytes) ← scanWhole bytes
  let (fraction, bytes) ← scanFraction bytes
  let (exponent?, bytes) ← scanExponent bytes
  return (⟨negative, whole, fraction, exponent?⟩, bytes)

/-- The parts of the number that begins with this byte, and what follows it. -/
def scan (b : UInt8) (rest : List UInt8) : Except Fault (Numeral × List UInt8) :=
  if b = 0x2D then scanUnsigned true rest else scanUnsigned false (b :: rest)

def ofDigits (digits : List Nat) : Nat := digits.foldl (fun n d => n * 10 + d) 0

/-- The power of ten that an exponent stands for, which is zero if there is none. -/
def power (n : Numeral) : Int :=
  match n.exponent? with
  | none => 0
  | some (false, digits) => ofDigits digits
  | some (true, digits) => -ofDigits digits

/-- The number as a float, unless it is too large. Digits beyond 64 bits count by their place only. -/
def float? (n : Numeral) : Option Float :=
  let (significand, kept) := Decimal.absorb 0 0 n.whole
  let (significand, places) := Decimal.absorb significand 0 n.fraction
  let exponent : Int := Int.ofNat (n.whole.length - kept) - places + n.power
  (Decimal.scale? significand exponent).map fun x => if n.negative then -x else x

/-- The number as a whole one of 64 bits, if it is written as one. -/
def int? (n : Numeral) : Option Int :=
  if n.fraction = [] ∧ n.exponent? = none then
    let m := ofDigits n.whole
    -- a zero with a sign is no whole number but the float `-0.0`
    if n.negative then if 0 < m ∧ m ≤ Int.ofNat (Nat.pow 2 63) then some (-m) else none
    else if m < Int.ofNat (Nat.pow 2 64) then some m else none
  else none

/-- The value of a number, unless it is a float that is too large. -/
def value? (n : Numeral) : Option Number :=
  match n.int? with
  | some i => some (.int i)
  | none => n.float?.map .float

/-! ## What follows a number is shorter than the text

Tokens are cut off one after the other, which comes to an end because each one takes a byte. One lemma for each
part of a number says what the part takes. -/

theorem length_dropWhile_le (bytes : List UInt8) : (bytes.dropWhile isDigit).length ≤ bytes.length :=
  (List.dropWhile_sublist isDigit).length_le

/-- A reader of digits takes at least one byte. The other readers of parts rest on it. -/
theorem length_someDigits_lt {bytes rest : List UInt8} {digits : List Nat}
    (h : someDigits bytes = .ok (digits, rest)) : rest.length < bytes.length := by
  cases bytes with
  | nil => simp [someDigits, leadingDigits] at h
  | cons b bytes =>
    by_cases hb : isDigit b
    · simp [someDigits, leadingDigits, hb] at h
      have := length_dropWhile_le bytes
      rw [← h.2, List.length_cons]
      omega
    · simp [someDigits, leadingDigits, hb] at h

/-- The digits before the point take at least one byte. -/
theorem length_scanWhole_lt {bytes rest : List UInt8} {digits : List Nat}
    (h : scanWhole bytes = .ok (digits, rest)) : rest.length < bytes.length := by
  unfold scanWhole at h
  split at h
  · cases h
  · exact length_someDigits_lt h

/-- A fraction takes bytes or none. -/
theorem length_scanFraction_le {bytes rest : List UInt8} {digits : List Nat}
    (h : scanFraction bytes = .ok (digits, rest)) : rest.length ≤ bytes.length := by
  unfold scanFraction at h
  split at h
  · cases h; simp
  · split at h
    · have := length_someDigits_lt h
      rw [List.length_cons]; omega
    · cases h; simp

/-- A sign takes one byte or none. -/
theorem length_scanSign_le (bytes : List UInt8) : (scanSign bytes).2.length ≤ bytes.length := by
  unfold scanSign
  split
  · simp
  · split
    · simp
    · split <;> simp

/-- An exponent takes bytes or none. -/
theorem length_scanExponent_le {bytes rest : List UInt8} {e : Option (Bool × List Nat)}
    (h : scanExponent bytes = .ok (e, rest)) : rest.length ≤ bytes.length := by
  unfold scanExponent at h
  split at h
  · cases h; simp
  · split at h
    · rename_i tail _
      have hsign := length_scanSign_le tail
      generalize scanSign tail = signed at h hsign
      obtain ⟨negative, body⟩ := signed
      simp only at h
      split at h
      · rename_i hdigits
        have := length_someDigits_lt hdigits
        cases h
        simp only [List.length_cons] at *
        omega
      · cases h
    · cases h; simp

/-- A number takes at least one byte, since its whole part does. -/
theorem length_scanUnsigned_lt {negative : Bool} {bytes rest : List UInt8} {n : Numeral}
    (h : scanUnsigned negative bytes = .ok (n, rest)) : rest.length < bytes.length := by
  unfold scanUnsigned at h
  simp only [bind, Except.bind, pure, Except.pure] at h
  split at h
  · cases h
  · rename_i whole hwhole
    split at h
    · cases h
    · rename_i fraction hfraction
      split at h
      · cases h
      · rename_i exponent hexponent
        cases h
        have h₁ := length_scanWhole_lt hwhole
        have h₂ := length_scanFraction_le hfraction
        have h₃ := length_scanExponent_le hexponent
        omega

/-- What follows a number is no longer than what follows its first byte. -/
theorem length_scan_le {b : UInt8} {bytes rest : List UInt8} {n : Numeral}
    (h : scan b bytes = .ok (n, rest)) : rest.length ≤ bytes.length := by
  unfold scan at h
  split at h
  · have := length_scanUnsigned_lt h
    omega
  · have := length_scanUnsigned_lt h
    rw [List.length_cons] at this
    omega

end Numeral

end ScriptHost.Json
