/-!
# Decimal digits

Whole numbers in digits, and floats from digits. A decimal is read as a float in two roundings: its digits, as
far as they fit into 64 bits, are rounded to a float, and the result is multiplied or divided by the power of
ten, rounded as well.
-/

namespace ScriptHost.Decimal

/-! ## Whole numbers

The library's digits, with the forms that dates and messages need. -/

def digits (n : Nat) : List Char := Nat.toDigits 10 n

/-- A number with zeros in front up to a width. -/
def padded (width n : Nat) : List Char :=
  List.replicate (width - (digits n).length) '0' ++ digits n

def ofInt (n : Int) : List Char :=
  if n < 0 then '-' :: digits n.natAbs else digits n.natAbs

def dropTrailingZeros (ds : List Char) : List Char := (ds.reverse.dropWhile (· == '0')).reverse

/-! ## Decimals as floats

Powers of ten beyond `10 ^ 308` are no floats any more, so they are taken off in steps of that size. -/

def maxSignificand : Nat := Nat.pow 2 64 - 1

def tenTo (n : Nat) : Float := Float.ofScientific 1 false n

/-- Divides in steps. Once zero is reached it stays. -/
def divideByTenTo (x : Float) (n : Nat) : Float :=
  if n ≤ 308 then x / tenTo n
  else if x == 0 then x
  else divideByTenTo (x / tenTo 308) (n - 308)
termination_by n

/-- The float of `significand * 10 ^ exponent`, or nothing where it is too large. -/
def scale? (significand : Nat) (exponent : Int) : Option Float :=
  let x := (UInt64.ofNat significand).toFloat
  -- a division may end at zero but never overflows
  if exponent < 0 then some (divideByTenTo x exponent.natAbs)
  else if exponent ≤ 308 then
    let y := x * tenTo exponent.natAbs
    if y.isInf then none else some y
  else if x == 0 then some x
  else none

/-- Appends digits to a significand while it fits, and counts those that were taken. -/
def absorb (significand taken : Nat) : List Nat → Nat × Nat
  | [] => (significand, taken)
  | d :: ds =>
    if significand * 10 + d ≤ maxSignificand then absorb (significand * 10 + d) (taken + 1) ds
    else (significand, taken)

end ScriptHost.Decimal
