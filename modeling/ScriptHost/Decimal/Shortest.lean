import ScriptHost.Decimal.Digits

/-!
# The shortest decimal that reads back

A positive 64-bit float is `m * 2 ^ q`. The reals that round to it form an interval around it: half a unit
of `m` to either side, a quarter below if `m` is the least normal significand (the floats below lie twice
as close), ends included when `m` is even. `shortest` takes the first decimal grid of 1, 2, ..., 17 digits
on which one of the two neighbours of the value falls into the interval, and of two such neighbours the
nearer; a tie goes to the even one. All arithmetic is exact.
-/

namespace ScriptHost.Decimal

/-- The positive number `significand * 2 ^ exponent`. -/
structure Binary where
  significand : Nat
  exponent : Int
deriving DecidableEq, Repr

/-- The number `coefficient * 10 ^ exponent`. -/
structure Scaled where
  coefficient : Nat
  exponent : Int
deriving DecidableEq, Repr

/-- The sign and the value of a float. A float without an exponent of its own has the least one. -/
def Binary.ofBits (bits : UInt64) : Bool × Binary :=
  let n := bits.toNat
  let fraction := n % Nat.pow 2 52
  let biased := n / Nat.pow 2 52 % Nat.pow 2 11
  let negative := n / Nat.pow 2 63 == 1
  if biased = 0 then (negative, ⟨fraction, -1074⟩)
  else (negative, ⟨fraction + Nat.pow 2 52, Int.ofNat biased - 1075⟩)

/-- The significand at which the spacing of floats changes. -/
def leastNormal : Nat := Nat.pow 2 52

/-- `a * 2 ^ p ≤ b * 10 ^ e` or, if strict, `<`. -/
def belowDecimal (strict : Bool) (a : Nat) (p : Int) (b : Nat) (e : Int) : Bool :=
  let left := a * Nat.pow 2 p.toNat * Nat.pow 10 (-e).toNat
  let right := b * Nat.pow 10 e.toNat * Nat.pow 2 (-p).toNat
  if strict then left < right else left ≤ right

/-- `b * 10 ^ e ≤ a * 2 ^ p` or, if strict, `<`. -/
def aboveDecimal (strict : Bool) (a : Nat) (p : Int) (b : Nat) (e : Int) : Bool :=
  let left := a * Nat.pow 2 p.toNat * Nat.pow 10 (-e).toNat
  let right := b * Nat.pow 10 e.toNat * Nat.pow 2 (-p).toNat
  if strict then right < left else right ≤ left

/-- The decimal reads back as the float: it lies in the interval of reals that round to it. -/
def Binary.admits (v : Binary) (d : Scaled) : Bool :=
  let even := v.significand % 2 == 0
  let quarter := v.exponent - 2
  -- below the least normal significand the floats lie twice as close
  let lower := if v.significand = leastNormal ∧ v.exponent > -1074 then 4 * v.significand - 1
    else 4 * v.significand - 2
  belowDecimal (!even) lower quarter d.coefficient d.exponent
    && aboveDecimal (!even) (4 * v.significand + 2) quarter d.coefficient d.exponent

/-- The greatest multiple of `10 ^ e` that is no greater than the value. -/
def Binary.floorAt (v : Binary) (e : Int) : Nat :=
  v.significand * Nat.pow 2 v.exponent.toNat * Nat.pow 10 (-e).toNat
    / (Nat.pow 10 e.toNat * Nat.pow 2 (-v.exponent).toNat)

/-- The power of ten of the leading digit. -/
def Binary.leadingPower (v : Binary) : Int :=
  -- 30103 / 100000 is a little more than the decimal logarithm of two
  let guess : Int := (Int.ofNat v.significand.log2 + v.exponent) * 30103 / 100000
  if v.floorAt (guess + 1) > 0 then guess + 1
  else if v.floorAt guess > 0 then guess
  else guess - 1

/-- Which of two neighbours on a grid lies nearer to the value; a tie goes to the even one. -/
def Binary.nearer (v : Binary) (low : Nat) (e : Int) : Nat :=
  let twice : Binary := ⟨2 * v.significand, v.exponent⟩
  if belowDecimal true twice.significand twice.exponent (2 * low + 1) e then low
  else if aboveDecimal true twice.significand twice.exponent (2 * low + 1) e then low + 1
  else if low % 2 == 0 then low else low + 1

/-- The decimal on the grid of multiples of `10 ^ e` that reads back as the float, if there is one. -/
def Binary.onGrid? (v : Binary) (e : Int) : Option Scaled :=
  let low := v.floorAt e
  match v.admits ⟨low, e⟩ && 0 < low, v.admits ⟨low + 1, e⟩ with
  | true, true => some ⟨v.nearer low e, e⟩
  | true, false => some ⟨low, e⟩
  | false, true => some ⟨low + 1, e⟩
  | false, false => none

/-- The first grid of at most that many further digits with a decimal that reads back. -/
def Binary.search (v : Binary) (e : Int) : Nat → Scaled
  | 0 => ⟨v.floorAt e, e⟩
  | n + 1 =>
    match v.onGrid? e with
    | some d => d
    | none => v.search (e - 1) n

/-- The decimal with the fewest digits that reads back as the float, and the nearest of those. -/
def Binary.shortest (v : Binary) : Scaled := v.search v.leadingPower 17

/-- The digits of a decimal without trailing zeros, and the power of ten of the leading one. -/
def Scaled.normal (d : Scaled) : List Char × Int :=
  let ds := digits d.coefficient
  (dropTrailingZeros ds, d.exponent + ds.length - 1)

end ScriptHost.Decimal
