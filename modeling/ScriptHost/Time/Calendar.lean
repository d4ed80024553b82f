/-!
# The Gregorian calendar

Days are counted from 1970-01-01, and the calendar is followed back without end. Counting years from March
puts the leap day at the end of a year, of four years, of a century and of a cycle of 400 years alike, so
each of these units but the last in a larger one has a fixed length.
-/

namespace ScriptHost

structure Date where
  year : Int
  month : Nat
  day : Nat
deriving DecidableEq, Repr

namespace Date

/-- The days of 400 years, after which the calendar repeats. -/
def cycleDays : Nat := 146097

/-- The day count of 0000-03-01, where a cycle begins, is this number below zero. -/
def daysBeforeEpoch : Nat := 719468

/-- The year and the day in it, both from zero, of a day of a cycle that begins in March. -/
def splitCycle (day : Nat) : Nat × Nat :=
  -- the last century and the last year are a day longer, which the bounds of 3 keep inside
  let century := min (day / 36524) 3
  let day := day - century * 36524
  let fourYears := day / 1461
  let day := day - fourYears * 1461
  let year := min (day / 365) 3
  (century * 100 + fourYears * 4 + year, day - year * 365)

/-- The month and the day of it, both from zero, of a day of a year that begins in March. -/
def splitYear (day : Nat) : Nat × Nat :=
  let month := (5 * day + 2) / 153
  (month, day - (153 * month + 2) / 5)

def ofDays (days : Int) : Date :=
  let shifted := days + daysBeforeEpoch
  let (year, dayOfYear) := splitCycle (shifted.emod cycleDays).toNat
  let (month, day) := splitYear dayOfYear
  let year := shifted.ediv cycleDays * 400 + year
  if month < 10 then ⟨year, month + 3, day + 1⟩ else ⟨year + 1, month - 9, day + 1⟩

example : ofDays 0 = ⟨1970, 1, 1⟩ ∧ ofDays (-1) = ⟨1969, 12, 31⟩ ∧ ofDays 11016 = ⟨2000, 2, 29⟩ := by
  decide

end Date

end ScriptHost
