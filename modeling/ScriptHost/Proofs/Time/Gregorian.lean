import ScriptHost.Time.Calendar

/-!
# The calendar, year by year

The calendar is laid down by its rules: which years are leap years, how long each month is, and the lengths added
up to number the days (`dayNumber`). A date is made from a day count by division instead, in years that begin in
March. The two meet in closed forms of the sums: years up to a March are counted by their fourths, hundredths and
four-hundredths (`marchStart`), and the months from March on begin after fifths of 153 days each (`monthStart`).

* **`Gregorian.dayNumber_lt`**: days are numbered in the order of the calendar.
* **`Date.dayNumber_ofDays`**: the date of a day count is a day of the calendar and has that number.
* **`Date.le_year_iff`**: the year of the date has come once its first day has.
-/

namespace ScriptHost

namespace Gregorian

/-- Every fourth year is a leap year, but of the hundredths only every fourth. -/
def IsLeap (year : Nat) : Prop := year % 4 = 0 ∧ (year % 100 ≠ 0 ∨ year % 400 = 0)

instance (year : Nat) : Decidable (IsLeap year) :=
  inferInstanceAs (Decidable (year % 4 = 0 ∧ (year % 100 ≠ 0 ∨ year % 400 = 0)))

def yearLength (year : Nat) : Nat := if IsLeap year then 366 else 365

def monthLength (year month : Nat) : Nat :=
  if month = 2 then (if IsLeap year then 29 else 28)
  else if month = 4 ∨ month = 6 ∨ month = 9 ∨ month = 11 then 30 else 31

/-- The sum of the first `n` lengths. -/
def total (length : Nat → Nat) : Nat → Nat
  | 0 => 0
  | n + 1 => total length n + length n

/-- The days of a year before the month with this number, counted from zero. -/
def daysToMonth (year month : Nat) : Nat := total (fun m => monthLength year (m + 1)) month

/-- The days of a year before one of its days. -/
def daysInYear (year month day : Nat) : Nat := daysToMonth year (month - 1) + (day - 1)

/-- The days from the start of 1970 to a day, below zero for an earlier one. -/
def dayNumber (year month day : Nat) : Int :=
  total yearLength year + daysInYear year month day - total yearLength 1970

/-- There is such a day. -/
structure IsDay (year month day : Nat) : Prop where
  one_le_month : 1 ≤ month
  month_le : month ≤ 12
  one_le_day : 1 ≤ day
  day_le : day ≤ monthLength year month

/-- No month has more than 31 days. -/
theorem monthLength_le (year month : Nat) : monthLength year month ≤ 31 := by
  unfold monthLength
  split
  · split <;> decide
  · split <;> decide

/-! ## Sums of lengths

Days are numbered by adding up lengths. Sums of lengths are in order, and the sum of the lengths of years has a
closed form: a leap day for every fourth year, none for hundredths, and one again for four-hundredths. -/

theorem total_le {length : Nat → Nat} {i j : Nat} (h : i ≤ j) : total length i ≤ total length j := by
  induction h with
  | refl => exact Nat.le_refl _
  | step _ ih => exact Nat.le_trans ih (Nat.le_add_right _ _)

/-- What lies within one length ends before the next begins. -/
theorem total_add_lt {length : Nat → Nat} {i j r : Nat} (hij : i < j) (hr : r < length i) :
    total length i + r < total length j :=
  calc total length i + r < total length i + length i := Nat.add_lt_add_left hr _
    _ ≤ total length j := total_le hij

/-- Every fourth year is a leap year, but of the centuries only every fourth. -/
theorem total_yearLength (year : Nat) :
    total yearLength year + (year + 99) / 100 = 365 * year + (year + 3) / 4 + (year + 399) / 400 := by
  induction year with
  | zero => rfl
  | succ year ih =>
    -- each quotient goes up by one exactly after a year that its divisor divides
    have hquarter : (year + 1 + 3) / 4 = (year + 3) / 4 + if year % 4 = 0 then 1 else 0 := by
      split <;> omega
    have hhundred : (year + 1 + 99) / 100 = (year + 99) / 100 + if year % 100 = 0 then 1 else 0 := by
      split <;> omega
    have hfull : (year + 1 + 399) / 400 = (year + 399) / 400 + if year % 400 = 0 then 1 else 0 := by
      split <;> omega
    rw [total, yearLength, hquarter, hhundred, hfull]
    split
    · next hleap =>
      unfold IsLeap at hleap
      omega
    · next hleap =>
      unfold IsLeap at hleap
      omega

/-! ## Years and months from March

A year that begins in March has its leap day at the end, so the closed forms are free of cases. Both kinds of
years are tied together here, and the numbers of days are said in terms of March. -/

/-- The days from the first of March of the year 0 to that of another year, which may lie before it. -/
def marchStart (year : Int) : Int := 365 * year + year / 4 - year / 100 + year / 400

/-- A year has 365 days at least, also where it begins in March. -/
theorem marchStart_add_le_succ (year : Int) : marchStart year + 365 ≤ marchStart (year + 1) := by
  -- a century comes only with a fourth year
  have hleap : year / 4 - year / 100 ≤ (year + 1) / 4 - (year + 1) / 100 := by omega
  have hfull : year / 400 ≤ (year + 1) / 400 := by omega
  unfold marchStart
  generalize year / 400 = full, (year + 1) / 400 = full' at *
  omega

/-- So a later year begins after all the days of an earlier one. -/
theorem marchStart_add_le {a b : Int} (h : a < b) : marchStart a + 365 ≤ marchStart b := by
  -- year by year from the one to the other
  obtain ⟨k, rfl⟩ : ∃ k : Nat, b = a + 1 + k := ⟨(b - a - 1).toNat, by omega⟩
  clear h
  induction k with
  | zero =>
    rw [Int.natCast_zero, Int.add_zero]
    exact marchStart_add_le_succ a
  | succ k ih =>
    have hstep := marchStart_add_le_succ (a + 1 + k)
    rw [Int.natCast_add, Int.natCast_one, ← Int.add_assoc]
    omega

/-- The days before a year: 60 up to the March of the year 0, then those up to the March of the year before, and
306 from there to the end of December. -/
theorem total_yearLength_eq (year : Nat) : (total yearLength year : Int) = marchStart (year - 1) + 366 := by
  have hsum : (total yearLength year : Int) + ((year + 99) / 100 : Nat)
      = 365 * year + ((year + 3) / 4 : Nat) + ((year + 399) / 400 : Nat) := by
    have := total_yearLength year
    omega
  have hquarter : (((year + 3) / 4 : Nat) : Int) = (year - 1) / 4 + 1 := by omega
  have hhundred : (((year + 99) / 100 : Nat) : Int) = (year - 1) / 100 + 1 := by omega
  have hfull : (((year + 399) / 400 : Nat) : Int) = (year - 1) / 400 + 1 := by omega
  rw [hquarter, hhundred, hfull] at hsum
  unfold marchStart
  omega

theorem total_yearLength_1970 : total yearLength 1970 = 719528 := by
  have := total_yearLength 1970
  omega

theorem dayNumber_newYear (year : Nat) : dayNumber year 1 1 = marchStart (year - 1) - 719162 := by
  show (total yearLength year + (0 : Nat) - total yearLength 1970 : Int) = _
  rw [total_yearLength_eq, total_yearLength_1970]
  omega

/-- The first of March comes 59 or 60 days into its year. -/
theorem total_yearLength_add (year : Nat) :
    (total yearLength year + if IsLeap year then 60 else 59 : Nat) = marchStart year + 60 := by
  have hnext : (total yearLength (year + 1) : Int) = marchStart year + 366 := by
    have := total_yearLength_eq (year + 1)
    rwa [Int.natCast_add, Int.natCast_one, Int.add_sub_cancel] at this
  rw [total, yearLength] at hnext
  split
  · next hleap =>
    rw [if_pos hleap] at hnext
    omega
  · next hleap =>
    rw [if_neg hleap] at hnext
    omega

/-- The days from the first of March to the first of a month, where March has the number 0. -/
def monthStart (month : Nat) : Nat := (153 * month + 2) / 5

/-- From March to December the months have the lengths that the fifths give them. Only February has another, and
it comes last here. -/
theorem monthStart_add_monthLength (year : Nat) {month : Nat} (h : month < 10) :
    monthStart month + monthLength year (month + 3) = monthStart (month + 1) := by
  have hmonth : month = 0 ∨ month = 1 ∨ month = 2 ∨ month = 3 ∨ month = 4 ∨ month = 5 ∨ month = 6 ∨
      month = 7 ∨ month = 8 ∨ month = 9 := by omega
  obtain rfl | rfl | rfl | rfl | rfl | rfl | rfl | rfl | rfl | rfl := hmonth <;> rfl

/-- The days before a month are those of January and February, and those from March on. -/
theorem daysToMonth_eq (year : Nat) {month : Nat} (h : month ≤ 10) :
    daysToMonth year (month + 2) = (if IsLeap year then 60 else 59) + monthStart month := by
  induction month with
  | zero =>
    show 0 + 31 + (if IsLeap year then 29 else 28) = _
    split <;> rfl
  | succ month ih =>
    have hlength := monthStart_add_monthLength year h
    have hstep : daysToMonth year (month + 1 + 2) = daysToMonth year (month + 2) + monthLength year (month + 3) := rfl
    rw [hstep, ih (Nat.le_of_succ_le h), ← hlength, Nat.add_assoc]

theorem daysToMonth_twelve (year : Nat) : daysToMonth year 12 = yearLength year := by
  rw [daysToMonth_eq year (Nat.le_refl 10), yearLength]
  split <;> rfl

/-- A day from March to December, counted from the first of March. -/
theorem dayNumber_from_march (year : Nat) {month : Nat} (h : month < 10) (day : Nat) :
    dayNumber year (month + 3) (day + 1) = marchStart year + (monthStart month + day : Nat) - 719468 := by
  have hstart := total_yearLength_add year
  show (total yearLength year + (daysToMonth year (month + 2) + day : Nat) - total yearLength 1970 : Int) = _
  rw [daysToMonth_eq year (Nat.le_of_lt h), total_yearLength_1970]
  omega

/-- A day of January or February, counted from the first of March of the year before. -/
theorem dayNumber_before_march (year : Nat) {month : Nat} (h : month = 10 ∨ month = 11) (day : Nat) :
    dayNumber year (month - 9) (day + 1) = marchStart (year - 1) + (monthStart month + day : Nat) - 719468 := by
  -- from the first of March to the new year there are 306 days
  have hdays : daysInYear year (month - 9) (day + 1) + 306 = monthStart month + day := by
    obtain rfl | rfl := h
    · show 0 + day + 306 = 306 + day
      omega
    · show 31 + day + 306 = 337 + day
      omega
  rw [dayNumber, total_yearLength_eq, total_yearLength_1970]
  omega

/-! ## The order of days

A day lies before the end of its month, and of its year. -/

section Order

variable {year month day year' month' day' : Nat}

/-- A day of a month comes before the next month. -/
theorem daysInYear_lt_daysToMonth (h : IsDay year month day) {n : Nat} (hn : month ≤ n) :
    daysInYear year month day < daysToMonth year n := by
  have hmonth := h.one_le_month
  have hday : day - 1 < monthLength year (month - 1 + 1) := by
    have := h.one_le_day
    have := h.day_le
    rw [Nat.sub_add_cancel hmonth]
    omega
  exact total_add_lt (by omega) hday

/-- **Days are numbered in the order of the calendar.** -/
theorem dayNumber_lt (h : IsDay year month day)
    (hlt : year < year' ∨ year = year' ∧ (month < month' ∨ month = month' ∧ day < day')) :
    dayNumber year month day < dayNumber year' month' day' := by
  unfold dayNumber
  -- the first unit that differs decides, since a day lies before the end of its month and year
  obtain hlt | ⟨rfl, hlt | ⟨rfl, hlt⟩⟩ := hlt
  · have hday := daysInYear_lt_daysToMonth h h.month_le
    rw [daysToMonth_twelve] at hday
    have := total_add_lt hlt hday
    omega
  · have := daysInYear_lt_daysToMonth h (Nat.le_sub_one_of_lt hlt)
    unfold daysInYear at *
    omega
  · have := h.one_le_day
    unfold daysInYear
    omega

end Order

end Gregorian

/-! ## Dates from day counts

The divisions are followed step by step. What is known after each of them is linear, so `omega` keeps the
account; it is asked about one division at a time, with the results of the others as names. -/

namespace Date

open Gregorian

/-- Years that begin in March, from zero, in a cycle of 400 years. -/
theorem splitCycle_spec {day : Nat} (h : day < cycleDays) :
    (splitCycle day).1 < 400 ∧
      day + (splitCycle day).1 / 100
        = 365 * (splitCycle day).1 + (splitCycle day).1 / 4 + (splitCycle day).2 ∧
      ((splitCycle day).2 < 365 ∨ (splitCycle day).2 = 365 ∧ IsLeap ((splitCycle day).1 + 1)) := by
  simp only [splitCycle]
  -- centuries, spans of four years and years are counted one after the other
  generalize hcentury : min (day / 36524) 3 = century
  have hinCentury : day - century * 36524 < 36524 ∨ century = 3 ∧ day - century * 36524 = 36524 := by
    unfold cycleDays at h
    omega
  generalize hinner : day - century * 36524 = inCentury at *
  generalize hfour : inCentury / 1461 = fourYears
  have hinFour : inCentury - fourYears * 1461 < 1461 ∧ fourYears ≤ 24 := by omega
  generalize hinnermost : inCentury - fourYears * 1461 = inFour at *
  generalize hyear : min (inFour / 365) 3 = year
  have hhundred : (century * 100 + fourYears * 4 + year) / 100 = century := by omega
  have hquarter : (century * 100 + fourYears * 4 + year) / 4 = century * 25 + fourYears := by omega
  rw [hhundred, hquarter]
  refine ⟨by omega, by omega, ?_⟩
  unfold IsLeap
  omega

/-- A day of a year is within the month that it is put into. -/
theorem splitYear_spec {day : Nat} (h : day ≤ 365) :
    (splitYear day).1 < 12 ∧ day = monthStart (splitYear day).1 + (splitYear day).2 ∧
      day < monthStart ((splitYear day).1 + 1) := by
  simp only [splitYear, monthStart]
  omega

/-- A day count taken apart into a year that begins in March, and a month of it and a day of the month from zero. -/
theorem ofDays_spec (n : Int) : ∃ (march : Int) (month day : Nat), month < 12 ∧
    n + 719468 = marchStart march + (monthStart month + day : Nat) ∧
    monthStart month + day < monthStart (month + 1) ∧
    (monthStart month + day < 365 ∨
      monthStart month + day = 365 ∧ ∀ year : Nat, march + 1 = year → IsLeap year) ∧
    ofDays n = if month < 10 then ⟨march, month + 3, day + 1⟩ else ⟨march + 1, month - 9, day + 1⟩ := by
  let cycle := (n + 719468) / 146097
  let inCycle := ((n + 719468) % 146097).toNat
  let year := (splitCycle inCycle).1
  let inYear := (splitCycle inCycle).2
  have hcycle : n + 719468 = 146097 * cycle + inCycle ∧ inCycle < 146097 := by omega
  obtain ⟨hyear, hsum, hlast⟩ : year < 400 ∧ inCycle + year / 100 = 365 * year + year / 4 + inYear ∧
      (inYear < 365 ∨ inYear = 365 ∧ IsLeap (year + 1)) := splitCycle_spec hcycle.2
  obtain ⟨hmonth, hday, hend⟩ := splitYear_spec (show inYear ≤ 365 by omega)
  refine ⟨cycle * 400 + year, (splitYear inYear).1, (splitYear inYear).2, hmonth, ?_, ?_, ?_, rfl⟩
  · have hquarter : (cycle * 400 + year) / 4 = cycle * 100 + (year / 4 : Nat) := by omega
    have hhundred : (cycle * 400 + year) / 100 = cycle * 4 + (year / 100 : Nat) := by omega
    have hfull : (cycle * 400 + year) / 400 = cycle := by omega
    rw [← hday, marchStart, hquarter, hhundred, hfull, hcycle.1]
    omega
  · rwa [← hday]
  · rw [← hday]
    refine hlast.imp_right fun ⟨hinYear, hleap⟩ => ⟨hinYear, fun year' hyear' => ?_⟩
    -- leap years recur with every cycle
    unfold IsLeap at *
    omega

/-- **Dates are days of the calendar, and count the days.** -/
theorem dayNumber_ofDays {n : Int} {year : Nat} (h : (ofDays n).year = year) :
    IsDay year (ofDays n).month (ofDays n).day ∧ dayNumber year (ofDays n).month (ofDays n).day = n := by
  obtain ⟨march, month, day, hmonth, hn, hnext, hlast, hdate⟩ := ofDays_spec n
  -- in January and February the year that began in March is the one before
  by_cases hspring : month < 10
  · rw [if_pos hspring] at hdate
    rw [hdate] at h ⊢
    obtain rfl : march = year := h
    have hlength := monthStart_add_monthLength year hspring
    have hnumber := dayNumber_from_march year hspring day
    show IsDay year (month + 3) (day + 1) ∧ dayNumber year (month + 3) (day + 1) = n
    exact ⟨⟨Nat.le_add_left 1 _, by omega, Nat.le_add_left 1 _, by omega⟩, by omega⟩
  · rw [if_neg hspring] at hdate
    rw [hdate] at h ⊢
    have hyear : march + 1 = year := h
    obtain rfl : march = year - 1 := by omega
    have hwinter : month = 10 ∨ month = 11 := by omega
    have hnumber := dayNumber_before_march year hwinter day
    show IsDay year (month - 9) (day + 1) ∧ dayNumber year (month - 9) (day + 1) = n
    refine ⟨⟨by omega, by omega, Nat.le_add_left 1 _, ?_⟩, by omega⟩
    unfold monthStart at hnext hlast
    obtain rfl | rfl := hwinter
    · show day + 1 ≤ 31
      omega
    · show day + 1 ≤ if IsLeap year then 29 else 28
      obtain hlast | ⟨hlast, hleap⟩ := hlast
      · split <;> omega
      · rw [if_pos (hleap year hyear)]
        omega

/-- **The year of a date has come once its first day has.** -/
theorem le_year_iff (n : Int) (year : Nat) : (year : Int) ≤ (ofDays n).year ↔ dayNumber year 1 1 ≤ n := by
  obtain ⟨march, month, day, hmonth, hn, hnext, hlast, hdate⟩ := ofDays_spec n
  -- a year has come once the March of the year before and 306 days have
  have hbefore : march < year - 1 → marchStart march + 365 ≤ marchStart (year - 1) := marchStart_add_le
  have hsame : march = year - 1 → marchStart march = marchStart (year - 1) := congrArg marchStart
  have hafter : (year : Int) - 1 < march → marchStart (year - 1) + 365 ≤ marchStart march := marchStart_add_le
  unfold monthStart at hn hnext hlast
  rw [dayNumber_newYear, hdate]
  by_cases hspring : month < 10
  · rw [if_pos hspring]
    show (year : Int) ≤ march ↔ _
    omega
  · rw [if_neg hspring]
    show (year : Int) ≤ march + 1 ↔ _
    omega

end Date

end ScriptHost
