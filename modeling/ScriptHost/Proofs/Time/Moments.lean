import ScriptHost.Proofs.Decimal.FixedWidth
import ScriptHost.Proofs.Time.Gregorian
import ScriptHost.Time.Instant

/-!
# Instants as text

A moment of the calendar is seven numbers from the year down to the millisecond. Lists of these numbers
are in the order of time, because each number stays within one of the number before it (`millis_lt_of_numbers_lt`),
and the text of a moment is a row of columns, which is in the order of its numbers. What the text denotes is said by
a reader of its own (`ofText?`), so nothing here rests on how texts are made. An instant in the years 0 to 9999 is
written as the moment of the millisecond in which it lies (`Instant.HasPlainYear.text`, `millis_moment`).

* **`Moment.text_lt_iff`**: texts of moments are in the order of time.
* **`text_names_millisecond`**: the text of an instant names its millisecond, and sorts like it.
-/

namespace ScriptHost

open Gregorian

/-- A moment of a day of the calendar, to the millisecond. -/
structure Moment where
  year : Nat
  month : Nat
  day : Nat
  hour : Nat
  minute : Nat
  second : Nat
  milli : Nat
deriving DecidableEq, Repr

namespace Moment

/-- There is such a moment, and its year has at most four digits. -/
structure Valid (m : Moment) : Prop where
  year_le : m.year ≤ 9999
  isDay : IsDay m.year m.month m.day
  hour_lt : m.hour < 24
  minute_lt : m.minute < 60
  second_lt : m.second < 60
  milli_lt : m.milli < 1000

/-- The milliseconds from the start of 1970. -/
def millis (m : Moment) : Int :=
  (((dayNumber m.year m.month m.day * 24 + m.hour) * 60 + m.minute) * 60 + m.second) * 1000 + m.milli

/-- The first moment of a year. -/
def newYear (year : Nat) : Moment := ⟨year, 1, 1, 0, 0, 0, 0⟩

theorem millis_newYear (year : Nat) :
    (newYear year).millis = (marchStart (year - 1) - 719162) * 86400000 := by
  simp only [millis, newYear, dayNumber_newYear]
  omega

/-! ## Texts

The form of a text is a list of columns. It is written from the numbers and read back into them, and whether
there is such a day is another question (`Valid`). -/

/-- The numbers of a moment, the greatest unit first. -/
def numbers (m : Moment) : List Nat := [m.year, m.month, m.day, m.hour, m.minute, m.second, m.milli]

def ofNumbers? : List Nat → Option Moment
  | [year, month, day, hour, minute, second, milli] => some ⟨year, month, day, hour, minute, second, milli⟩
  | _ => none

/-- The form `0000-00-00T00:00:00.000Z`. -/
def columns : List Decimal.Column :=
  [⟨4, '-'⟩, ⟨2, '-'⟩, ⟨2, 'T'⟩, ⟨2, ':'⟩, ⟨2, ':'⟩, ⟨2, '.'⟩, ⟨3, 'Z'⟩]

def text (m : Moment) : List Char := Decimal.row columns m.numbers

/-- Reads a text of that form. The numbers are not compared with the calendar. -/
def ofText? (text : List Char) : Option Moment := (Decimal.readRow? columns text).bind ofNumbers?

/-- The text names a moment that there is, so many milliseconds from the start of 1970. -/
def Denotes (text : List Char) (millis : Int) : Prop :=
  ∃ m, ofText? text = some m ∧ m.Valid ∧ m.millis = millis

variable {m m' : Moment}

/-- Every number of a moment has room in its column. -/
theorem Valid.fits (h : m.Valid) : Decimal.Fits columns m.numbers := by
  have hyear := h.year_le
  have hmonth := h.isDay.month_le
  have hday : m.day ≤ 31 := by
    have := h.isDay.day_le
    have := monthLength_le m.year m.month
    omega
  have hhour := h.hour_lt
  have hminute := h.minute_lt
  have hsecond := h.second_lt
  have hmilli := h.milli_lt
  -- the columns have more room than the calendar takes
  exact .cons (by decide) (show m.year < 10000 by omega) <| .cons (by decide) (show m.month < 100 by omega) <|
    .cons (by decide) (show m.day < 100 by omega) <| .cons (by decide) (show m.hour < 100 by omega) <|
    .cons (by decide) (show m.minute < 100 by omega) <| .cons (by decide) (show m.second < 100 by omega) <|
    .cons (by decide) (show m.milli < 1000 by omega) .nil

theorem length_text (h : m.Valid) : m.text.length = 24 := Decimal.length_row h.fits

theorem ofText?_text (h : m.Valid) : ofText? m.text = some m := by
  rw [ofText?, text, Decimal.readRow?_row h.fits]
  rfl

theorem Valid.denotes (h : m.Valid) : Denotes m.text m.millis := ⟨m, ofText?_text h, h, rfl⟩

/-! ## The order of moments

Two moments are compared by their numbers and by their milliseconds. One direction is arithmetic; the other
follows because both orders are total. -/

/-- **Numbers are in the order of time.** The first that differs decides. -/
theorem millis_lt_of_numbers_lt (h : m.Valid) (hlt : m.numbers < m'.numbers) : m.millis < m'.millis := by
  have hhour := h.hour_lt
  have hminute := h.minute_lt
  have hsecond := h.second_lt
  have hmilli := h.milli_lt
  have hdays : _ → dayNumber m.year m.month m.day < dayNumber m'.year m'.month m'.day := dayNumber_lt h.isDay
  -- the first number that differs decides: what comes after it stays within one of it
  unfold millis
  simp only [numbers, List.cons_lt_cons_iff, List.lt_irrefl, and_false, or_false] at hlt
  obtain hlt | ⟨hyear, hlt | ⟨hmonth, hlt | ⟨hday, hlt⟩⟩⟩ := hlt
  · have := hdays (.inl hlt)
    omega
  · have := hdays (.inr ⟨hyear, .inl hlt⟩)
    omega
  · have := hdays (.inr ⟨hyear, .inr ⟨hmonth, hlt⟩⟩)
    omega
  · rw [hyear, hmonth, hday]
    omega

/-- **Texts of moments are in the order of time.** -/
theorem text_lt_iff (h : m.Valid) (h' : m'.Valid) : m.text < m'.text ↔ m.millis < m'.millis := by
  rw [text, text, Decimal.row_lt_iff h.fits h'.fits]
  refine ⟨millis_lt_of_numbers_lt h, fun hlt => ?_⟩
  -- the numbers are in some order, and the two others are against what is known
  obtain hnumbers | hnumbers | hnumbers := Std.lt_trichotomy m.numbers m'.numbers
  · exact hnumbers
  · have : some m = some m' := congrArg ofNumbers? hnumbers
    obtain rfl := Option.some.inj this
    exact absurd hlt (Int.lt_irrefl _)
  · have := millis_lt_of_numbers_lt h' hnumbers
    omega

/-- Two moments are written alike only if they are the same. -/
theorem text_inj (h : m.Valid) (h' : m'.Valid) : m.text = m'.text ↔ m.millis = m'.millis := by
  have hlt := text_lt_iff h h'
  have hgt := text_lt_iff h' h
  constructor
  · intro htext
    simp only [htext, List.lt_irrefl, false_iff] at hlt hgt
    omega
  · intro hmillis
    obtain htext | htext | htext := Std.lt_trichotomy m.text m'.text
    · have := hlt.mp htext
      omega
    · exact htext
    · have := hgt.mp htext
      omega

/-! ## Moments of a date

An instant has a date, a second of the day and a fraction of that second. These are the numbers of its moment
but for the hours, minutes and seconds, which are divided out. -/

/-- The moment of a date at a second of the day and a millisecond of that second. -/
def ofDate (d : Date) (second milli : Nat) : Moment where
  year := d.year.toNat
  month := d.month
  day := d.day
  hour := second / 3600
  minute := second / 60 % 60
  second := second % 60
  milli := milli

section OfDate

variable {d : Date} {second milli : Nat}

/-- A second of the day and a millisecond of the second are taken apart into numbers within their bounds. -/
theorem valid_ofDate (hyear : d.year ≤ 9999) (hday : IsDay d.year.toNat d.month d.day)
    (hsecond : second < 86400) (hmilli : milli < 1000) : (ofDate d second milli).Valid where
  year_le := by
    show d.year.toNat ≤ 9999
    omega
  isDay := hday
  hour_lt := by
    show second / 3600 < 24
    omega
  minute_lt := Nat.mod_lt _ (by decide)
  second_lt := Nat.mod_lt _ (by decide)
  milli_lt := hmilli

/-- And the numbers add up to them again. -/
theorem millis_ofDate :
    (ofDate d second milli).millis
      = (dayNumber d.year.toNat d.month d.day * 86400 + second) * 1000 + milli := by
  simp only [millis, ofDate]
  omega

/-- The date and the clock are written by functions of their own. One after the other, they write the row. -/
theorem text_ofDate (hyear : 0 ≤ d.year ∧ d.year ≤ 9999) :
    (ofDate d second milli).text
      = Instant.dateText d ++ 'T' :: Instant.clockText second milli ++ ['Z'] := by
  have hyearText : Instant.yearText d.year = Decimal.padded 4 d.year.toNat := if_pos hyear
  simp [text, columns, numbers, Decimal.row, ofDate, Instant.dateText, hyearText, Instant.clockText]

end OfDate

end Moment

/-! ## Instants

An instant is written by way of its day. The years 0 to 9999 are where the year is written with four digits and
no sign. -/

namespace Instant

/-- The nanoseconds from the start of 1970. -/
def totalNanos (t : Instant) : Int := t.seconds * 1000000000 + t.nanos

/-- The whole milliseconds from the start of 1970, below zero for an earlier instant and always rounded down. -/
def millis (t : Instant) : Int := t.totalNanos / 1000000

/-- The instant lies in the years 0 to 9999. -/
def HasPlainYear (t : Instant) : Prop :=
  (Moment.newYear 0).millis ≤ t.millis ∧ t.millis < (Moment.newYear 10000).millis

/-- The days from the start of 1970 that have passed. -/
def days (t : Instant) : Int := t.seconds.ediv secondsPerDay

def date (t : Instant) : Date := Date.ofDays t.days

/-- The seconds of the day that have passed. -/
def secondOfDay (t : Instant) : Nat := (t.seconds.emod secondsPerDay).toNat

/-- The moment in whose millisecond the instant lies. -/
def moment (t : Instant) : Moment := .ofDate t.date t.secondOfDay (t.nanos / 1000000)

/-- The seconds are whole days and a second of the day, which is never below zero. -/
theorem seconds_eq (t : Instant) : t.seconds = t.days * 86400 + t.secondOfDay ∧ t.secondOfDay < 86400 := by
  have hdays : t.days = t.seconds / 86400 := rfl
  have hsecond : t.secondOfDay = (t.seconds % 86400).toNat := rfl
  omega

/-- Nanoseconds beyond the millisecond are dropped, before 1970 as well. -/
theorem millis_eq (t : Instant) : t.millis = t.seconds * 1000 + (t.nanos / 1000000 : Nat) := by
  unfold millis totalNanos
  omega

/-- The years as bounds on the milliseconds, which can be decided. -/
theorem hasPlainYear_iff (t : Instant) :
    t.HasPlainYear ↔ -62167219200000 ≤ t.millis ∧ t.millis < 253402300800000 := by
  have hstart : (Moment.newYear 0).millis = -62167219200000 := Moment.millis_newYear 0
  have hend : (Moment.newYear 10000).millis = 253402300800000 := Moment.millis_newYear 10000
  rw [HasPlainYear, hstart, hend]

section PlainYear

variable {t : Instant}

/-- The day of the instant lies in these years. -/
theorem HasPlainYear.days (h : t.HasPlainYear) : dayNumber 0 1 1 ≤ t.days ∧ t.days < dayNumber 10000 1 1 := by
  have hseconds := t.seconds_eq
  have hnanos := t.nanos_lt
  unfold HasPlainYear at h
  rw [millis_eq] at h
  simp only [Moment.millis, Moment.newYear] at h
  -- a day is whole, so the bounds on milliseconds are bounds on days
  omega

/-- So its year has four digits at most. -/
theorem HasPlainYear.year (h : t.HasPlainYear) : 0 ≤ t.date.year ∧ t.date.year ≤ 9999 := by
  have hstart : ((0 : Nat) : Int) ≤ t.date.year := (Date.le_year_iff t.days 0).mpr h.days.1
  have hend : ¬ ((10000 : Nat) : Int) ≤ t.date.year :=
    fun hle => Int.not_lt.mpr ((Date.le_year_iff t.days 10000).mp hle) h.days.2
  omega

/-- The calendar goes much further in both directions. -/
theorem HasPlainYear.isCovered (h : t.HasPlainYear) : t.isCovered = true := by
  rw [hasPlainYear_iff, millis_eq] at h
  have hnanos := t.nanos_lt
  rw [Instant.isCovered, Bool.and_eq_true, decide_eq_true_eq, decide_eq_true_eq]
  unfold firstSecond endSecond
  omega

/-- The date is a day of the calendar, and it has the number of the instant's day. -/
theorem HasPlainYear.date (h : t.HasPlainYear) :
    IsDay t.date.year.toNat t.date.month t.date.day ∧
      dayNumber t.date.year.toNat t.date.month t.date.day = t.days :=
  Date.dayNumber_ofDays (Int.toNat_of_nonneg h.year.1).symm

/-- The moment of the instant is one of the calendar. -/
theorem HasPlainYear.valid (h : t.HasPlainYear) : t.moment.Valid := by
  have hnanos := t.nanos_lt
  exact Moment.valid_ofDate h.year.2 h.date.1 t.seconds_eq.2 (by omega)

/-- It is the start of the millisecond in which the instant lies. -/
theorem HasPlainYear.millis_moment (h : t.HasPlainYear) : t.moment.millis = t.millis := by
  have hseconds := t.seconds_eq.1
  rw [moment, Moment.millis_ofDate, h.date.2, millis_eq]
  omega

/-- It is what the text of the instant says. -/
theorem HasPlainYear.text (h : t.HasPlainYear) : t.text = t.moment.text :=
  (Moment.text_ofDate h.year).symm

end PlainYear

/-- Texts of instants are in the order of their milliseconds. -/
theorem text_lt_iff {t u : Instant} (ht : t.HasPlainYear) (hu : u.HasPlainYear) :
    t.text < u.text ↔ t.millis < u.millis := by
  rw [ht.text, hu.text, Moment.text_lt_iff ht.valid hu.valid, ht.millis_moment, hu.millis_moment]

/-- They are the same for instants within one millisecond, and only for those. -/
theorem text_inj {t u : Instant} (ht : t.HasPlainYear) (hu : u.HasPlainYear) :
    t.text = u.text ↔ t.millis = u.millis := by
  rw [ht.text, hu.text, Moment.text_inj ht.valid hu.valid, ht.millis_moment, hu.millis_moment]

end Instant

/-- **An instant is written to the millisecond, and texts are in the order of time.** The text of an instant
in the years 0 to 9999 has 24 characters and names the millisecond in which the instant lies; two such texts
are in the order of these milliseconds, and the same only for instants in the same one. -/
theorem text_names_millisecond {t u : Instant} (ht : t.HasPlainYear) (hu : u.HasPlainYear) :
    (t.isCovered = true ∧ t.text.length = 24 ∧ Moment.Denotes t.text t.millis) ∧
    (String.ofList t.text ≤ String.ofList u.text ↔ t.millis ≤ u.millis) ∧
    (String.ofList t.text = String.ofList u.text ↔ t.millis = u.millis) := by
  refine ⟨⟨ht.isCovered, ?_, ?_⟩, ?_, ?_⟩
  · rw [ht.text, Moment.length_text ht.valid]
  · rw [ht.text, ← ht.millis_moment]
    exact ht.valid.denotes
  · rw [← String.not_lt, String.lt_iff, String.toList_ofList, String.toList_ofList,
      Instant.text_lt_iff hu ht, Int.not_lt]
  · rw [String.ofList_inj, Instant.text_inj ht hu]

/-- The last nanosecond before the start of 1970. -/
def lastBefore1970 : Instant := ⟨-1, 999999999, by decide⟩

/-- An instant on the leap day of 2000. -/
def onLeapDay : Instant := ⟨951826554, 321500000, by decide⟩

/-- The two texts, each in its millisecond: rounding down before 1970 ends with the last one of 1969. -/
theorem text_names_millisecond_lastBefore1970 :
    (lastBefore1970.HasPlainYear ∧ onLeapDay.HasPlainYear ∧
      lastBefore1970.text = "1969-12-31T23:59:59.999Z".toList ∧
      onLeapDay.text = "2000-02-29T12:15:54.321Z".toList) ∧
    (lastBefore1970.isCovered = true ∧ lastBefore1970.text.length = 24 ∧
      Moment.Denotes lastBefore1970.text lastBefore1970.millis) ∧
    (String.ofList lastBefore1970.text ≤ String.ofList onLeapDay.text ↔
      lastBefore1970.millis ≤ onLeapDay.millis) ∧
    (String.ofList lastBefore1970.text = String.ofList onLeapDay.text ↔
      lastBefore1970.millis = onLeapDay.millis) := by
  have hlast : lastBefore1970.HasPlainYear := lastBefore1970.hasPlainYear_iff.mpr (by decide)
  have hleap : onLeapDay.HasPlainYear := onLeapDay.hasPlainYear_iff.mpr (by decide)
  exact ⟨⟨hlast, hleap, by decide, by decide⟩, text_names_millisecond hlast hleap⟩

end ScriptHost
