import ScriptHost.Json.Record
import ScriptHost.Time.Calendar

/-!
# Instants and durations

An instant is a number of whole seconds from the start of 1970, which may lie below zero, and a number of
nanoseconds after that second. Its text has milliseconds, rounded down, and is defined for the years that
the calendar covers. From the start of 1970 on an instant can be stored as a JSON object and read back.
-/

namespace ScriptHost

/-- A point in time, to the nanosecond. -/
structure Instant where
  seconds : Int
  nanos : Nat
  nanos_lt : nanos < 1000000000
deriving DecidableEq

namespace Instant

def nanosPerSecond : Nat := 1000000000

/-- The seconds of a day. There are no leap seconds. -/
def secondsPerDay : Nat := 86400

/-- The order of time: by seconds, and within one second by nanoseconds. -/
def compare (a b : Instant) : Ordering :=
  if a.seconds < b.seconds then .lt
  else if b.seconds < a.seconds then .gt
  else if a.nanos < b.nanos then .lt
  else if b.nanos < a.nanos then .gt
  else .eq

/-- The first second that the calendar covers. -/
def firstSecond : Int := -8334601228800

/-- The first second that the calendar does not cover any more. -/
def endSecond : Int := 8210266876800

def isCovered (t : Instant) : Bool := firstSecond ≤ t.seconds && t.seconds < endSecond

/-- A year: four digits, or a sign and at least four digits if that is not enough. -/
def yearText (year : Int) : List Char :=
  if 0 ≤ year ∧ year ≤ 9999 then Decimal.padded 4 year.toNat
  else (if year < 0 then '-' else '+') :: Decimal.padded 4 year.natAbs

def dateText (d : Date) : List Char :=
  yearText d.year ++ '-' :: Decimal.padded 2 d.month ++ '-' :: Decimal.padded 2 d.day

/-- The time of a day as text, from its second and its millisecond. -/
def clockText (second millis : Nat) : List Char :=
  Decimal.padded 2 (second / 3600) ++ ':' :: Decimal.padded 2 (second / 60 % 60)
    ++ ':' :: Decimal.padded 2 (second % 60) ++ '.' :: Decimal.padded 3 millis

/-- The instant as text, in UTC and rounded down to milliseconds. -/
def text (t : Instant) : List Char :=
  dateText (Date.ofDays (t.seconds.ediv secondsPerDay)) ++ 'T'
    :: clockText (t.seconds.emod secondsPerDay).toNat (t.nanos / 1000000) ++ ['Z']

/-- The stored form, which an instant before 1970 does not have. -/
def json (t : Instant) : Except String (List Char) :=
  if t.seconds < 0 then .error "SystemTime must be later than UNIX_EPOCH"
  else .ok (Json.object
    [("secs_since_epoch", Decimal.ofInt t.seconds), ("nanos_since_epoch", Decimal.digits t.nanos)])

/-- Whole seconds and further nanoseconds, of which there may be more than a second's worth. -/
structure Offset where
  secs : Nat
  nanos : Nat

/-- The seconds after the nanoseconds have been carried into them. -/
def Offset.carried (o : Offset) : Nat := o.secs + o.nanos / nanosPerSecond

/-- How an offset is read. Both numbers must be there, and the seconds must stay within 64 bits when they are
carried. -/
def Offset.record : Json.Record Offset where
  title := "SystemTime"
  fields :=
    [{ name := "secs_since_epoch"
       required := true
       read := (Json.Reader.unsigned 64).map fun n o => { o with secs := n } },
      { name := "nanos_since_epoch"
        required := true
        read := (Json.Reader.unsigned 32).map fun n o => { o with nanos := n } }]
  closed := true
  initial := ⟨0, 0⟩
  check o :=
    if o.carried < Nat.pow 2 64 then .ok ()
    else .error (.refused "overflow deserializing SystemTime epoch offset")

/-- The instant at an offset from the start of 1970. -/
def ofOffset (o : Offset) : Instant :=
  ⟨o.carried, o.nanos % nanosPerSecond, Nat.mod_lt _ (by decide)⟩

def reader : Json.Reader Instant := fun tokens => do
  let reading ← Offset.record.read tokens
  -- the record leaves 64 bits to the seconds, an instant only those without a sign
  if reading.value.carried < Nat.pow 2 63 then return reading.map ofOffset
  else .error (.refused "overflow deserializing SystemTime")

def ofBytes (bytes : List UInt8) : Except Json.Fault Instant := reader.ofBytes bytes

end Instant

/-! ## Durations

A span is printed in one unit with as many decimal places as it needs, as a summary shows it. -/

/-- A span of time: whole seconds and the nanoseconds beyond them. -/
structure Duration where
  seconds : Nat
  nanos : Nat
deriving DecidableEq, Repr

namespace Duration

def ofNanos (n : Nat) : Duration := ⟨n / 1000000000, n % 1000000000⟩

def totalNanos (d : Duration) : Nat := d.seconds * 1000000000 + d.nanos

/-- A number with so many decimal places, of which trailing zeros are dropped. -/
def decimal (whole places fraction : Nat) : List Char :=
  match Decimal.dropTrailingZeros (Decimal.padded places fraction) with
  | [] => Decimal.digits whole
  | ds => Decimal.digits whole ++ '.' :: ds

/-- The span in the greatest unit that it reaches: seconds, milli-, micro- or nanoseconds. -/
def text (d : Duration) : String :=
  String.ofList <|
    if 0 < d.seconds then decimal d.seconds 9 d.nanos ++ ['s']
    else if 1000000 ≤ d.nanos then decimal (d.nanos / 1000000) 6 (d.nanos % 1000000) ++ ['m', 's']
    else if 1000 ≤ d.nanos then decimal (d.nanos / 1000) 3 (d.nanos % 1000) ++ ['µ', 's']
    else Decimal.digits d.nanos ++ ['n', 's']

end Duration

end ScriptHost
