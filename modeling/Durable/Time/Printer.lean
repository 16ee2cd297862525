import Durable.Time.Instant

/-!
# Written instants

Instants in coordinated universal time.  A fraction has three, six or nine
digits, as few as it needs, and none when it is zero; a year outside `0` to
`9999` carries its sign.
-/

namespace Durable

namespace Instant

/-- A number in at least `width` digits. -/
def padded (width n : Nat) : String :=
  let digits := Nat.toDigits 10 n
  String.ofList (List.replicate (width - digits.length) '0' ++ digits)

def yearText (year : Int) : String :=
  if 0 ≤ year ∧ year ≤ 9999 then padded 4 year.toNat
  else (if year < 0 then "-" else "+") ++ padded 4 year.natAbs

def dateText (date : Calendar.Date) : String :=
  yearText date.year ++ "-" ++ padded 2 date.month ++ "-" ++ padded 2 date.day

def fractionText (nanos : Nat) : String :=
  if nanos = 0 then ""
  else if nanos % 1000000 = 0 then "." ++ padded 3 (nanos / 1000000)
  else if nanos % 1000 = 0 then "." ++ padded 6 (nanos / 1000)
  else "." ++ padded 9 nanos

/-- A leap second is written as second `60`. -/
def clockText (t : Instant) : String :=
  let time := t.timeOfDay
  let (second, nanos) :=
    if t.inLeapSecond then (time % 60 + 1, t.nanos - Duration.nanosPerSecond)
    else (time % 60, t.nanos)
  padded 2 (time / 3600) ++ ":" ++ padded 2 (time / 60 % 60) ++ ":" ++ padded 2 second
    ++ fractionText nanos

/-- The form with a `T` between date and time, followed by a zone. -/
def stamp (t : Instant) (zone : String) : String :=
  dateText t.date ++ "T" ++ clockText t ++ zone

/-- The form in records: `2025-03-01T12:00:00Z`. -/
def text (t : Instant) : String :=
  t.stamp "Z"

/-- The form in messages: `2025-03-01 12:00:00 UTC`. -/
def display (t : Instant) : String :=
  dateText t.date ++ " " ++ clockText t ++ " UTC"

end Instant

end Durable
