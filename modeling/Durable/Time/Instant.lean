import Durable.Time.Calendar
import Durable.Time.Duration

/-!
# Instants

A point in time in seconds from the epoch and nanoseconds.  Nanoseconds from a
whole second on lie in a leap second, which belongs to the second before it.
Adding a duration saturates at the latest instant.
-/

namespace Durable

structure Instant where
  seconds : Int
  nanos : Nat
  deriving DecidableEq, Repr, Inhabited

namespace Instant

/-- The last nanosecond of the year 262142. -/
def latest : Instant := ⟨8210266876799, 999999999⟩

/-- The first second of the year -262143. -/
def earliest : Instant := ⟨-8334601228800, 0⟩

def epoch : Instant := ⟨0, 0⟩

/-- Not later than, in the order of seconds and then nanoseconds. -/
def le (a b : Instant) : Prop :=
  a.seconds < b.seconds ∨ (a.seconds = b.seconds ∧ a.nanos ≤ b.nanos)

def lt (a b : Instant) : Prop :=
  a.seconds < b.seconds ∨ (a.seconds = b.seconds ∧ a.nanos < b.nanos)

instance : LE Instant := ⟨le⟩

instance : LT Instant := ⟨lt⟩

instance (a b : Instant) : Decidable (a ≤ b) :=
  inferInstanceAs (Decidable (_ ∨ _))

instance (a b : Instant) : Decidable (a < b) :=
  inferInstanceAs (Decidable (_ ∨ _))

protected def max (a b : Instant) : Instant :=
  if a < b then b else a

protected def min (a b : Instant) : Instant :=
  if b < a then b else a

/-- Between the earliest and the latest instant, with nanoseconds of one second
or of the leap second after it. -/
def Representable (t : Instant) : Prop :=
  earliest.seconds ≤ t.seconds ∧ t.seconds ≤ latest.seconds
    ∧ t.nanos < 2 * Duration.nanosPerSecond

instance (t : Instant) : Decidable t.Representable :=
  inferInstanceAs (Decidable (_ ∧ _ ∧ _))

def inLeapSecond (t : Instant) : Bool :=
  decide (Duration.nanosPerSecond ≤ t.nanos)

/-- The nanoseconds from the epoch, where there is no leap second. -/
def toNanos (t : Instant) : Int :=
  t.seconds * Duration.nanosPerSecond + t.nanos

/-- Carry a whole second out of the nanoseconds. -/
def carry (seconds : Int) (nanos : Nat) : Instant :=
  ⟨seconds + (nanos / Duration.nanosPerSecond : Nat), nanos % Duration.nanosPerSecond⟩

/-- The sum without regard to the latest instant.  A sum that stays within a
leap second stays in it, and one that leaves it counts from the second before. -/
def plus (t : Instant) (d : Duration) : Instant :=
  if t.inLeapSecond then
    if d.seconds = 0 ∧ t.nanos + d.nanos < 2 * Duration.nanosPerSecond then
      ⟨t.seconds, t.nanos + d.nanos⟩
    else carry (t.seconds + d.seconds) (t.nanos - Duration.nanosPerSecond + d.nanos)
  else carry (t.seconds + d.seconds) (t.nanos + d.nanos)

/-- The longest duration that is added at all: `2 ^ 63 - 1` milliseconds. -/
def longestStep : Duration := ⟨9223372036854775, 807000000⟩

/-- The instant a duration later, or the latest instant if that is earlier. -/
def add (t : Instant) (d : Duration) : Instant :=
  if d.atMost longestStep then
    let sum := t.plus d
    if sum.seconds ≤ latest.seconds then sum else latest
  else latest

def secondsPerDay : Int := 86400

def date (t : Instant) : Calendar.Date :=
  Calendar.ofDays (t.seconds / secondsPerDay)

/-- The second of the day. -/
def timeOfDay (t : Instant) : Nat :=
  (t.seconds % secondsPerDay).toNat

end Instant

end Durable
