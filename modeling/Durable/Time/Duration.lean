/-!
# Durations

A span of time in whole seconds and nanoseconds.  Durations are never negative
and have at most `2 ^ 64 - 1` seconds.
-/

namespace Durable

structure Duration where
  seconds : Nat
  nanos : Nat
  deriving DecidableEq, Repr, Inhabited

namespace Duration

def nanosPerSecond : Nat := 1000000000

def zero : Duration := ⟨0, 0⟩

def ofSeconds (seconds : Nat) : Duration := ⟨seconds, 0⟩

/-- Whole seconds among the nanoseconds are carried over. -/
def ofParts (seconds nanos : Nat) : Duration :=
  ⟨seconds + nanos / nanosPerSecond, nanos % nanosPerSecond⟩

def ofMillis (millis : Nat) : Duration :=
  ⟨millis / 1000, millis % 1000 * 1000000⟩

def ofNanos (nanos : Nat) : Duration :=
  ⟨nanos / nanosPerSecond, nanos % nanosPerSecond⟩

def toNanos (duration : Duration) : Nat :=
  duration.seconds * nanosPerSecond + duration.nanos

/-- The number of whole milliseconds. -/
def toMillis (duration : Duration) : Nat :=
  duration.seconds * 1000 + duration.nanos / 1000000

/-- The limits of the two parts. -/
def Representable (duration : Duration) : Prop :=
  duration.seconds < Nat.pow 2 64 ∧ duration.nanos < nanosPerSecond

instance (duration : Duration) : Decidable duration.Representable :=
  inferInstanceAs (Decidable (_ ∧ _))

/-- Shorter or equally long. -/
def atMost (a b : Duration) : Bool :=
  decide (a.seconds < b.seconds) || (a.seconds == b.seconds && decide (a.nanos ≤ b.nanos))

protected def max (a b : Duration) : Duration :=
  if a.atMost b then b else a

end Duration

end Durable
