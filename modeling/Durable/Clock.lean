import Durable.Time.Instant

/-!
# Virtual clocks

A clock whose reading moves only when it is told to.
-/

namespace Durable

structure Clock where
  now : Instant
  deriving DecidableEq, Repr, Inhabited

namespace Clock

/-- Jump to an instant; an earlier one leaves the clock as it is. -/
def advanceTo (clock : Clock) (t : Instant) : Clock :=
  ⟨clock.now.max t⟩

def advanceBy (clock : Clock) (d : Duration) : Clock :=
  ⟨clock.now.add d⟩

end Clock

end Durable
