import Durable.Decimal.Binary
import Durable.Error.Object
import Durable.Time.Duration

/-!
# Exponential backoff

The delay after a failed attempt grows by a constant rate up to a longest
delay, is spread by a random draw, and is never shorter than one second.  The
growth is computed in doubles; seconds come back as the nearest nanosecond of
the exact binary value.
-/

namespace Durable

/-- A source of random numbers: for every limit a number up to that limit. -/
structure Sampler where
  pick : Nat → Nat
  pick_le : ∀ limit, pick limit ≤ limit

namespace Sampler

/-- The draw that is `part` of `whole` equal parts of the limit. -/
def proportional (part whole : Nat) : Sampler where
  pick limit := min limit (limit * part / whole)
  pick_le limit := Nat.min_le_left limit _

end Sampler

namespace Duration

/-- The seconds as a double, whose two parts are rounded before they are added. -/
def toSecondsFloat (duration : Duration) : Float :=
  Float.ofNat duration.seconds + Float.ofNat duration.nanos / 1.0e9

/-- The duration nearest to a number of seconds; none for numbers below zero,
for those that have too many seconds, and for NaN. -/
def ofSecondsFloat? (seconds : Float) : Option Duration :=
  match Decimal.Binary.ofFloat? seconds with
  | none => none
  | some binary =>
    let duration := ofNanos (binary.scaledRound nanosPerSecond)
    if binary.negative ∧ binary.significand ≠ 0 then none
    else if duration.seconds < Nat.pow 2 64 then some duration
    else none

end Duration

namespace Retry

/-- The smaller number; a NaN gives way to the other one. -/
def smaller (a b : Float) : Float :=
  if a.isNaN then b else if b.isNaN then a else if b < a then b else a

/-- The larger number; a NaN gives way to the other one. -/
def larger (a b : Float) : Float :=
  if a.isNaN then b else if b.isNaN then a else if a < b then b else a

/-- Repeated squaring: `result · base ^ exponent`, where the base is squared only
while there are bits of the exponent left. -/
def powerFrom (result base : Float) (exponent : Nat) : Float :=
  let result := if exponent % 2 = 1 then result * base else result
  if h : exponent / 2 = 0 then result
  else powerFrom result (base * base) (exponent / 2)
termination_by exponent
decreasing_by omega

def power (base : Float) (exponent : Nat) : Float :=
  powerFrom 1.0 base exponent

end Retry

/-- How a computed delay is spread. -/
inductive Jitter where
  | none
  | full
  | half
  deriving DecidableEq, Repr, Inhabited

namespace Jitter

/-- The milliseconds of a delay, as far as they fit 64 bits. -/
def millisOf (delay : Duration) : Nat :=
  min delay.toMillis (Nat.pow 2 64 - 1)

/-- No jitter keeps the delay, full jitter draws up to it, and half jitter draws
from its upper half; draws are in whole milliseconds. -/
def spread (jitter : Jitter) (sampler : Sampler) (delay : Duration) : Duration :=
  let millis := millisOf delay
  match jitter with
  | .none => delay
  | .full => .ofMillis (sampler.pick millis)
  | .half => .ofMillis (millis / 2 + sampler.pick (millis - millis / 2))

end Jitter

/-- The parameters of a growing delay.  `maxAttempts` counts the first attempt. -/
structure ExponentialBackoff where
  maxAttempts : Nat
  initialDelay : Duration
  maxDelay : Duration
  rate : Float
  jitter : Jitter
  nonRetryable : List String
  deriving Repr

namespace ExponentialBackoff

/-- Six attempts that start five seconds apart and double up to a minute. -/
def standard : ExponentialBackoff :=
  { maxAttempts := 6, initialDelay := .ofSeconds 5, maxDelay := .ofSeconds 60, rate := 2.0,
    jitter := .full, nonRetryable := [] }

def ofInitial (maxAttempts : Nat) (initialDelay : Duration) : ExponentialBackoff :=
  { standard with maxAttempts := maxAttempts, initialDelay := initialDelay }

/-- The shortest delay before any retry. -/
def leastDelay : Duration := .ofSeconds 1

def largestExponent : Nat := Nat.pow 2 31 - 1

/-- The delay after a failed attempt, before it is spread. -/
def baseDelay (backoff : ExponentialBackoff) (attempt : Nat) : Duration :=
  let exponent := min (attempt - 1) largestExponent
  let grown := backoff.initialDelay.toSecondsFloat * Retry.power backoff.rate exponent
  let capped := Retry.larger (Retry.smaller grown backoff.maxDelay.toSecondsFloat) 0.0
  (Duration.ofSecondsFloat? capped).getD backoff.maxDelay

/-- No further attempt is due after the last one, or after an error of a type
that is not retried. -/
def isExhausted (backoff : ExponentialBackoff) (attempt : Nat) (error : ErrorObject) : Bool :=
  decide (backoff.maxAttempts ≤ attempt) || backoff.nonRetryable.contains error.errorType

/-- A delay spread by a draw, and at least the shortest one. -/
def spreadDelay (jitter : Jitter) (sampler : Sampler) (base : Duration) : Duration :=
  (jitter.spread sampler base).max leastDelay

def delay? (backoff : ExponentialBackoff) (sampler : Sampler) (attempt : Nat)
    (error : ErrorObject) : Option Duration :=
  if backoff.isExhausted attempt error then none
  else some (spreadDelay backoff.jitter sampler (backoff.baseDelay attempt))

end ExponentialBackoff

end Durable
