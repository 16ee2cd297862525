import Durable.Retry.Backoff

/-!
# Retry strategies

A strategy says, for the attempt that just failed and its error, how long to
wait before the next attempt, or that there is none.
-/

namespace Durable

/-- The delay after a failed attempt; none when the failure is final. -/
abbrev RetryPolicy := Nat → ErrorObject → Option Duration

inductive RetryStrategy where
  | never
  | fixed (maxAttempts : Nat) (delay : Duration)
  | exponential (backoff : ExponentialBackoff)
  | custom (policy : RetryPolicy)

namespace RetryStrategy

def delay? (strategy : RetryStrategy) (sampler : Sampler) : RetryPolicy :=
  fun attempt error =>
    match strategy with
    | .never => none
    | .fixed maxAttempts delay => if attempt < maxAttempts then some delay else none
    | .exponential backoff => backoff.delay? sampler attempt error
    | .custom policy => policy attempt error

/-- The strategy of the backoff with its standard parameters. -/
def standard : RetryStrategy := .exponential .standard

/-- A delay for each attempt in turn, given only for errors of some types if
these are named. -/
def listed (delays : List (Option Duration)) (onlyTypes : Option (List String)) :
    RetryStrategy :=
  .custom fun attempt error =>
    let applies : Bool := match onlyTypes with
      | none => true
      | some types => types.contains error.errorType
    if applies ∧ 0 < attempt then (delays[attempt - 1]?).join else none

end RetryStrategy

end Durable
