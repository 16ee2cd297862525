import Durable.Json.Value
import Durable.Retry.Strategy
import Durable.Step

/-!
# Durations and retry strategies as JSON

A duration is a number of seconds or an object of its two parts.  A strategy is
an object that names its kind; an unknown kind never retries.
-/

namespace Durable

namespace Duration

def toJson (duration : Duration) : Json :=
  .ofMembers [("nanos", .natural duration.nanos), ("secs", .natural duration.seconds)]

def ofJson? (value : Json) : Option Duration :=
  match value with
  | .number (.integer seconds) => some (.ofSeconds seconds.toNat)
  | .object _ => some (.ofParts (value.naturalAt "secs") (value.naturalAt "nanos"))
  | _ => none

/-- The duration of a member; zero when there is none. -/
def ofMember (key : String) (value : Json) : Duration :=
  ((value.field? key).bind ofJson?).getD zero

end Duration

namespace Jitter

def ofText? : String → Option Jitter
  | "none" => some .none
  | "full" => some .full
  | "half" => some .half
  | _ => Option.none

end Jitter

namespace ExponentialBackoff

/-- The parameters that an object gives; without an initial delay it starts from
the standard ones. -/
def ofJson (value : Json) : ExponentialBackoff :=
  let start := match value.field? "initial_delay" with
    | none => standard
    | some _ => ofInitial (value.naturalAt "max_attempts") (.ofMember "initial_delay" value)
  { start with
    maxDelay := ((value.field? "max_delay").bind Duration.ofJson?).getD start.maxDelay
    rate := ((value.field? "backoff_rate").bind Json.double?).getD start.rate
    jitter := ((value.field? "jitter").bind fun jitter =>
      jitter.text?.bind Jitter.ofText?).getD start.jitter
    nonRetryable := value.textsAt "non_retryable" }

end ExponentialBackoff

namespace RetryStrategy

def ofJson (value : Json) : RetryStrategy :=
  match value.textAt "kind" with
  | "fixed" | "preset_fixed" => .fixed (value.naturalAt "max_attempts") (.ofMember "delay" value)
  | "exponential" => .exponential (.ofJson value)
  | "preset_default" => .standard
  | "closure" =>
    .listed ((value.elementsAt "delays").map Duration.ofJson?)
      ((value.field? "only").map fun _ => value.textsAt "only")
  | _ => .never

end RetryStrategy

namespace StepSemantics

def ofText? : String → Option StepSemantics
  | "at_most_once" => some .atMostOnce
  | "at_least_once" => some .atLeastOnce
  | _ => none

end StepSemantics

namespace StepConfig

/-- The configuration that an object gives under `retry` and `semantics`. -/
def ofJson (sampler : Sampler) (value : Json) : StepConfig where
  retry := (RetryStrategy.ofJson ((value.field? "retry").getD .null)).delay? sampler
  semantics := (StepSemantics.ofText? (value.textAt "semantics")).getD .atMostOnce

end StepConfig

end Durable
