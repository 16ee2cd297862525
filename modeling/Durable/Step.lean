import Durable.Logger
import Durable.Retry.Strategy

/-!
# Steps

How a step is attempted, and what its body is told about the attempt.
-/

namespace Durable

/-- How often the body of a step may run for one attempt.  At most once means
that a marker is recorded before the body runs, so that an attempt which left
no outcome is reported and not repeated; at least once means that only the
outcome is recorded, so that such an attempt runs again. -/
inductive StepSemantics where
  | atMostOnce
  | atLeastOnce
  deriving DecidableEq, Repr, Inhabited

namespace StepSemantics

def text : StepSemantics → String
  | .atMostOnce => "AtMostOncePerRetry"
  | .atLeastOnce => "AtLeastOncePerRetry"

end StepSemantics

/-- How a step is attempted. -/
structure StepConfig where
  retry : RetryPolicy
  semantics : StepSemantics

namespace StepConfig

/-- One attempt, at most once. -/
def standard : StepConfig :=
  ⟨fun _ _ => none, .atMostOnce⟩

/-- The diagnostic text, which leaves the retry policy out. -/
def debugText (config : StepConfig) : String :=
  "StepConfig \x7b semantics: " ++ config.semantics.text ++ ", .. \x7d"

end StepConfig

/-- What a body knows about the attempt that it carries out. -/
structure StepContext where
  executionId : String
  operationId : String
  name : String
  attempt : Nat
  deriving DecidableEq, Repr, Inhabited

namespace StepContext

/-- The scope of the log calls that the body makes. -/
def scope (context : StepContext) : OperationScope :=
  ⟨context.operationId, context.name, context.attempt⟩

end StepContext

end Durable
