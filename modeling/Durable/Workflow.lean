import Durable.Invocation.Step
import Durable.Invocation.Wait

/-!
# Workflows

A workflow is a tree of declarations.  What follows a call depends on its
outcome; what follows an observation depends on what was seen.  Running a
workflow walks the tree once.
-/

namespace Durable

/-- A workflow with step values in `V` and an output in `O`. -/
inductive Workflow (V O : Type) where
  | done (outcome : Except DurableError O)
  | step (name : String) (config : StepConfig) (codec : Codec V) (body : StepBody V)
      (next : Except DurableError V → Workflow V O)
  | wait (name : String) (duration : Duration) (next : Except DurableError Unit → Workflow V O)
  | log (level : LogLevel) (message : String) (next : Workflow V O)
  | observe (next : Observation → Workflow V O)
  | advance (duration : Duration) (next : Workflow V O)

/-- The end of a pass: the workflow's outcome, or a crash on the way. -/
inductive PassEnd (O : Type) where
  | returned (outcome : Except DurableError O)
  | crashed

namespace Workflow

variable {V O : Type}

def run : Workflow V O → Invocation V → PassEnd O × Invocation V
  | .done outcome, invocation => (.returned outcome, invocation)
  | .step name config codec body next, invocation =>
    match invocation.step name config codec body with
    | (.crashed, invocation) => (.crashed, invocation)
    | (.returned outcome, invocation) => (next outcome).run invocation
  | .wait name duration next, invocation =>
    match invocation.wait name duration with
    | (outcome, invocation) => (next outcome).run invocation
  | .log level message next, invocation => next.run (invocation.logCall level message)
  | .observe next, invocation =>
    (next invocation.observation).run (invocation.emit (.observed invocation.observation))
  | .advance duration next, invocation => next.run (invocation.advance duration)

end Workflow

end Durable
