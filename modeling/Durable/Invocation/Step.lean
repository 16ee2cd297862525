import Durable.Invocation

/-!
# Step calls

A step either recalls a recorded outcome or carries out one attempt.  An attempt
under at-most-once semantics is marked before its body runs, and every outcome
is recorded before the workflow sees it.
-/

namespace Durable

/-- How step values are written as JSON and read back, with the text of the
error when that fails. -/
structure Codec (V : Type) where
  encode : V → Except String Json
  decode : Json → Except String V

inductive BodyAction where
  | log (level : LogLevel) (message : String)
  | advance (duration : Duration)
  deriving DecidableEq, Repr

/-- How a body ends.  In a crash the process dies. -/
inductive BodyOutcome (V : Type) where
  | value (value : V)
  | failure (error : ErrorObject)
  | crash

/-- What a body does, and how it ends. -/
structure BodyRun (V : Type) where
  actions : List BodyAction
  outcome : BodyOutcome V

abbrev StepBody (V : Type) := StepContext → BodyRun V

/-- How a call ends: with an outcome for the workflow, or not at all. -/
inductive Reply (α : Type) where
  | returned (outcome : Except DurableError α)
  | crashed

/-- What a step call does about the record it finds. -/
inductive StepPlan where
  | replay (operation : Operation)
  | fail (error : DurableError)
  | interrupt (operation : Operation)
  | attempt (number : Nat)

namespace StepPlan

/-- A failure without an error. -/
def unknownFailure : ErrorObject :=
  ⟨ErrorType.unknown, "step failed without a recorded error"⟩

def ofRecord (recorded : Option Operation) (semantics : StepSemantics) (now : Instant) :
    StepPlan :=
  match recorded with
  | none => .attempt 1
  | some operation =>
    match operation.status with
    | .succeeded => .replay operation
    | .failed => .fail (.stepFailed operation.name (operation.error.getD unknownFailure))
    | .pending =>
      if operation.isReady now then .attempt (operation.attempt + 1)
      else .fail (.suspended (operation.readyAt.getD now))
    | .started =>
      match semantics with
      | .atMostOnce => .interrupt operation
      | .atLeastOnce => .attempt (max operation.attempt 1)

end StepPlan

namespace Operation

/-- The recorded result as a value; a step that succeeded has one. -/
def replay {V : Type} (operation : Operation) (codec : Codec V) : Except DurableError V :=
  match operation.result with
  | none =>
    .error (.invalidOperationState operation.name "succeeded without a recorded result")
  | some result => (codec.decode result).mapError .serialization

end Operation

namespace OperationUpdate

/-- The state of an interrupted attempt, with the error that reports it. -/
def interrupted (attempt : Nat) (error : ErrorObject) : OperationUpdate :=
  { started attempt with error := some error }

end OperationUpdate

namespace Invocation

variable {V : Type}

def act (invocation : Invocation V) : BodyAction → Invocation V
  | .log level message => invocation.logCall level message
  | .advance duration => invocation.advance duration

/-- Run a body inside the log scope of its attempt. -/
def runBody (begun : Invocation V) (context : StepContext) (body : StepBody V) :
    BodyOutcome V × Invocation V :=
  let (logger, guard) := begun.logger.enter context.scope
  let run := body context
  let finished := run.actions.foldl act { begun with logger := logger }
  (run.outcome, { finished with logger := finished.logger.exit guard })

/-- Record the state of an attempt and report it; when the store fails, its
error is the outcome. -/
def conclude (invocation : Invocation V) (template : Operation) (update : OperationUpdate)
    (diagnostic : Diagnostic) (outcome : Except DurableError V) :
    Except DurableError V × Invocation V :=
  match invocation.put template update with
  | (.error error, invocation) => (.error (.checkpoint error), invocation)
  | (.ok _, invocation) => (outcome, invocation.diagnose diagnostic)

/-- A value is recorded in its encoded form.  One that cannot be encoded counts
as a failure of the step. -/
def succeed (invocation : Invocation V) (template : Operation) (context : StepContext)
    (codec : Codec V) (value : V) : Except DurableError V × Invocation V :=
  match codec.encode value with
  | .ok payload =>
    invocation.conclude template (.succeeded context.attempt payload) (.stepSucceeded context)
      (.ok value)
  | .error details =>
    let error : ErrorObject := ⟨ErrorType.serialization, details⟩
    invocation.conclude template (.failed context.attempt error)
      (.resultNotEncoded context details) (.error (.stepFailed context.name error))

/-- A failure is final unless the retry policy grants a further attempt, for
which the invocation is suspended. -/
def fail (invocation : Invocation V) (template : Operation) (context : StepContext)
    (retry : RetryPolicy) (error : ErrorObject) : Except DurableError V × Invocation V :=
  match retry context.attempt error with
  | some delay =>
    let readyAt := invocation.now.add delay
    invocation.conclude template (.retryScheduled context.attempt readyAt)
      (.retryScheduled context error.errorType readyAt) (.error (.suspended readyAt))
  | none =>
    invocation.conclude template (.failed context.attempt error)
      (.retriesExhausted context error.errorType) (.error (.stepFailed context.name error))

/-- Mark an attempt before its body runs, where the semantics ask for it. -/
def mark (invocation : Invocation V) (template : Operation) (semantics : StepSemantics)
    (attempt : Nat) : Except StoreError Unit × Invocation V :=
  match semantics with
  | .atLeastOnce => (.ok (), invocation)
  | .atMostOnce =>
    match invocation.put template (.started attempt) with
    | (.error error, invocation) => (.error error, invocation)
    | (.ok _, invocation) => (.ok (), invocation)

def attempt (invocation : Invocation V) (ordinal : Nat) (name : String) (number : Nat)
    (config : StepConfig) (codec : Codec V) (body : StepBody V) : Reply V × Invocation V :=
  let template := Operation.step ordinal name
  let context : StepContext := ⟨invocation.executionId, template.id, name, number⟩
  match (invocation.withReplaying false).mark template config.semantics number with
  | (.error error, invocation) => (.returned (.error (.checkpoint error)), invocation)
  | (.ok _, invocation) =>
    let begun := invocation.emit
      (.bodyBegun ordinal config.semantics context invocation.isReplaying)
    match begun.runBody context body with
    | (.crash, invocation) => (.crashed, invocation)
    | (.value value, invocation) =>
      let (outcome, invocation) := invocation.succeed template context codec value
      (.returned outcome, invocation)
    | (.failure error, invocation) =>
      let (outcome, invocation) := invocation.fail template context config.retry error
      (.returned outcome, invocation)

/-- Report an attempt that was begun earlier and left no outcome.  The report is
added to its record once. -/
def interrupt (invocation : Invocation V) (operation : Operation) :
    DurableError × Invocation V :=
  let error := DurableError.stepInterrupted operation.name operation.attempt
  let invocation := invocation.diagnose
    (.stepInterrupted invocation.executionId operation.id operation.attempt)
  match operation.error with
  | some _ => (error, invocation)
  | none =>
    match invocation.update operation.ordinal
        (.interrupted operation.attempt error.toObject) with
    | (.error storeError, invocation) => (.checkpoint storeError, invocation)
    | (.ok _, invocation) => (error, invocation)

/-- Carry out the plan for a step that was declared at an ordinal. -/
def follow (invocation : Invocation V) (ordinal : Nat) (name : String) (config : StepConfig)
    (codec : Codec V) (body : StepBody V) : StepPlan → Reply V × Invocation V
  | .replay operation =>
    (.returned (operation.replay codec),
     invocation.diagnose (.resultRecalled invocation.executionId operation.id))
  | .fail error => (.returned (.error error), invocation)
  | .interrupt operation =>
    let (error, invocation) := invocation.interrupt operation
    (.returned (.error error), invocation)
  | .attempt number => invocation.attempt ordinal name number config codec body

/-- A step call before its outcome is settled. -/
def callStep (invocation : Invocation V) (name : String) (config : StepConfig)
    (codec : Codec V) (body : StepBody V) : Reply V × Invocation V :=
  match invocation.halt with
  | some halt => (.returned (.error halt.toError), invocation)
  | none =>
    let declared := invocation.declare .step name
    match invocation.findRecord .step name with
    | .error error => (.returned (.error error), declared)
    | .ok recorded =>
      declared.follow invocation.nextOrdinal name config codec body
        (.ofRecord recorded config.semantics invocation.now)

/-- Declare a step and give its outcome to the workflow. -/
def step (invocation : Invocation V) (name : String) (config : StepConfig)
    (codec : Codec V) (body : StepBody V) : Reply V × Invocation V :=
  match invocation.callStep name config codec body with
  | (.crashed, invocation) => (.crashed, invocation)
  | (.returned outcome, invocation) =>
    let settled := invocation.settle outcome
    (.returned outcome, settled.emit (.stepReturned name outcome settled.isReplaying))

end Invocation

end Durable
