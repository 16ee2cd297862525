import Durable.Error
import Durable.Operation.Codec
import Durable.Step

/-!
# Diagnostics

The events that the engine reports about its own work.  An event has a level, a
message and fields; a field that is absent is left out.
-/

namespace Durable

inductive Diagnostic where
  | invocationRequested (executionId : String) (number : Nat)
  | logLoaded (executionId : String) (operations : Nat)
  | invocationStarted (recorded : Nat)
  | resultRecalled (executionId operationId : String)
  | retryScheduled (context : StepContext) (errorType : String) (retryAt : Instant)
  | retriesExhausted (context : StepContext) (errorType : String)
  | resultNotEncoded (context : StepContext) (error : String)
  | stepSucceeded (context : StepContext)
  | stepInterrupted (executionId operationId : String) (attempt : Nat)
  | timerStarted (executionId operationId : String) (readyAt : Instant)
  | timerElapsed (executionId operationId : String)
  | invocationAborted (error : StoreError)
  | executionHalted (error : DurableError)
  | workflowFailed (error : DurableError)
  | invocationFinished (status : ExecutionStatus) (operations : Nat)
      (nextReadyAt : Option Instant)
  | timeSkipped (executionId : String) (skippedTo : Instant)
  | nothingPending (executionId : String)
  | forwarded (entry : LogEntry)
  deriving DecidableEq, Repr

namespace Diagnostic

def level : Diagnostic → LogLevel
  | .invocationRequested .. | .logLoaded .. | .resultRecalled .. | .stepSucceeded ..
  | .timerStarted .. | .timerElapsed .. | .nothingPending .. => .debug
  | .invocationStarted .. | .retryScheduled .. | .invocationFinished ..
  | .timeSkipped .. => .info
  | .retriesExhausted .. | .resultNotEncoded .. | .stepInterrupted ..
  | .invocationAborted .. | .executionHalted .. | .workflowFailed .. => .warn
  | .forwarded entry => entry.level

def message : Diagnostic → String
  | .invocationRequested .. => "Invoking workflow"
  | .logLoaded .. => "Operation log loaded"
  | .invocationStarted .. => "Invocation started"
  | .resultRecalled .. => "Returning recorded step result"
  | .retryScheduled .. => "Step failed, retry scheduled"
  | .retriesExhausted .. => "Step failed, no retries left"
  | .resultNotEncoded .. => "Step result could not be encoded"
  | .stepSucceeded .. => "Step succeeded"
  | .stepInterrupted .. => "Step was interrupted before its outcome was recorded"
  | .timerStarted .. => "Timer started"
  | .timerElapsed .. => "Timer elapsed"
  | .invocationAborted .. => "Invocation aborted, checkpoint store failed"
  | .executionHalted .. => "Execution failed"
  | .workflowFailed .. => "Workflow returned an error"
  | .invocationFinished .. => "Invocation finished"
  | .timeSkipped .. => "Skipping virtual time"
  | .nothingPending .. => "No pending operation to advance to"
  | .forwarded entry => entry.message

/-- The fields that name an execution and one of its operations. -/
def operationFields (executionId operationId : String) : List (String × Json) :=
  [("execution_id", .string executionId), ("operation_id", .string operationId)]

def attemptFields (context : StepContext) : List (String × Json) :=
  operationFields context.executionId context.operationId
    ++ [("attempt", .natural context.attempt)]

def errorFields (error : DurableError) : List (String × Json) :=
  [("error_type", .string error.errorType), ("error", .string error.message)]

def scopeFields (scope : OperationScope) : List (String × Json) :=
  [("operation_id", .string scope.operationId), ("operation_name", .string scope.operationName),
   ("attempt", .natural scope.attempt)]

def readyTimeText : Option Instant → String
  | none => "None"
  | some t => "Some(" ++ t.text ++ ")"

def fields : Diagnostic → List (String × Json)
  | .invocationRequested executionId number =>
    [("execution_id", .string executionId), ("invocation", .natural number)]
  | .logLoaded executionId operations =>
    [("execution_id", .string executionId), ("operations", .natural operations)]
  | .invocationStarted recorded => [("recorded_operations", .natural recorded)]
  | .resultRecalled executionId operationId => operationFields executionId operationId
  | .retryScheduled context errorType retryAt =>
    attemptFields context
      ++ [("error_type", .string errorType), ("retry_at", .string retryAt.display)]
  | .retriesExhausted context errorType =>
    attemptFields context ++ [("error_type", .string errorType)]
  | .resultNotEncoded context error => attemptFields context ++ [("error", .string error)]
  | .stepSucceeded context => attemptFields context
  | .stepInterrupted executionId operationId attempt =>
    operationFields executionId operationId ++ [("attempt", .natural attempt)]
  | .timerStarted executionId operationId readyAt =>
    operationFields executionId operationId ++ [("ready_at", .string readyAt.display)]
  | .timerElapsed executionId operationId => operationFields executionId operationId
  | .invocationAborted error => [("error", .string error.message)]
  | .executionHalted error => errorFields error
  | .workflowFailed error => errorFields error
  | .invocationFinished status operations nextReadyAt =>
    [("status", .string status.text), ("operations", .natural operations),
     ("next_ready_at", .string (readyTimeText nextReadyAt))]
  | .timeSkipped executionId skippedTo =>
    [("execution_id", .string executionId), ("skip_to", .string skippedTo.display)]
  | .nothingPending executionId => [("execution_id", .string executionId)]
  | .forwarded entry =>
    ("execution_id", .string entry.executionId)
      :: ((entry.operation.map scopeFields).getD [])

def toJson (diagnostic : Diagnostic) : Json :=
  .ofMembers (("level", .string diagnostic.level.text)
    :: ("message", .string diagnostic.message) :: diagnostic.fields)

end Diagnostic

end Durable
