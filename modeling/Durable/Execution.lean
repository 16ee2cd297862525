import Durable.Workflow

/-!
# Executions

One invocation of a workflow over a store: load the log, run the workflow once,
and turn what happened into a status.  What halted the invocation decides the
status, whatever the workflow returned.
-/

namespace Durable

structure ExecutionResult (O : Type) where
  executionId : String
  status : ExecutionStatus
  result : Option O
  error : Option ErrorObject
  operations : List Operation
  nextReadyAt : Option Instant
  deriving Repr

namespace ExecutionResult

variable {O : Type}

def isTerminal (result : ExecutionResult O) : Bool :=
  result.status.isTerminal

def succeededOperations (result : ExecutionResult O) : List Operation :=
  result.operations.filter (·.status == .succeeded)

/-- The first operation of a name. -/
def getOperation? (result : ExecutionResult O) (name : String) : Option Operation :=
  result.operations.find? (·.name == name)

/-- The result of an invocation with the given snapshot. -/
def ofStatus (executionId : String) (snapshot : Snapshot) (status : ExecutionStatus)
    (result : Option O) (error : Option ErrorObject) : ExecutionResult O :=
  { executionId := executionId, status := status, result := result, error := error,
    operations := snapshot.operations, nextReadyAt := snapshot.nextReadyAt }

end ExecutionResult

/-- The answer to an invocation: a result, a failure of the engine, or nothing
because the process died. -/
inductive Verdict (O : Type) where
  | finished (result : ExecutionResult O)
  | failed (error : EngineError)
  | crashed

/-- An invocation's answer, with what it left behind. -/
structure Answer (V O : Type) where
  verdict : Verdict O
  store : Store
  clock : Clock
  occurrences : List (Occurrence V)

namespace Snapshot

variable {O : Type}

/-- The result of an invocation.  What halted it decides; the outcome of the
workflow counts only when nothing did. -/
def result (snapshot : Snapshot) (executionId : String) (outcome : Except DurableError O) :
    Except StoreError (ExecutionResult O) :=
  match snapshot.halt, outcome with
  | some (.store error), _ => .error error
  | some (.fatal error), _ => .ok (.ofStatus executionId snapshot .failed none (some error.toObject))
  | some (.suspended wake), _ =>
    .ok { ExecutionResult.ofStatus executionId snapshot .pending none none with
          nextReadyAt := some (snapshot.nextReadyAt.getD wake) }
  | none, .ok output => .ok (.ofStatus executionId snapshot .succeeded (some output) none)
  | none, .error error =>
    .ok (.ofStatus executionId snapshot .failed none (some error.toObject))

/-- What is reported about an invocation that did not go well. -/
def complaint? (snapshot : Snapshot) (outcome : Except DurableError O) : Option Diagnostic :=
  match snapshot.halt, outcome with
  | some (.store error), _ => some (.invocationAborted error)
  | some (.fatal error), _ => some (.executionHalted error)
  | some (.suspended _), _ => none
  | none, .ok _ => none
  | none, .error error => some (.workflowFailed error)

end Snapshot

namespace Invocation

variable {V : Type}

def diagnose? (invocation : Invocation V) (diagnostic : Option Diagnostic) : Invocation V :=
  match diagnostic with
  | none => invocation
  | some diagnostic => invocation.diagnose diagnostic

end Invocation

namespace Answer

variable {V O : Type}

/-- The answer of an invocation that leaves this state behind. -/
def leaving (invocation : Invocation V) (verdict : Verdict O) : Answer V O :=
  ⟨verdict, invocation.store, invocation.clock, invocation.occurrences⟩

end Answer

/-- An execution that can be invoked: its identifier, and whether log calls are
dropped during replay. -/
structure Execution where
  executionId : String
  suppressReplayLogs : Bool
  deriving DecidableEq, Repr

namespace Execution

variable {V O : Type}

/-- The end of an invocation whose workflow has returned. -/
def finish (executionId : String) (outcome : Except DurableError O) (invocation : Invocation V) :
    Answer V O :=
  let (snapshot, invocation) := invocation.close
  let invocation := invocation.diagnose? (snapshot.complaint? outcome)
  match snapshot.result executionId outcome with
  | .error error => .leaving invocation (.failed (.store error))
  | .ok result =>
    .leaving
      (invocation.diagnose
        (.invocationFinished result.status result.operations.length result.nextReadyAt))
      (.finished result)

/-- The invocation of an execution whose log has been loaded. -/
def begin (execution : Execution) (log : OperationLog) (store : Store) (clock : Clock) :
    Invocation V :=
  ((Invocation.start log store clock execution.suppressReplayLogs).diagnose
    (.logLoaded execution.executionId log.size)).diagnose (.invocationStarted log.size)

/-- Invoke a workflow once. -/
def invoke (execution : Execution) (store : Store) (clock : Clock) (workflow : Workflow V O) :
    Answer V O :=
  match OperationLog.load store execution.executionId with
  | (.error error, store) => ⟨.failed (.store error), store, clock, []⟩
  | (.ok log, store) =>
    match workflow.run (execution.begin log store clock) with
    | (.crashed, invocation) => .leaving invocation .crashed
    | (.returned outcome, invocation) => finish execution.executionId outcome invocation

end Execution

end Durable
