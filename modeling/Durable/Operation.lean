import Durable.Error.Object
import Durable.Json.Value
import Durable.Time.Instant

/-!
# Operations

A durable operation is declared by a workflow at an ordinal.  Its record moves
from state to state by updates, and is frozen once it is terminal.
-/

namespace Durable

inductive OperationKind where
  | step
  | timer
  deriving DecidableEq, Repr, Inhabited

namespace OperationKind

def text : OperationKind → String
  | .step => "STEP"
  | .timer => "TIMER"

def ofText? : String → Option OperationKind
  | "STEP" => some .step
  | "TIMER" => some .timer
  | _ => none

end OperationKind

/-- The state of a record.  Started means that an attempt began and its outcome
is not known. -/
inductive OperationStatus where
  | pending
  | started
  | succeeded
  | failed
  deriving DecidableEq, Repr, Inhabited

namespace OperationStatus

def text : OperationStatus → String
  | .pending => "PENDING"
  | .started => "STARTED"
  | .succeeded => "SUCCEEDED"
  | .failed => "FAILED"

def ofText? : String → Option OperationStatus
  | "PENDING" => some .pending
  | "STARTED" => some .started
  | "SUCCEEDED" => some .succeeded
  | "FAILED" => some .failed
  | _ => none

def isTerminal : OperationStatus → Bool
  | .succeeded | .failed => true
  | .pending | .started => false

end OperationStatus

/-- The state of an execution after an invocation. -/
inductive ExecutionStatus where
  | running
  | succeeded
  | failed
  | pending
  deriving DecidableEq, Repr, Inhabited

namespace ExecutionStatus

def text : ExecutionStatus → String
  | .running => "RUNNING"
  | .succeeded => "SUCCEEDED"
  | .failed => "FAILED"
  | .pending => "PENDING"

def ofText? : String → Option ExecutionStatus
  | "RUNNING" => some .running
  | "SUCCEEDED" => some .succeeded
  | "FAILED" => some .failed
  | "PENDING" => some .pending
  | _ => none

def isTerminal : ExecutionStatus → Bool
  | .succeeded | .failed => true
  | .running | .pending => false

end ExecutionStatus

/-- The identifier of the operation declared at an ordinal. -/
def operationId (ordinal : Nat) : String :=
  let digits := Nat.toDigits 10 ordinal
  "op-" ++ String.ofList (List.replicate (4 - digits.length) '0' ++ digits)

/-- Ordinals and attempts are below this bound. -/
def counterBound : Nat := Nat.pow 2 32

/-- A record of one operation.  A result that is present may be the null value. -/
structure Operation where
  id : String
  ordinal : Nat
  name : String
  kind : OperationKind
  status : OperationStatus
  attempt : Nat
  result : Option Json
  error : Option ErrorObject
  readyAt : Option Instant
  deriving Repr, Inhabited

/-- A change of state; it says nothing about the identity of the operation. -/
structure OperationUpdate where
  status : OperationStatus
  attempt : Nat
  result : Option Json
  error : Option ErrorObject
  readyAt : Option Instant
  deriving Repr, Inhabited

namespace OperationUpdate

/-- The marker of an attempt that is about to run. -/
def started (attempt : Nat) : OperationUpdate :=
  ⟨.started, attempt, none, none, none⟩

def succeeded (attempt : Nat) (result : Json) : OperationUpdate :=
  ⟨.succeeded, attempt, some result, none, none⟩

def failed (attempt : Nat) (error : ErrorObject) : OperationUpdate :=
  ⟨.failed, attempt, none, some error, none⟩

/-- A failed attempt that is tried again from `readyAt` on. -/
def retryScheduled (attempt : Nat) (readyAt : Instant) : OperationUpdate :=
  ⟨.pending, attempt, none, none, some readyAt⟩

end OperationUpdate

/-- Why an update was refused. -/
inductive UpdateRefusal where
  | terminal (name : String) (current next : OperationStatus)
  | attemptDecreases (name : String) (current next : Nat)
  deriving DecidableEq, Repr

namespace UpdateRefusal

def message : UpdateRefusal → String
  | .terminal name current next =>
    "operation '" ++ name ++ "' is already " ++ current.text ++ " and cannot move to "
      ++ next.text
  | .attemptDecreases name current next =>
    "attempt for '" ++ name ++ "' would decrease from " ++ toString current ++ " to "
      ++ toString next

end UpdateRefusal

namespace Operation

/-- A step before its first attempt. -/
def step (ordinal : Nat) (name : String) : Operation :=
  { id := operationId ordinal, ordinal := ordinal, name := name, kind := .step,
    status := .pending, attempt := 0, result := none, error := none, readyAt := none }

/-- A timer that elapses at `readyAt`. -/
def timer (ordinal : Nat) (name : String) (readyAt : Instant) : Operation :=
  { id := operationId ordinal, ordinal := ordinal, name := name, kind := .timer,
    status := .pending, attempt := 1, result := none, error := none, readyAt := some readyAt }

def isTerminal (operation : Operation) : Bool :=
  operation.status.isTerminal

/-- May the operation be attempted now? -/
def isReady (operation : Operation) (now : Instant) : Bool :=
  match operation.readyAt with
  | none => true
  | some readyAt => decide (readyAt ≤ now)

/-- The state of an update under the identity of this operation. -/
def withState (operation : Operation) (update : OperationUpdate) : Operation :=
  { operation with
    status := update.status, attempt := update.attempt, result := update.result,
    error := update.error, readyAt := update.readyAt }

/-- The next state.  Terminal operations are frozen, and attempts never
decrease. -/
def apply (operation : Operation) (update : OperationUpdate) : Except UpdateRefusal Operation :=
  if operation.isTerminal then
    .error (.terminal operation.name operation.status update.status)
  else if update.attempt < operation.attempt then
    .error (.attemptDecreases operation.name operation.attempt update.attempt)
  else .ok (operation.withState update)

end Operation

end Durable
