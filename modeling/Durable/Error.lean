import Durable.Operation
import Durable.Time.Printer

/-!
# Errors

What a workflow observes at a call, what a checkpoint store reports, and what
ends an invocation as a whole.  Every error is a cause; its wording is in one
`message` function for each type.
-/

namespace Durable

/-- A failure of the checkpoint store. -/
inductive StoreError where
  | database (operation details : String)
  | serialization (details : String)
  | conflict (ordinal : Nat) (details : String)
  deriving DecidableEq, Repr, Inhabited

namespace StoreError

def code : StoreError → String
  | .database _ _ => "DATABASE_ERROR"
  | .serialization _ => "SERIALIZATION_ERROR"
  | .conflict _ _ => "CONFLICT"

def message : StoreError → String
  | .database operation details => "database error during " ++ operation ++ ": " ++ details
  | .serialization details => "serialization error: " ++ details
  | .conflict ordinal details =>
    "conflicting write for operation " ++ toString ordinal ++ ": " ++ details

def unknownKind (text : String) : StoreError :=
  .serialization ("unknown operation kind: " ++ text)

def unknownStatus (text : String) : StoreError :=
  .serialization ("unknown operation status: " ++ text)

def ofRefusal (ordinal : Nat) (refusal : UpdateRefusal) : StoreError :=
  .conflict ordinal refusal.message

end StoreError

namespace ErrorType

/-- The discriminator of a step whose attempt began and left no outcome. -/
def stepInterrupted : String := "StepInterruptedError"

def suspended : String := "SuspendedExecution"

def replayMismatch : String := "ReplayMismatchError"

def duplicateOperationName : String := "DuplicateOperationNameError"

def invalidOperationState : String := "InvalidOperationStateError"

def serialization : String := "SerializationError"

def checkpoint : String := "CheckpointError"

def unknown : String := "UnknownError"

end ErrorType

/-- An error that workflow code observes. -/
inductive DurableError where
  | stepFailed (name : String) (error : ErrorObject)
  | stepInterrupted (name : String) (attempt : Nat)
  | suspended (wake : Instant)
  | replayMismatch (ordinal : Nat) (recordedKind : OperationKind) (recordedName : String)
      (declaredKind : OperationKind) (declaredName : String)
  | duplicateOperationName (name : String) (ordinal : Nat)
  | invalidOperationState (name details : String)
  | serialization (details : String)
  | checkpoint (error : StoreError)
  | workflow (error : ErrorObject)
  deriving DecidableEq, Repr, Inhabited

namespace DurableError

def errorType : DurableError → String
  | .stepFailed _ error => error.errorType
  | .stepInterrupted _ _ => ErrorType.stepInterrupted
  | .suspended _ => ErrorType.suspended
  | .replayMismatch .. => ErrorType.replayMismatch
  | .duplicateOperationName _ _ => ErrorType.duplicateOperationName
  | .invalidOperationState _ _ => ErrorType.invalidOperationState
  | .serialization _ => ErrorType.serialization
  | .checkpoint _ => ErrorType.checkpoint
  | .workflow error => error.errorType

def message : DurableError → String
  | .stepFailed name error => "step '" ++ name ++ "' failed: " ++ error.display
  | .stepInterrupted name attempt =>
    "step '" ++ name ++ "' was interrupted during attempt " ++ toString attempt
      ++ "; its outcome is unknown"
  | .suspended wake => "execution suspended until " ++ wake.display
  | .replayMismatch ordinal recordedKind recordedName declaredKind declaredName =>
    "replay mismatch at operation " ++ toString ordinal ++ ": log recorded "
      ++ recordedKind.text ++ " '" ++ recordedName ++ "', workflow declared "
      ++ declaredKind.text ++ " '" ++ declaredName ++ "'"
  | .duplicateOperationName name ordinal =>
    "operation name '" ++ name ++ "' is already used by operation " ++ toString ordinal
  | .invalidOperationState name details =>
    "operation '" ++ name ++ "' is in an invalid state: " ++ details
  | .serialization details => "serialization error: " ++ details
  | .checkpoint error => "checkpoint store error: " ++ error.message
  | .workflow error => error.display

/-- The persisted form; a failure that already has one keeps it. -/
def toObject : DurableError → ErrorObject
  | .stepFailed _ error => error
  | .workflow error => error
  | other => ⟨other.errorType, other.message⟩

def isInterrupted : DurableError → Bool
  | .stepInterrupted _ _ => true
  | _ => false

def isSuspended : DurableError → Bool
  | .suspended _ => true
  | _ => false

/-- Errors that end the execution whatever workflow code makes of them. -/
def isFatal : DurableError → Bool
  | .replayMismatch .. | .duplicateOperationName _ _ | .invalidOperationState _ _
  | .serialization _ => true
  | _ => false

end DurableError

/-- An environment variable with a value that cannot be used. -/
inductive ConfigError where
  | invalid (variableName reason : String)
  deriving DecidableEq, Repr, Inhabited

namespace ConfigError

def message : ConfigError → String
  | .invalid name reason => "invalid value for " ++ name ++ ": " ++ reason

end ConfigError

/-- A failure of an invocation as a whole: its log could not be read or
written, so it has no status. -/
inductive EngineError where
  | store (error : StoreError)
  | config (error : ConfigError)
  deriving DecidableEq, Repr, Inhabited

namespace EngineError

def code : EngineError → String
  | .store error => error.code
  | .config _ => "CONFIG_ERROR"

def message : EngineError → String
  | .store error => "checkpoint store error: " ++ error.message
  | .config error => "configuration error: " ++ error.message

end EngineError

end Durable
