import Durable.Logger

/-!
# Recordings

A sink that keeps forwarded log calls, to be looked at afterwards.
-/

namespace Durable

/-- A log call as it is kept. -/
structure LogRecord where
  level : LogLevel
  message : String
  executionId : String
  operationName : Option String
  attempt : Option Nat
  deriving DecidableEq, Repr, Inhabited

namespace LogRecord

def ofEntry (entry : LogEntry) : LogRecord :=
  { level := entry.level
    message := entry.message
    executionId := entry.executionId
    operationName := entry.operation.map OperationScope.operationName
    attempt := entry.operation.map OperationScope.attempt }

end LogRecord

/-- Log calls in the order in which they were forwarded. -/
structure Recording where
  records : List LogRecord
  deriving DecidableEq, Repr, Inhabited

namespace Recording

def empty : Recording := ⟨[]⟩

def log (recording : Recording) (entry : LogEntry) : Recording :=
  ⟨recording.records ++ [.ofEntry entry]⟩

def logAll (recording : Recording) (entries : List LogEntry) : Recording :=
  entries.foldl log recording

def messages (recording : Recording) : List String :=
  recording.records.map LogRecord.message

/-- The messages of exactly one level. -/
def messagesAt (recording : Recording) (level : LogLevel) : List String :=
  (recording.records.filter (·.level == level)).map LogRecord.message

end Recording

end Durable
