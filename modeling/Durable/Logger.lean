import Durable.Operation
import Durable.Text.Quoted

/-!
# Loggers

A logger of an execution drops calls while recorded operations are replayed and
forwards all others, each with the innermost operation scope.  Scopes form a
stack; the guard of a scope remembers how deep the stack was when the scope was
entered, and cuts the stack back to that depth.
-/

namespace Durable

inductive LogLevel where
  | trace
  | debug
  | info
  | warn
  | error
  deriving DecidableEq, Repr, Inhabited

namespace LogLevel

def text : LogLevel → String
  | .trace => "TRACE"
  | .debug => "DEBUG"
  | .info => "INFO"
  | .warn => "WARN"
  | .error => "ERROR"

def ofText? : String → Option LogLevel
  | "TRACE" => some .trace
  | "DEBUG" => some .debug
  | "INFO" => some .info
  | "WARN" => some .warn
  | "ERROR" => some .error
  | _ => none

def severity : LogLevel → Nat
  | .trace => 0
  | .debug => 1
  | .info => 2
  | .warn => 3
  | .error => 4

def isBelow (a b : LogLevel) : Bool :=
  decide (a.severity < b.severity)

end LogLevel

/-- The operation that log calls belong to. -/
structure OperationScope where
  operationId : String
  operationName : String
  attempt : Nat
  deriving DecidableEq, Repr, Inhabited

/-- A forwarded log call. -/
structure LogEntry where
  level : LogLevel
  message : String
  executionId : String
  operation : Option OperationScope
  deriving DecidableEq, Repr, Inhabited

/-- The key of an open scope: its number in order of entry, and the depth of the
stack below it. -/
structure ScopeGuard where
  serial : Nat
  depth : Nat
  deriving DecidableEq, Repr, Inhabited

structure OpenScope where
  serial : Nat
  scope : OperationScope
  deriving DecidableEq, Repr, Inhabited

/-- Open scopes are kept with the outermost first. -/
structure Logger where
  executionId : String
  suppress : Bool
  replaying : Bool
  scopes : List OpenScope
  entered : Nat
  deriving DecidableEq, Repr, Inhabited

namespace Logger

def ofExecution (executionId : String) (suppress replaying : Bool) : Logger :=
  { executionId := executionId, suppress := suppress, replaying := replaying, scopes := [],
    entered := 0 }

/-- The innermost scope. -/
def current? (logger : Logger) : Option OperationScope :=
  logger.scopes.getLast?.map OpenScope.scope

def withReplaying (logger : Logger) (replaying : Bool) : Logger :=
  { logger with replaying := replaying }

/-- Are log calls dropped at the moment? -/
def isSilent (logger : Logger) : Bool :=
  logger.suppress && logger.replaying

/-- What a log call forwards. -/
def log? (logger : Logger) (level : LogLevel) (message : String) : Option LogEntry :=
  if logger.isSilent then none
  else some ⟨level, message, logger.executionId, logger.current?⟩

def enter (logger : Logger) (scope : OperationScope) : Logger × ScopeGuard :=
  ({ logger with
      scopes := logger.scopes ++ [⟨logger.entered, scope⟩], entered := logger.entered + 1 },
   ⟨logger.entered, logger.scopes.length⟩)

/-- Cut the stack back to the depth at which the guard's scope was entered. -/
def exit (logger : Logger) (guard : ScopeGuard) : Logger :=
  { logger with scopes := logger.scopes.take guard.depth }

def flagText (flag : Bool) : String :=
  if flag then "true" else "false"

def debugText (logger : Logger) : String :=
  "DurableLogger \x7b execution_id: " ++ Text.quoted logger.executionId ++ ", replaying: "
    ++ flagText logger.replaying ++ ", suppress_during_replay: " ++ flagText logger.suppress
    ++ " \x7d"

end Logger

end Durable
