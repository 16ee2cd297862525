import Durable.Error
import Durable.Text.Blank
import Durable.Text.Integer

/-!
# Configuration

Where the store is, whether log calls are dropped during replay, and how many
invocations a driver makes.  All three come from environment variables, and each
has a default.
-/

namespace Durable

structure EngineConfig where
  databaseUrl : Option String
  suppressReplayLogs : Bool
  maxInvocations : Nat
  deriving DecidableEq, Repr

namespace EngineConfig

def defaultMaxInvocations : Nat := 1000

def standard : EngineConfig :=
  { databaseUrl := none, suppressReplayLogs := true, maxInvocations := defaultMaxInvocations }

def databaseVariable : String := "REWIND_DATABASE_URL"

def suppressionVariable : String := "REWIND_SUPPRESS_REPLAY_LOGS"

def invocationsVariable : String := "REWIND_MAX_INVOCATIONS"

/-- A truth value in any case, with blanks around it. -/
def readFlag? (text : String) : Option Bool :=
  match Text.lowerAscii (Text.trim text) with
  | "true" | "1" => some true
  | "false" | "0" => some false
  | _ => none

/-- A positive number of 32 bits. -/
def readCount? (text : String) : Option Nat :=
  match Text.readInteger (.unsigned 32) text with
  | .ok value => if 0 < value then some value.toNat else none
  | .error _ => none

/-- A blank text names no database. -/
def readDatabase? (text : Option String) : Option String :=
  text.filter fun text => Text.trim text != ""

/-- The value of a variable, or its default when it is not set. -/
def readVariable (name reason : String) (read : String → Option α) (default : α) :
    Option String → Except ConfigError α
  | none => .ok default
  | some text =>
    match read text with
    | none => .error (.invalid name reason)
    | some value => .ok value

def ofEnvironment (environment : String → Option String) : Except ConfigError EngineConfig := do
  let suppressReplayLogs ← readVariable suppressionVariable "must be true, false, 1 or 0"
    readFlag? standard.suppressReplayLogs (environment suppressionVariable)
  let maxInvocations ← readVariable invocationsVariable "must be a positive integer"
    readCount? standard.maxInvocations (environment invocationsVariable)
  return { databaseUrl := readDatabase? (environment databaseVariable)
           suppressReplayLogs := suppressReplayLogs
           maxInvocations := maxInvocations }

end EngineConfig

end Durable
