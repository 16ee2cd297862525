import Durable.Order

/-!
# Order hosts

A host invokes the workflow of an order until it is done, sleeping while it is
suspended.  What the host prints and how it exits follows from how that ended.
-/

namespace Durable

/-- What a host does after an invocation. -/
inductive HostStep where
  | succeed (text : String)
  | fail (message : String)
  | sleepUntil (wake : Instant)

namespace HostStep

def failureText (executionId : String) (error : ErrorObject) : String :=
  "execution " ++ executionId ++ " failed: " ++ error.display

def incompleteText (executionId : String) : String :=
  "execution " ++ executionId ++ " did not complete"

/-- An execution that waits for nothing is invoked again at once. -/
def ofResult (result : ExecutionResult String) (now : Instant) : HostStep :=
  match result.status with
  | .succeeded => .succeed (result.result.getD "")
  | .failed =>
    .fail (failureText result.executionId
      (result.error.getD ⟨ErrorType.unknown, "no error recorded"⟩))
  | .pending | .running => .sleepUntil (result.nextReadyAt.getD now)

end HostStep

/-- How a host ends. -/
inductive HostEnd where
  | printed (text : String)
  | refused (error : ConfigError)
  | failed (message : String)
  | broken (error : EngineError)
  | crashed
  deriving DecidableEq, Repr

namespace HostEnd

def exitCode : HostEnd → Nat
  | .printed _ => 0
  | .refused _ | .failed _ | .broken _ => 1
  | .crashed => 101

/-- The line on the standard output. -/
def output? : HostEnd → Option String
  | .printed text => some text
  | _ => none

/-- The diagnostic form of a configuration error. -/
def configText : ConfigError → String
  | .invalid name reason =>
    "Config(Invalid(" ++ Text.quoted name ++ ", " ++ Text.quoted reason ++ "))"

/-- The text on the standard error output. -/
def errorText : HostEnd → String
  | .printed _ | .crashed => ""
  | .refused error => "Error: " ++ configText error ++ "\n"
  | .failed message => "Error: " ++ Text.quoted message ++ "\n"
  | .broken error => "Error: " ++ Text.quoted error.message ++ "\n"

end HostEnd

namespace Order

/-- Invoke up to `remaining` times.  Sleeping moves the clock to the time at
which the execution wants to be invoked again. -/
def hostFrom (execution : Execution) (workflow : Workflow OrderValue String) (store : Store)
    (clock : Clock) : Nat → HostEnd × Store
  | 0 => (.failed (HostStep.incompleteText execution.executionId), store)
  | remaining + 1 =>
    let answer := execution.invoke store clock workflow
    match answer.verdict with
    | .crashed => (.crashed, answer.store)
    | .failed error => (.broken error, answer.store)
    | .finished result =>
      match HostStep.ofResult result answer.clock.now with
      | .succeed text => (.printed text, answer.store)
      | .fail message => (.failed message, answer.store)
      | .sleepUntil wake =>
        hostFrom execution workflow answer.store (answer.clock.advanceTo wake) remaining

/-- Host the order of an execution over a store, with the configuration of an
environment. -/
def host (environment : String → Option String) (executionId : String) (store : Store)
    (clock : Clock) (sampler : Sampler) : HostEnd × Store :=
  match EngineConfig.ofEnvironment environment with
  | .error error => (.refused error, store)
  | .ok config =>
    hostFrom ⟨executionId, config.suppressReplayLogs⟩
      ((Order.ofExecution executionId).workflow sampler) store clock config.maxInvocations

end Order

end Durable
