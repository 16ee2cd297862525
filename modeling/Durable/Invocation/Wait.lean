import Durable.Invocation

/-!
# Wait calls

A wait records the instant at which it ends and suspends the invocation until
then.  A wait that ends at once is recorded as elapsed.
-/

namespace Durable

namespace OperationUpdate

/-- The end of a timer, which keeps its ready time. -/
def elapsed (timer : Operation) : OperationUpdate :=
  { succeeded timer.attempt .null with readyAt := timer.readyAt }

end OperationUpdate

/-- What a wait call does about the record it finds. -/
inductive WaitPlan where
  | start
  | pass
  | elapse (timer : Operation)
  | fail (error : DurableError)

namespace WaitPlan

def ofRecord (recorded : Option Operation) (now : Instant) : WaitPlan :=
  match recorded with
  | none => .start
  | some timer =>
    match timer.status with
    | .succeeded => .pass
    | .pending =>
      if timer.isReady now then .elapse timer
      else .fail (.suspended (timer.readyAt.getD now))
    | .started | .failed =>
      .fail (.invalidOperationState timer.name ("timer recorded as " ++ timer.status.text))

end WaitPlan

namespace Invocation

variable {V : Type}

/-- What a write leaves to the workflow: nothing, or the error of the store. -/
def ofWrite (written : Except StoreError Operation) : Except DurableError Unit :=
  match written with
  | .error error => .error (.checkpoint error)
  | .ok _ => .ok ()

/-- Record a timer that is new. -/
def startTimer (invocation : Invocation V) (ordinal : Nat) (name : String)
    (duration : Duration) : Except DurableError Unit × Invocation V :=
  let readyAt := invocation.now.add duration
  let timer := Operation.timer ordinal name readyAt
  if readyAt ≤ invocation.now then
    match OperationLog.nextState timer (.elapsed timer) with
    | .error error => (.error (.checkpoint error), invocation)
    | .ok elapsed =>
      let (written, invocation) := invocation.record elapsed
      (ofWrite written, invocation)
  else
    match invocation.record timer with
    | (.error error, invocation) => (.error (.checkpoint error), invocation)
    | (.ok _, invocation) =>
      (.error (.suspended readyAt),
       invocation.diagnose (.timerStarted invocation.executionId timer.id readyAt))

/-- Close a pending timer whose time has come. -/
def elapseTimer (invocation : Invocation V) (ordinal : Nat) (timer : Operation) :
    Except DurableError Unit × Invocation V :=
  match invocation.update ordinal (.elapsed timer) with
  | (.error error, invocation) => (.error (.checkpoint error), invocation)
  | (.ok _, invocation) =>
    (.ok (), invocation.diagnose (.timerElapsed invocation.executionId timer.id))

def followWait (invocation : Invocation V) (ordinal : Nat) (name : String)
    (duration : Duration) : WaitPlan → Except DurableError Unit × Invocation V
  | .start => invocation.startTimer ordinal name duration
  | .pass => (.ok (), invocation)
  | .elapse timer => invocation.elapseTimer ordinal timer
  | .fail error => (.error error, invocation)

/-- A wait call before its outcome is settled. -/
def callWait (invocation : Invocation V) (name : String) (duration : Duration) :
    Except DurableError Unit × Invocation V :=
  match invocation.halt with
  | some halt => (.error halt.toError, invocation)
  | none =>
    let declared := invocation.declare .timer name
    match invocation.findRecord .timer name with
    | .error error => (.error error, declared)
    | .ok recorded =>
      declared.followWait invocation.nextOrdinal name duration
        (.ofRecord recorded invocation.now)

/-- Declare a wait and give its outcome to the workflow. -/
def wait (invocation : Invocation V) (name : String) (duration : Duration) :
    Except DurableError Unit × Invocation V :=
  let (outcome, invocation) := invocation.callWait name duration
  let settled := invocation.settle outcome
  (outcome, settled.emit (.waitReturned name outcome settled.isReplaying))

end Invocation

end Durable
