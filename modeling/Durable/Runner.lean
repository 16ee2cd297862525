import Durable.Execution

/-!
# Local runners

A runner drives one execution over a store in memory and a virtual clock.  When
it skips time, it moves the clock to the next ready time by itself; otherwise
the clock moves only when it is told to.
-/

namespace Durable

structure Runner where
  executionId : String
  store : Store
  clock : Clock
  suppressReplayLogs : Bool
  maxInvocations : Nat
  skipTime : Bool
  invocations : Nat

/-- How a run of a runner ends. -/
inductive RunEnd (O : Type) where
  | finished (result : ExecutionResult O)
  | failed (error : EngineError)
  | limitExceeded (limit : Nat)
  | crashed

namespace RunEnd

/-- The message of a run that was given up. -/
def limitMessage (limit : Nat) : String :=
  "execution did not reach a terminal status within " ++ toString limit ++ " invocations"

def ofVerdict {O : Type} : Verdict O → RunEnd O
  | .finished result => .finished result
  | .failed error => .failed error
  | .crashed => .crashed

end RunEnd

/-- The end of a run, the runner after it, and what happened on the way. -/
structure RunReport (V O : Type) where
  ending : RunEnd O
  runner : Runner
  occurrences : List (Occurrence V)

namespace Runner

variable {V O : Type}

/-- A runner over an empty store. -/
def ofStart (executionId : String) (start : Instant) (skipTime suppressReplayLogs : Bool)
    (maxInvocations : Nat) : Runner :=
  { executionId := executionId
    store := .empty
    clock := ⟨start⟩
    suppressReplayLogs := suppressReplayLogs
    maxInvocations := maxInvocations
    skipTime := skipTime
    invocations := 0 }

/-- A report of the runner itself, at the reading of its clock. -/
def report (runner : Runner) (diagnostic : Diagnostic) : Occurrence V :=
  ⟨runner.clock.now, .diagnosed diagnostic⟩

/-- Invoke the workflow once. -/
def run (runner : Runner) (workflow : Workflow V O) : RunReport V O :=
  let number := runner.invocations + 1
  let execution : Execution := ⟨runner.executionId, runner.suppressReplayLogs⟩
  let answer := execution.invoke runner.store runner.clock workflow
  { ending := .ofVerdict answer.verdict
    runner :=
      { runner with store := answer.store, clock := answer.clock, invocations := number }
    occurrences :=
      runner.report (.invocationRequested runner.executionId number) :: answer.occurrences }

/-- What a runner does after a result. -/
inductive Continuation where
  | stop
  | again
  | skipTo (readyAt : Instant)

/-- Go on when the result is not terminal and its ready time has come, or can be
skipped to. -/
def continuation (runner : Runner) (result : ExecutionResult O) : Continuation :=
  if result.isTerminal then .stop
  else
    match result.nextReadyAt with
    | none => .stop
    | some readyAt =>
      if readyAt ≤ runner.clock.now then .again
      else if runner.skipTime then .skipTo readyAt
      else .stop

/-- Invoke up to `remaining` times more, after what has happened so far. -/
def runFrom (workflow : Workflow V O) (runner : Runner)
    (occurrences : List (Occurrence V)) : Nat → RunReport V O
  | 0 => ⟨.limitExceeded runner.maxInvocations, runner, occurrences⟩
  | remaining + 1 =>
    let report := runner.run workflow
    let occurrences := occurrences ++ report.occurrences
    match report.ending with
    | .finished result =>
      match report.runner.continuation result with
      | .stop => ⟨.finished result, report.runner, occurrences⟩
      | .again => runFrom workflow report.runner occurrences remaining
      | .skipTo readyAt =>
        runFrom workflow { report.runner with clock := report.runner.clock.advanceTo readyAt }
          (occurrences
            ++ [report.runner.report (.timeSkipped report.runner.executionId readyAt)]) remaining
    | ending => ⟨ending, report.runner, occurrences⟩

/-- Invoke until the execution is terminal or waits for the clock. -/
def runUntilComplete (runner : Runner) (workflow : Workflow V O) : RunReport V O :=
  runFrom workflow runner [] runner.maxInvocations

/-- Move the clock to the earliest ready time of a pending operation, and give
the reading; none when nothing is pending. -/
def advanceTime (runner : Runner) :
    Except StoreError (Option Instant) × Runner × List Diagnostic :=
  match runner.store.load runner.executionId with
  | (.error error, store) => (.error error, { runner with store := store }, [])
  | (.ok operations, store) =>
    match History.nextReadyTime? operations with
    | none =>
      (.ok none, { runner with store := store }, [.nothingPending runner.executionId])
    | some readyAt =>
      let clock := runner.clock.advanceTo readyAt
      (.ok (some clock.now), { runner with store := store, clock := clock }, [])

/-- The log of the execution as it is stored. -/
def log (runner : Runner) : Except StoreError OperationLog :=
  (OperationLog.load runner.store runner.executionId).1

/-- Forget all records, and count invocations anew. -/
def reset (runner : Runner) : Runner :=
  { runner with store := runner.store.clear runner.executionId, invocations := 0 }

end Runner

end Durable
