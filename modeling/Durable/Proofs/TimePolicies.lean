import Durable.Proofs.NextReadyTime
import Durable.Proofs.ReadCount
import Durable.Proofs.StillClock
import Durable.Runner

/-!
# The two time policies

A runner that skips time and one whose clock is moved by hand perform the same invocations.
The first takes the time to skip to from the log of its invocation, the second recomputes it
from the stored history; both are the next ready time of the same operations.
-/

namespace Durable

variable {V O : Type}

open Occurrence

namespace Occurrence

/-- The occurrences without the reports of skipped time. -/
def withoutSkips (occurrences : List (Occurrence V)) : List (Occurrence V) :=
  occurrences.filter fun occurrence =>
    match occurrence.effect with
    | .diagnosed (.timeSkipped _ _) => false
    | _ => true

theorem withoutSkips_append (earlier later : List (Occurrence V)) :
    withoutSkips (earlier ++ later) = withoutSkips earlier ++ withoutSkips later :=
  List.filter_append ..

end Occurrence

/-- One round of a host that moves the clock by hand: the result that was not terminal yet,
the runner that gave it, and the reading to which its clock was moved. -/
structure HostRound (O : Type) where
  result : ExecutionResult O
  runner : Runner
  reading : Instant

/-- A host looks at the report of a run.  It stops at a terminal result; otherwise it moves
the clock to the next ready time and runs again. -/
inductive HostLoop (workflow : Workflow V O) :
    RunReport V O → List (HostRound O) → RunReport V O → Prop where
  | stop {report : RunReport V O} {result : ExecutionResult O}
      (finished : report.ending = .finished result) (terminal : result.isTerminal = true) :
      HostLoop workflow report [] report
  | next {report last : RunReport V O} {result : ExecutionResult O} {reading : Instant}
      {moved : Runner} {diagnostics : List Diagnostic} {rounds : List (HostRound O)}
      (finished : report.ending = .finished result) (pending : result.isTerminal = false)
      (advanced : report.runner.advanceTime = (.ok (some reading), moved, diagnostics))
      (again : HostLoop workflow (moved.runUntilComplete workflow) rounds last) :
      HostLoop workflow report (⟨result, report.runner, reading⟩ :: rounds)
        { last with occurrences := report.occurrences ++ last.occurrences }

/-- The result of the round was pending, and the clock was moved forward to the ready time
that it names. -/
structure HostRound.Exact (round : HostRound O) : Prop where
  pending : round.result.status = .pending
  reading : round.result.nextReadyAt = some round.reading
  later : round.runner.clock.now < round.reading

namespace Runner

/-- The visit that a runner makes when it runs. -/
def visit (runner : Runner) (workflow : Workflow V O) : Visit V O :=
  ⟨runner.clock, runner.suppressReplayLogs, workflow⟩

/-- The same runner, but with a clock that is moved by hand, another limit and another count
of reads. -/
def byHand (runner : Runner) (limit reads : Nat) : Runner :=
  { runner with
    store := runner.store.withReads reads, maxInvocations := limit, skipTime := false }

/-- A runner over a store in memory that loses nothing. -/
structure InMemory (runner : Runner) : Prop where
  memory : ∃ rows, runner.store.medium = .memory rows
  reliable : runner.store.faults = .none

theorem InMemory.run {runner : Runner} (inMemory : runner.InMemory)
    (workflow : Workflow V O) : (runner.run workflow).runner.InMemory := by
  obtain ⟨rows, memory⟩ := inMemory.memory
  constructor
  · have medium := (runner.visit workflow).answer_medium runner.executionId runner.store
    rw [memory, Medium.memory_appendAll] at medium
    exact ⟨_, medium⟩
  · exact ((runner.visit workflow).answer_faults runner.executionId runner.store).trans
      inMemory.reliable

theorem run_byHand {runner : Runner} (reliable : runner.store.faults = .none)
    (workflow : Workflow V O) (limit reads : Nat) :
    (runner.byHand limit reads).run workflow =
      { runner.run workflow with
        runner := (runner.run workflow).runner.byHand limit (reads + 1) } := by
  have answered := (runner.visit workflow).answer_withReads runner.executionId reliable reads
  have same : (runner.byHand limit reads).run workflow =
      (let answer := (runner.visit workflow).answer runner.executionId
        (runner.store.withReads reads)
       { ending := .ofVerdict answer.verdict
         runner :=
          { runner.byHand limit reads with
            store := answer.store, clock := answer.clock, invocations := runner.invocations + 1 }
         occurrences :=
          runner.report (.invocationRequested runner.executionId (runner.invocations + 1))
            :: answer.occurrences }) := rfl
  rw [same, answered]
  rfl

theorem continuation_byHand (runner : Runner) (result : ExecutionResult O)
    (limit reads : Nat) :
    (runner.byHand limit reads).continuation result =
      match runner.continuation result with
      | .skipTo _ => .stop
      | other => other := by
  unfold continuation
  split
  · rfl
  · cases result.nextReadyAt with
    | none => rfl
    | some readyAt =>
        by_cases due : readyAt ≤ runner.clock.now
        · have dueByHand : readyAt ≤ (runner.byHand limit reads).clock.now := due
          simp only [if_pos due, if_pos dueByHand]
        · have notDueByHand : ¬readyAt ≤ (runner.byHand limit reads).clock.now := due
          have still : (runner.byHand limit reads).skipTime = false := rfl
          simp only [if_neg due, if_neg notDueByHand, still]
          cases runner.skipTime <;> rfl

/-- When a runner skips time, it skips forward to the ready time that a pending result
names. -/
theorem continuation_skipTo {runner : Runner} {result : ExecutionResult O} {readyAt : Instant}
    (skips : runner.continuation result = .skipTo readyAt) :
    result.isTerminal = false ∧ result.nextReadyAt = some readyAt ∧
      runner.clock.now < readyAt := by
  unfold continuation at skips
  split at skips
  · cases skips
  · next goesOn =>
      split at skips
      · cases skips
      · next ready found =>
          split at skips
          · cases skips
          · next notDue =>
              split at skips
              · cases skips
                exact ⟨by simpa using goesOn, found, not_le.mp notDue⟩
              · cases skips

theorem continuation_skipsTime {runner : Runner} {result : ExecutionResult O}
    {readyAt : Instant} (skips : runner.continuation result = .skipTo readyAt) :
    runner.skipTime = true := by
  unfold continuation at skips
  split at skips
  · cases skips
  · split at skips
    · cases skips
    · split at skips
      · cases skips
      · split at skips
        · next skipsTime => exact skipsTime
        · cases skips

theorem advanceTime_byHand {runner : Runner} {history : List Operation} {readyAt : Instant}
    (reliable : runner.store.faults = .none)
    (stored : runner.store.medium.history runner.executionId = .ok history)
    (next : History.nextReadyTime? (History.latestStates history) = some readyAt)
    (later : runner.clock.now < readyAt) (limit reads : Nat) :
    (runner.byHand limit reads).advanceTime =
      (.ok (some readyAt),
        { runner with clock := runner.clock.advanceTo readyAt }.byHand limit (reads + 1), []) := by
  have loads : (runner.byHand limit reads).store.load (runner.byHand limit reads).executionId =
      (.ok (History.latestStates history), runner.store.withReads (reads + 1)) := by
    simp only [Store.load, Store.history, byHand, Store.withReads, reliable, FaultPlan.none,
      stored]
    rfl
  have reading : ((runner.byHand limit reads).clock.advanceTo readyAt).now = readyAt :=
    Instant.max_eq_right (le_of_lt later)
  simp only [advanceTime, loads, next, reading]
  rfl

/-- How a run goes on after an invocation that gave a result. -/
theorem runFrom_finished {workflow : Workflow V O} {runner : Runner}
    {result : ExecutionResult O} (ending : (runner.run workflow).ending = .finished result)
    (before : List (Occurrence V)) (remaining : Nat) :
    runFrom workflow runner before (remaining + 1) =
      match (runner.run workflow).runner.continuation result with
      | .stop =>
        ⟨.finished result, (runner.run workflow).runner,
          before ++ (runner.run workflow).occurrences⟩
      | .again =>
        runFrom workflow (runner.run workflow).runner
          (before ++ (runner.run workflow).occurrences) remaining
      | .skipTo readyAt =>
        runFrom workflow
          { (runner.run workflow).runner with
            clock := (runner.run workflow).runner.clock.advanceTo readyAt }
          (before ++ (runner.run workflow).occurrences
            ++ [(runner.run workflow).runner.report
              (.timeSkipped (runner.run workflow).runner.executionId readyAt)]) remaining := by
  cases goesOn : (runner.run workflow).runner.continuation result <;>
    simp only [runFrom, ending, goesOn]

theorem verdict_of_ending {workflow : Workflow V O} {runner : Runner}
    {result : ExecutionResult O} (ending : (runner.run workflow).ending = .finished result) :
    ((runner.visit workflow).answer runner.executionId runner.store).verdict =
      .finished result := by
  have same : (runner.run workflow).ending = .ofVerdict
      ((runner.visit workflow).answer runner.executionId runner.store).verdict := rfl
  rw [same] at ending
  cases verdict : ((runner.visit workflow).answer runner.executionId runner.store).verdict with
  | finished given =>
      rw [verdict] at ending
      cases ending
      rfl
  | failed error =>
      rw [verdict] at ending
      cases ending
  | crashed =>
      rw [verdict] at ending
      cases ending

/-- However much is left of the limits, a run that skips time and the loop of a host that
runs the same workflow by hand perform the same invocations. -/
theorem runFrom_byHand (workflow : Workflow V O) (limit budget : Nat) {remaining : Nat}
    {runner : Runner} (inMemory : runner.InMemory) (enough : remaining ≤ limit)
    (patient : remaining ≤ budget) (reads : Nat) (before beforeByHand : List (Occurrence V))
    {result : ExecutionResult O}
    (finished : (runFrom workflow runner before remaining).ending = .finished result)
    (terminal : result.isTerminal = true) :
    ∃ rounds last readsAfter,
      HostLoop workflow (runFrom workflow (runner.byHand limit reads) beforeByHand budget)
        rounds last ∧
      last.ending = .finished result ∧
      last.runner = (runFrom workflow runner before remaining).runner.byHand limit readsAfter ∧
      (∀ round ∈ rounds, round.Exact) ∧
      ∃ emitted emittedByHand,
        (runFrom workflow runner before remaining).occurrences = before ++ emitted ∧
        last.occurrences = beforeByHand ++ emittedByHand ∧
        withoutSkips emittedByHand = withoutSkips emitted := by
  induction remaining generalizing runner before beforeByHand budget reads with
  | zero => cases finished
  | succ remaining induction =>
      obtain ⟨budget, rfl⟩ : ∃ less, budget = less + 1 := ⟨budget - 1, by omega⟩
      have ranByHand := run_byHand inMemory.reliable workflow limit reads
      have inMemoryAfter := inMemory.run workflow
      cases ending : (runner.run workflow).ending with
      | failed error => simp [runFrom, ending] at finished
      | limitExceeded limit => simp [runFrom, ending] at finished
      | crashed => simp [runFrom, ending] at finished
      | finished given =>
          have endingByHand : ((runner.byHand limit reads).run workflow).ending =
              .finished given := by
            rw [ranByHand]
            exact ending
          have goesOnByHand :=
            (runner.run workflow).runner.continuation_byHand given limit (reads + 1)
          rw [runFrom_finished ending] at finished ⊢
          rw [runFrom_finished endingByHand, ranByHand]
          dsimp only
          rw [goesOnByHand]
          cases goesOn : (runner.run workflow).runner.continuation given with
          | stop =>
              rw [goesOn] at finished
              cases finished
              exact ⟨[], _, reads + 1, .stop rfl terminal, rfl, rfl, by simp, _, _, rfl, rfl, rfl⟩
          | again =>
              rw [goesOn] at finished
              obtain ⟨rounds, last, readsAfter, loop, ended, left, exact_, emitted,
                emittedByHand, occurred, occurredByHand, same⟩ :=
                induction budget inMemoryAfter (by omega) (by omega) (reads + 1)
                  (before ++ (runner.run workflow).occurrences)
                  (beforeByHand ++ (runner.run workflow).occurrences) finished
              refine ⟨rounds, last, readsAfter, loop, ended, left, exact_,
                (runner.run workflow).occurrences ++ emitted,
                (runner.run workflow).occurrences ++ emittedByHand, ?_, ?_, ?_⟩
              · rw [occurred, List.append_assoc]
              · rw [occurredByHand, List.append_assoc]
              · rw [withoutSkips_append, withoutSkips_append, same]
          | skipTo readyAt =>
              rw [goesOn] at finished
              obtain ⟨notTerminal, ready, later⟩ := continuation_skipTo goesOn
              obtain ⟨rows, memory⟩ := inMemory.memory
              obtain ⟨next, history, stored, pending, readyAgain, nextReady⟩ :=
                Visit.nextReadyAt_of_history memory (verdict_of_ending ending) notTerminal
              obtain rfl := Option.some.inj (ready.symm.trans readyAgain)
              have moved := advanceTime_byHand inMemoryAfter.reliable stored
                nextReady later limit (reads + 1)
              let skipped : Runner := { (runner.run workflow).runner with
                clock := (runner.run workflow).runner.clock.advanceTo readyAt }
              have skippedInMemory : skipped.InMemory :=
                ⟨inMemoryAfter.memory, inMemoryAfter.reliable⟩
              obtain ⟨rounds, last, readsAfter, loop, ended, left, exact_, emitted,
                emittedByHand, occurred, occurredByHand, same⟩ :=
                induction limit skippedInMemory (by omega) (by omega) (reads + 2) _ []
                  finished
              refine ⟨⟨given, _, readyAt⟩ :: rounds, _, readsAfter,
                .next rfl notTerminal moved loop, ended, left, ?_, ?_⟩
              · intro round member
                rcases List.mem_cons.mp member with rfl | rest
                · exact ⟨pending, ready, later⟩
                · exact exact_ round rest
              · refine ⟨(runner.run workflow).occurrences ++ ([(runner.run workflow).runner.report
                  (.timeSkipped (runner.run workflow).runner.executionId readyAt)] ++ emitted),
                  (runner.run workflow).occurrences ++ emittedByHand, ?_, ?_, ?_⟩
                · rw [occurred, List.append_assoc, List.append_assoc]
                · rw [occurredByHand, List.nil_append, List.append_assoc]
                · rw [withoutSkips_append, withoutSkips_append, withoutSkips_append, same]
                  rfl

/-- A run that does not skip time does nothing but invoke. -/
theorem runFrom_of_manual (workflow : Workflow V O) {runner : Runner}
    (manual : runner.skipTime = false) (before : List (Occurrence V)) (remaining : Nat) :
    ∃ invoked, (runFrom workflow runner before remaining).runner =
      (fun current => (current.run workflow).runner)^[invoked] runner := by
  induction remaining generalizing runner before with
  | zero => exact ⟨0, rfl⟩
  | succ remaining induction =>
      cases ending : (runner.run workflow).ending with
      | failed error => exact ⟨1, by simp [runFrom, ending]⟩
      | limitExceeded limit => exact ⟨1, by simp [runFrom, ending]⟩
      | crashed => exact ⟨1, by simp [runFrom, ending]⟩
      | finished result =>
          rw [runFrom_finished ending]
          cases goesOn : (runner.run workflow).runner.continuation result with
          | stop => exact ⟨1, rfl⟩
          | again =>
              obtain ⟨invoked, left⟩ := @induction (runner.run workflow).runner manual
                (before ++ (runner.run workflow).occurrences)
              exact ⟨invoked + 1, left⟩
          | skipTo readyAt =>
              have skips := continuation_skipsTime goesOn
              rw [show (runner.run workflow).runner.skipTime = runner.skipTime from rfl,
                manual] at skips
              cases skips

theorem iterate_clock {workflow : Workflow V O} (still : workflow.Still) (runner : Runner)
    (invoked : Nat) :
    ((fun current : Runner => (current.run workflow).runner)^[invoked] runner).clock =
      runner.clock := by
  induction invoked generalizing runner with
  | zero => rfl
  | succ invoked induction =>
      exact (induction (runner.run workflow).runner).trans
        ((runner.visit workflow).answer_clock still runner.executionId runner.store)

end Runner

/-- The loop of a host has one course only. -/
theorem HostLoop.unique {workflow : Workflow V O} {report last last' : RunReport V O}
    {rounds rounds' : List (HostRound O)} (loop : HostLoop workflow report rounds last)
    (loop' : HostLoop workflow report rounds' last') : rounds = rounds' ∧ last = last' := by
  induction loop generalizing rounds' last' with
  | stop finished terminal =>
      cases loop' with
      | stop finished' terminal' => exact ⟨rfl, rfl⟩
      | next finished' pending' advanced' again' =>
          cases finished.symm.trans finished'
          exact Bool.noConfusion (terminal.symm.trans pending')
  | next finished pending advanced again induction =>
      cases loop' with
      | stop finished' terminal' =>
          cases finished.symm.trans finished'
          exact Bool.noConfusion (terminal'.symm.trans pending)
      | next finished' pending' advanced' again' =>
          cases finished.symm.trans finished'
          cases advanced.symm.trans advanced'
          obtain ⟨rfl, rfl⟩ := induction again'
          exact ⟨rfl, rfl⟩

/-- The two time policies agree.  Where a runner that skips time reaches a terminal result
within its limit, the loop of a host over a runner that does not skip time reaches it too.
Each round of the loop moves the clock forward to the ready time that the pending result
names; both runners make the same invocations at the same readings, and end with the same
records, clock and count of invocations.  Between two rounds the clock is not touched: a run
by hand only invokes, and a workflow that does not move the clock finds it where it was. -/
theorem time_policies_agree (workflow : Workflow V O) (executionId : String) (start : Instant)
    (suppressReplayLogs : Bool) {limit limitByHand : Nat} (enough : limit ≤ limitByHand)
    {result : ExecutionResult O}
    (finished : ((Runner.ofStart executionId start true suppressReplayLogs limit).runUntilComplete
      workflow).ending = .finished result)
    (terminal : result.isTerminal = true) :
    let skipping :=
      (Runner.ofStart executionId start true suppressReplayLogs limit).runUntilComplete workflow
    let byHand := Runner.ofStart executionId start false suppressReplayLogs limitByHand
    (∃ rounds last, HostLoop workflow (byHand.runUntilComplete workflow) rounds last ∧
      (∀ rounds' last', HostLoop workflow (byHand.runUntilComplete workflow) rounds' last' →
        rounds' = rounds ∧ last' = last) ∧
      last.ending = .finished result ∧
      (∀ round ∈ rounds, round.Exact) ∧
      withoutSkips last.occurrences = withoutSkips skipping.occurrences ∧
      last.runner.store.medium = skipping.runner.store.medium ∧
      last.runner.clock = skipping.runner.clock ∧
      last.runner.invocations = skipping.runner.invocations) ∧
    ∀ runner : Runner, runner.skipTime = false →
      (∃ invoked, (runner.runUntilComplete workflow).runner =
        (fun current => (current.run workflow).runner)^[invoked] runner) ∧
      (workflow.Still → (runner.runUntilComplete workflow).runner.clock = runner.clock) := by
  intro skipping byHand
  constructor
  · have inMemory :
        (Runner.ofStart executionId start true suppressReplayLogs limit).InMemory :=
      ⟨⟨[], rfl⟩, rfl⟩
    obtain ⟨rounds, last, reads, loop, ended, left, exact_, emitted, emittedByHand, occurred,
      occurredByHand, same⟩ :=
      Runner.runFrom_byHand workflow limitByHand limitByHand inMemory enough enough 0 [] []
        finished terminal
    refine ⟨rounds, last, loop, ?_, ended, exact_, ?_, ?_, ?_, ?_⟩
    · intro rounds' last' loop'
      exact loop'.unique loop
    · rw [occurredByHand, List.nil_append, same]
      exact (congrArg withoutSkips occurred).symm
    · rw [left]
      rfl
    · rw [left]
      rfl
    · rw [left]
      rfl
  · intro runner manual
    obtain ⟨invoked, left⟩ := runner.runFrom_of_manual workflow manual [] runner.maxInvocations
    refine ⟨⟨invoked, left⟩, ?_⟩
    intro still
    exact (congrArg Runner.clock left).trans (Runner.iterate_clock still runner invoked)

/-- A workflow that waits twice. -/
def Workflow.ofTwoWaits : Workflow Unit Unit :=
  .wait "first" (.ofSeconds 1) fun _ => .wait "second" (.ofSeconds 2) fun outcome => .done outcome

/-- By hand, a workflow that waits twice takes two rounds. -/
theorem two_waits_by_hand :
    ∃ result, result.isTerminal = true ∧
      ((Runner.ofStart "run" .epoch true false 3).runUntilComplete .ofTwoWaits).ending =
        .finished result ∧
      ∃ rounds last,
        HostLoop .ofTwoWaits
          ((Runner.ofStart "run" .epoch false false 3).runUntilComplete .ofTwoWaits)
          rounds last ∧
        last.ending = .finished result ∧
        last.runner.clock = ⟨⟨3, 0⟩⟩ ∧
        last.runner.invocations = 3 := by
  have ending : ((Runner.ofStart "run" .epoch true false 3).runUntilComplete
      .ofTwoWaits).ending = .finished _ := rfl
  obtain ⟨⟨rounds, last, loop, _, ended, _, _, _, clock, invocations⟩, _⟩ :=
    time_policies_agree .ofTwoWaits "run" .epoch false (Nat.le_refl 3) ending rfl
  exact ⟨_, rfl, ending, rounds, last, loop, ended, clock, invocations⟩

end Durable
