import Durable.Proofs.ScheduledPass
import Durable.Proofs.TimePolicies
import Durable.Proofs.Transparency

/-!
# Skipping time

A runner that skips time invokes a deterministic workflow once for each pause that takes
time, and once more.  After each invocation but the last it moves the clock to the time of
the one operation that is pending, which the next invocation gets past; so the execution
ends as the reference evaluation does, when all pauses have gone by, one after another.
-/

namespace Durable

variable {V O : Type}

open Occurrence

namespace OperationLog

theorem load_memory {store : Store} {executionId : String} {history : List Operation}
    (reliable : store.faults = .none)
    (stored : store.medium.history executionId = .ok history) :
    ∃ log after, load store executionId = (.ok log, after) := by
  simp only [load, Store.load, Store.history, reliable, FaultPlan.none, stored]
  exact ⟨_, _, rfl⟩

end OperationLog

/-- The same runner once its clock has been moved. -/
def Runner.movedTo (runner : Runner) (t : Instant) : Runner :=
  { runner with clock := runner.clock.advanceTo t }

/-- The runner has left the records of an execution that has come some way along the
schedule: these pauses are ahead, and the time of the last record has come. -/
structure Schedule.Underway (schedule : Schedule V O) (evaluation : Evaluation O)
    (pauses : List Pause) (runner : Runner) : Prop where
  inMemory : runner.InMemory
  stored : ∃ history operations,
    runner.store.medium.history runner.executionId = .ok history ∧
      (∀ ordinal, History.latest? history ordinal = operations[ordinal]?) ∧
      schedule.Remains [] operations evaluation pauses ∧
      ∀ record ∈ operations, record.isTerminal = false →
        record.isReady runner.clock.now = true

/-- What one invocation comes to when these pauses are ahead.  Either none of them takes
time, and the result is the reference evaluation; or the result is pending until the first
one that takes time is over, and the execution is underway again once the clock shows
that. -/
inductive Schedule.Comes (schedule : Schedule V O) (evaluation : Evaluation O)
    (pauses : List Pause) (now : Instant) (result : ExecutionResult O) (after : Runner) :
    Prop where
  | ended (terminal : result.isTerminal = true) (evaluates : result.evaluation = evaluation)
      (count : Pause.suspensions now pauses = 0) (reading : Pause.reading now pauses = now)
  | suspended {wake : Instant} {left : List Pause} (pending : result.isTerminal = false)
      (next : result.nextReadyAt = some wake)
      (count : Pause.suspensions now pauses = Pause.suspensions (now.max wake) left + 1)
      (reading : Pause.reading now pauses = Pause.reading (now.max wake) left)
      (underway : schedule.Underway evaluation left (after.movedTo wake))

namespace Schedule

variable {schedule : Schedule V O} {evaluation : Evaluation O} {pauses : List Pause}

/-- How a pass that keeps to its schedule ends decides the result. -/
theorem Passed.finished {now : Instant} {final : Invocation V} {ending : PassEnd O}
    (passed : schedule.Passed evaluation now pauses final ending) (sorted : final.log.Sorted)
    (executionId : String) :
    ∃ result, ending.verdict executionId final = .finished result ∧
      ((result.isTerminal = true ∧ result.evaluation = evaluation ∧
          Pause.suspensions now pauses = 0 ∧ Pause.reading now pauses = now) ∨
        ∃ wake left front last, result.isTerminal = false ∧ result.nextReadyAt = some wake ∧
          final.log.Holds (front ++ [last]) ∧
          (∀ record ∈ front, record.isTerminal = true) ∧ last.Waits wake ∧
          schedule.Remains [] (front ++ [last]) evaluation left ∧
          Pause.suspensions now pauses = Pause.suspensions (now.max wake) left + 1 ∧
          Pause.reading now pauses = Pause.reading (now.max wake) left) := by
  cases passed with
  | @ended outcome given operations decides holds past evaluates count reading =>
      have same := holds.operations sorted
      rcases decides with ⟨free, rfl⟩ | ⟨error, halted, rfl⟩
      · cases given <;> simp only [PassEnd.verdict, Invocation.close, Snapshot.result, free]
        · refine ⟨_, rfl, .inl ⟨rfl, ?_, count, reading⟩⟩
          simp only [ExecutionResult.evaluation, ExecutionResult.ofStatus, same, evaluates,
            Evaluation.ofOutcome]
        · refine ⟨_, rfl, .inl ⟨rfl, ?_, count, reading⟩⟩
          simp only [ExecutionResult.evaluation, ExecutionResult.ofStatus, same, evaluates,
            Evaluation.ofOutcome]
      · simp only [PassEnd.verdict, Invocation.close, Snapshot.result, halted]
        refine ⟨_, rfl, .inl ⟨rfl, ?_, count, reading⟩⟩
        simp only [ExecutionResult.evaluation, ExecutionResult.ofStatus, same, evaluates,
          Evaluation.ofOutcome]
  | @suspended outcome wake front last left halted holds past waits remains count reading =>
      have next : final.log.nextReadyTime? = some wake := by
        rw [OperationLog.nextReadyTime?, holds.operations sorted]
        apply History.nextReadyTime?_of_waits _ waits
        intro record member
        exact Operation.past_of_isTerminal (past record member)
      simp only [PassEnd.verdict, Invocation.close, Snapshot.result, halted, next]
      exact ⟨_, rfl, .inr ⟨wake, left, front, last, rfl, rfl, holds, past, waits, remains,
        count, reading⟩⟩

/-- One invocation of an execution that is underway. -/
theorem Underway.run {workflow : Workflow V O} {runner : Runner}
    (underway : schedule.Underway evaluation pauses runner) (keeps : workflow.Keeps schedule)
    (still : workflow.Still) (decodes : schedule.Decodes) :
    ∃ result, (runner.run workflow).ending = .finished result ∧
      schedule.Comes evaluation pauses runner.clock.now result (runner.run workflow).runner := by
  obtain ⟨inMemory, history, operations, stored, latest, remains, due⟩ := underway
  have inMemoryAfter := inMemory.run workflow
  obtain ⟨log, after, loaded⟩ := OperationLog.load_memory inMemory.reliable stored
  have frame := OperationLog.load_frame runner.store runner.executionId
  rw [loaded] at frame
  obtain ⟨again, storedAgain, sameLog, _⟩ := OperationLog.load_ok loaded
  obtain rfl := Except.ok.inj (stored.symm.trans storedAgain)
  have holds : log.Holds operations := by
    intro ordinal
    rw [sameLog, OperationLog.lookup?_latestStates, latest]
  have aligned : schedule.Aligned schedule evaluation runner.clock.now [] operations pauses
      ((runner.visit workflow).begun runner.executionId log after) :=
    ⟨.begun holds, rfl, frame.2.trans inMemory.reliable, by simp, due, remains, fun _ _ => id⟩
  have passed := keeps.run still decodes aligned
  obtain ⟨ending, final, closing, ran, _, _, sameStore, sameVerdict⟩ :=
    (runner.visit workflow).answer_of_loaded loaded
  have ranHere : workflow.run
      ((runner.visit workflow).begun runner.executionId log after) = (ending, final) := ran
  rw [ranHere] at passed
  have reached := Visit.reached_of_run ran
  obtain ⟨result, verdict, comes⟩ :=
    passed.finished (Visit.sorted_of_run loaded ran) runner.executionId
  refine ⟨result, ?_, ?_⟩
  · have same : (runner.run workflow).ending =
        .ofVerdict ((runner.visit workflow).answer runner.executionId runner.store).verdict :=
      rfl
    rw [same, sameVerdict, verdict]
    rfl
  · rcases comes with ⟨terminal, evaluates, count, reading⟩ |
      ⟨wake, left, front, last, pending, next, holdsAfter, past, waits, remainsAfter, count,
        reading⟩
    · exact .ended terminal evaluates count reading
    · apply Comes.suspended pending next count reading
      obtain ⟨rows, memory⟩ := inMemory.memory
      have storedAfter : (runner.run workflow).runner.store.medium.history
          runner.executionId = .ok (history ++ records final.occurrences) := by
        have kept : (runner.run workflow).runner.store = final.store := sameStore
        rw [kept, reached.medium, Visit.begun_store, Visit.begun_log, frame.1, memory,
          OperationLog.load_executionId loaded]
        rw [memory] at stored
        exact Medium.history_memory stored _
      refine ⟨⟨inMemoryAfter.memory, inMemoryAfter.reliable⟩, _, _, storedAfter, ?_,
        remainsAfter, ?_⟩
      · intro ordinal
        rw [← holdsAfter ordinal, reached.log, OperationLog.lookup?_insertAll,
          Visit.begun_log, sameLog, OperationLog.lookup?_latestStates, History.latest?_append]
      · intro record member unfinished
        rcases List.mem_append.mp member with before | here
        · cases unfinished.symm.trans (past record before)
        · rw [List.mem_singleton.mp here, Operation.isReady, waits.readyAt]
          exact decide_eq_true (Instant.le_max _ wake).2

end Schedule

/-- A runner that skips time goes on after a pending result once its time has come. -/
theorem Runner.runFrom_pending {workflow : Workflow V O} {runner : Runner}
    {result : ExecutionResult O} {wake : Instant}
    (ending : (runner.run workflow).ending = .finished result)
    (pending : result.isTerminal = false) (next : result.nextReadyAt = some wake)
    (skips : runner.skipTime = true) (before : List (Occurrence V)) (remaining : Nat) :
    ∃ occurrences, runFrom workflow runner before (remaining + 1) =
      runFrom workflow ((runner.run workflow).runner.movedTo wake) occurrences remaining := by
  have skipsAfter : (runner.run workflow).runner.skipTime = true := skips
  rw [runFrom_finished ending]
  by_cases due : wake ≤ (runner.run workflow).runner.clock.now
  · have goesOn : (runner.run workflow).runner.continuation result = .again := by
      simp [continuation, pending, next, due]
    have there : (runner.run workflow).runner.clock.advanceTo wake =
        (runner.run workflow).runner.clock :=
      congrArg Clock.mk (Instant.max_eq_left due)
    rw [goesOn, movedTo, there]
    exact ⟨_, rfl⟩
  · have goesOn : (runner.run workflow).runner.continuation result = .skipTo wake := by
      simp [continuation, pending, next, due, skipsAfter]
    rw [goesOn]
    exact ⟨_, rfl⟩

/-- However much is left of the limit, a run makes one invocation for each suspension that
is ahead, and one more, and is given up when there is no room for all of them. -/
theorem Schedule.Underway.runFrom {schedule : Schedule V O} {evaluation : Evaluation O}
    {pauses : List Pause} {workflow : Workflow V O} {runner : Runner}
    (underway : schedule.Underway evaluation pauses runner) (keeps : workflow.Keeps schedule)
    (still : workflow.Still) (decodes : schedule.Decodes) (skips : runner.skipTime = true)
    (before : List (Occurrence V)) (remaining : Nat) :
    (Pause.suspensions runner.clock.now pauses < remaining →
      ∃ result,
        (Runner.runFrom workflow runner before remaining).ending = .finished result ∧
          result.isTerminal = true ∧ result.evaluation = evaluation ∧
          (Runner.runFrom workflow runner before remaining).runner.invocations =
            runner.invocations + (Pause.suspensions runner.clock.now pauses + 1) ∧
          (Runner.runFrom workflow runner before remaining).runner.clock.now =
            Pause.reading runner.clock.now pauses) ∧
      (remaining ≤ Pause.suspensions runner.clock.now pauses →
        (Runner.runFrom workflow runner before remaining).ending =
            .limitExceeded runner.maxInvocations ∧
          (Runner.runFrom workflow runner before remaining).runner.invocations =
            runner.invocations + remaining) := by
  induction remaining generalizing runner pauses before with
  | zero =>
      constructor
      · intro enough
        exact absurd enough (Nat.not_lt_zero _)
      · intro _
        exact ⟨rfl, rfl⟩
  | succ remaining induction =>
      obtain ⟨result, ending, comes⟩ := underway.run keeps still decodes
      have sameClock : (runner.run workflow).runner.clock = runner.clock :=
        (runner.visit workflow).answer_clock still runner.executionId runner.store
      cases comes with
      | ended terminal evaluates count reading =>
          have goesOn : (runner.run workflow).runner.continuation result = .stop :=
            if_pos terminal
          rw [Runner.runFrom_finished ending, goesOn, count, reading]
          constructor
          · intro _
            exact ⟨result, rfl, terminal, evaluates, rfl, congrArg Clock.now sameClock⟩
          · intro exhausted
            exact absurd exhausted (Nat.not_succ_le_zero _)
      | @suspended wake left pending next count reading underwayAfter =>
          obtain ⟨occurrences, goesOn⟩ :=
            Runner.runFrom_pending ending pending next skips before remaining
          have rest := induction underwayAfter skips occurrences
          have movedClock : ((runner.run workflow).runner.movedTo wake).clock.now =
              runner.clock.now.max wake := by
            rw [Runner.movedTo, sameClock]
            rfl
          have oneMore : ((runner.run workflow).runner.movedTo wake).invocations =
              runner.invocations + 1 := rfl
          rw [movedClock, oneMore] at rest
          rw [goesOn, count, reading]
          constructor
          · intro enough
            obtain ⟨final, ended, terminal, evaluates, invocations, shown⟩ := rest.1 (by omega)
            refine ⟨final, ended, terminal, evaluates, ?_, shown⟩
            rw [invocations]
            omega
          · intro exhausted
            obtain ⟨ended, invocations⟩ := rest.2 (by omega)
            refine ⟨ended, ?_⟩
            rw [invocations]
            omega

/-- Skipping time converges, at an exact cost.  On a new runner that skips time, a workflow
that keeps to a schedule reaches the reference evaluation of the schedule after one
invocation for each suspension and one more, if the limit has room for them; otherwise the
run is given up at the limit.  In the end all pauses have been added to the start, one after
another; a sum that would go back, which only the leap second behind the latest instant
has, leaves the clock where it is. -/
theorem skip_time_converges {workflow : Workflow V O} {schedule : Schedule V O}
    {evaluation : Evaluation O} {pauses : List Pause} (keeps : workflow.Keeps schedule)
    (still : workflow.Still) (decodes : schedule.Decodes)
    (evaluates : schedule.Evaluates evaluation pauses) (executionId : String)
    (start : Instant) (suppressReplayLogs : Bool) (limit : Nat) :
    let report :=
      (Runner.ofStart executionId start true suppressReplayLogs limit).runUntilComplete workflow
    schedule.plan.Evaluates evaluation ∧
      (1 + Pause.suspensions start pauses ≤ limit →
        ∃ result, report.ending = .finished result ∧ result.isTerminal = true ∧
          result.evaluation = evaluation ∧
          report.runner.invocations = 1 + Pause.suspensions start pauses ∧
          report.runner.clock.now = Pause.reading start pauses ∧
          (start ≤ Instant.latest → report.runner.clock.now =
            pauses.foldl (fun now pause => now.add pause.duration) start)) ∧
      (limit ≤ Pause.suspensions start pauses →
        report.ending = .limitExceeded limit ∧ report.runner.invocations = limit) := by
  intro report
  have underway : schedule.Underway evaluation pauses
      (Runner.ofStart executionId start true suppressReplayLogs limit) := by
    refine ⟨⟨⟨[], rfl⟩, rfl⟩, [], [], rfl, ?_, .ahead evaluates, ?_⟩
    · intro ordinal
      rfl
    · simp
  obtain ⟨converges, exhausts⟩ := underway.runFrom keeps still decodes rfl [] limit
  refine ⟨evaluates.plan, ?_, ?_⟩
  · intro enough
    obtain ⟨result, ending, terminal, same, invocations, shown⟩ :=
      converges (Nat.lt_of_lt_of_le (Nat.lt_one_add_iff.mpr (Nat.le_refl _)) enough)
    refine ⟨result, ending, terminal, same, ?_, shown, ?_⟩
    · rw [Nat.add_comm]
      exact invocations.trans (Nat.zero_add _)
    · intro late
      exact shown.trans (Pause.reading_of_le late pauses)
  · intro exhausted
    obtain ⟨ending, invocations⟩ := exhausts exhausted
    exact ⟨ending, invocations.trans (Nat.zero_add _)⟩

/-- The first attempt fails and is granted another one, which succeeds. -/
def Job.ofTwoAttempts : Job Unit where
  name := "x"
  codec := ⟨fun _ => .ok .null, fun _ => .ok ()⟩
  body attempt := if attempt = 1 then .error default else .ok ()
  retry attempt _ := if attempt = 1 then some (.ofSeconds 1) else none

theorem two_attempts_take_one_second :
    ∃ result,
      ((Runner.ofStart "run" .epoch true false 2).runUntilComplete
          (Visit.ofTwoAttempts 0).workflow).ending = .finished result ∧
        result.isTerminal = true ∧
        ((Runner.ofStart "run" .epoch true false 2).runUntilComplete
          (Visit.ofTwoAttempts 0).workflow).runner.invocations = 2 ∧
        ((Runner.ofStart "run" .epoch true false 2).runUntilComplete
          (Visit.ofTwoAttempts 0).workflow).runner.clock.now = ⟨1, 0⟩ := by
  have keeps : (Visit.ofTwoAttempts 0).workflow.Keeps (.step Job.ofTwoAttempts .done) := by
    apply Workflow.Keeps.step
    · constructor
      · rfl
      · rfl
      · rfl
      · intro context name
        by_cases first : context.attempt = 1 <;> simp [Job.ofTwoAttempts, first]
    · intro update outcome closure
      exact .done outcome
  have still : (Visit.ofTwoAttempts 0).workflow.Still :=
    ⟨fun context duration => List.not_mem_nil, fun outcome => trivial⟩
  have decodes : (Schedule.step Job.ofTwoAttempts .done : Schedule Unit Unit).Decodes :=
    ⟨fun value payload encoded => rfl, fun outcome => trivial⟩
  have evaluates : (Schedule.step Job.ofTwoAttempts .done).Evaluates _ _ :=
    .step rfl (.retried rfl (.closed rfl)) (.done _ _)
  obtain ⟨_, converges, _⟩ :=
    skip_time_converges keeps still decodes evaluates "run" .epoch false 2
  obtain ⟨result, ending, terminal, _, invocations, shown, _⟩ := converges (by decide)
  exact ⟨result, ending, terminal, invocations, shown⟩

/-- A workflow that waits for a second, and its schedule. -/
def Workflow.ofSecond : Workflow Unit Unit :=
  .wait "w" (.ofSeconds 1) fun outcome => .done outcome

def Schedule.ofSecond : Schedule Unit Unit :=
  .wait "w" (.ofSeconds 1) (.done (.ok ()))

/-- In the leap second behind the latest instant. -/
def Instant.behindLatest : Instant := ⟨8210266876799, 1500000000⟩

/-- From there a second leads back to the latest instant, but the clock stays. -/
theorem clock_stays_behind_latest :
    Instant.behindLatest.Representable ∧ Workflow.ofSecond.Keeps Schedule.ofSecond ∧
      Workflow.ofSecond.Still ∧ Schedule.ofSecond.Decodes ∧
      (∃ evaluation, Schedule.ofSecond.Evaluates evaluation [.wait (.ofSeconds 1)]) ∧
      Pause.suspensions .behindLatest [.wait (.ofSeconds 1)] = 0 ∧
      (∃ result, ((Runner.ofStart "run" .behindLatest true false 1).runUntilComplete
        .ofSecond).ending = .finished result ∧ result.isTerminal = true) ∧
      ((Runner.ofStart "run" .behindLatest true false 1).runUntilComplete
        .ofSecond).runner.clock.now ≠ Instant.behindLatest.add (.ofSeconds 1) := by
  have stays : ((Runner.ofStart "run" .behindLatest true false 1).runUntilComplete
      .ofSecond).runner.clock.now = .behindLatest := rfl
  refine ⟨by decide, .wait (.done _), fun _ => trivial, trivial, ⟨_, .wait rfl (.done _ _)⟩,
    by decide, ⟨_, rfl, rfl⟩, ?_⟩
  rw [stays]
  decide

end Durable
