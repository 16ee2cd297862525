import Durable.Proofs.RestoredChronicle
import Durable.Proofs.CallRecords

/-!
# Calls advance their operations

A call that finds at its ordinal what comes back for a legal record appends nothing, or
what the state of that record allows: the begin or the end of an attempt, the report of an
interrupted one, the start or the end of a timer.
-/

namespace Durable

variable {V : Type} {semantics : String → StepSemantics} {medium : Medium}

open Occurrence OperationUpdate

theorem BodyOutcome.closing?_outcome {ending : BodyOutcome V} {retry : RetryPolicy}
    {codec : Codec V} {name : String} {attempt : Nat} {now : Instant}
    {update : OperationUpdate} {seen : Except DurableError V}
    (closes : ending.closing? retry codec name attempt now = some (update, seen)) :
    Outcome attempt update := by
  unfold closing? at closes
  split at closes
  · simp at closes
  · split at closes
    · cases closes
      exact .succeeded _
    · cases closes
      exact .failed _
  · split at closes
    · cases closes
      exact .retried _
    · cases closes
      exact .failed _

/-- The records of a call: none, or an advance of its operation. -/
inductive Appends (semantics : String → StepSemantics) (medium : Medium) (kind : OperationKind)
    (ordinal : Nat) (name : String) (before : Option OperationUpdate) :
    List Operation → Prop where
  | nothing : Appends semantics medium kind ordinal name before []
  | advance (updates : List OperationUpdate)
      (advance : Advance semantics medium kind name before updates) :
      Appends semantics medium kind ordinal name before
        (updates.map (Operation.unwritten kind ordinal name).withState)

namespace Medium.Restores

variable {written read : Operation}

theorem id (restores : medium.Restores written read) (legal : written.Legal semantics) :
    read.id = operationId read.ordinal := by
  obtain ⟨result, readyAt, rfl, _⟩ := restores
  exact legal.id

theorem state_of_unnoted (restores : medium.Restores written read)
    (legal : written.Legal semantics) (kind : written.kind = .step)
    (started : read.status = .started) (unnoted : read.error = none) :
    written.state = .started read.attempt := by
  have state := legal.state
  rw [kind] at state
  obtain ⟨_, attempt, marked | noted⟩ :=
    state.of_started (restores.state.status.symm.trans started)
  · have sameAttempt : read.attempt = attempt :=
      restores.state.attempt.trans (congrArg OperationUpdate.attempt marked)
    rw [marked, sameAttempt]
  · have error := restores.state.error.trans (congrArg OperationUpdate.error noted)
    cases unnoted.symm.trans error

theorem elapsed_of_pending (restores : medium.Restores written read)
    (legal : written.Legal semantics) (kind : read.kind = .timer)
    (pending : read.status = .pending) :
    ∃ readyAt restored, written.state = .runsUntil readyAt ∧
      medium.restoreTime readyAt = some restored ∧
      read.elapsed =
        (Operation.unwritten .timer read.ordinal read.name).withState (.elapsedAt restored) := by
  have state := legal.state
  rw [restores.identity.1.symm.trans kind] at state
  obtain ⟨readyAt, running⟩ := state.of_pending (restores.state.status.symm.trans pending)
  have back := restores.state
  rw [running] at back
  obtain ⟨restored, given, found⟩ := back.runsUntil
  have attempt : read.attempt = 1 := congrArg OperationUpdate.attempt found
  have time : read.readyAt = some restored := congrArg OperationUpdate.readyAt found
  refine ⟨readyAt, restored, running, given, ?_⟩
  rw [Operation.elapsed, Operation.withState_of_id (restores.id legal), kind,
    OperationUpdate.elapsed, attempt, time]
  rfl

end Medium.Restores

section Step

variable {invocation : Invocation V} {call : StepCall V}

private theorem AttemptCourse.appends {number : Nat} {reply : Reply V}
    {emitted : List (Occurrence V)} (course : AttemptCourse invocation call number reply emitted)
    (agreed : call.Agreed semantics) {before : Option OperationUpdate}
    (begins : Begins before number)
    (base : ∀ update, (call.base invocation).withState update =
      (Operation.unwritten .step invocation.nextOrdinal call.name).withState update) :
    Appends semantics medium .step invocation.nextOrdinal call.name before
      (records emitted) := by
  have opening := call.opening_records invocation number
  rw [base] at opening
  cases guard : call.config.semantics with
  | atMostOnce =>
      have guarded : semantics call.name = .atMostOnce := agreed.symm.trans guard
      rw [guard] at opening
      cases course with
      | unmarked error guarded faulty => exact .nothing
      | crashed chatter logs dies =>
          rw [records_append, opening, logs.records]
          exact .advance [_] (.marked guarded begins)
      | lost chatter logs reading update outcome closes error faulty =>
          rw [records_append, records_append, opening, logs.records]
          exact .advance [_] (.marked guarded begins)
      | closed chatter logs reading update outcome closes diagnostic =>
          rw [records_append, records_append, opening, logs.records, base]
          exact .advance [_, _] (.closed guarded begins
            (BodyOutcome.closing?_outcome closes))
  | atLeastOnce =>
      have unguarded : semantics call.name = .atLeastOnce := agreed.symm.trans guard
      rw [guard] at opening
      cases course with
      | unmarked error guarded faulty => exact .nothing
      | crashed chatter logs dies =>
          rw [records_append, opening, logs.records]
          exact .nothing
      | lost chatter logs reading update outcome closes error faulty =>
          rw [records_append, records_append, opening, logs.records]
          exact .nothing
      | closed chatter logs reading update outcome closes diagnostic =>
          rw [records_append, records_append, opening, logs.records, base]
          exact .advance [_] (.attempted unguarded begins
            (BodyOutcome.closing?_outcome closes))

theorem begins_of_planned {latest recorded : Option Operation} {number : Nat}
    (related : Option.Rel medium.Restores latest recorded)
    (legal : ∀ record, latest = some record → record.Legal semantics)
    (same : ∀ record, latest = some record → record.kind = .step ∧ record.name = call.name)
    (agreed : call.Agreed semantics)
    (planned : StepPlan.ofRecord recorded call.config.semantics invocation.now =
      .attempt number) :
    Begins (latest.map Operation.state) number := by
  rcases StepPlan.ofRecord_eq_attempt planned with ⟨rfl, rfl⟩ | ⟨operation, rfl, found⟩
  · cases related
    exact .first
  · cases related with
    | @some record _ given =>
        obtain ⟨kind, name⟩ := same record rfl
        have state := (legal record rfl).state
        rw [kind, name] at state
        rcases found with ⟨pending, _, rfl⟩ | ⟨started, unguarded, _⟩
        · have status : record.state.status = .pending := given.state.status.symm.trans pending
          obtain ⟨attempt, readyAt, scheduled⟩ := state.of_pending status
          have sameAttempt : operation.attempt = attempt :=
            given.state.attempt.trans (congrArg OperationUpdate.attempt scheduled)
          rw [Option.map_some, scheduled, sameAttempt]
          exact .again attempt readyAt
        · have status : record.state.status = .started := given.state.status.symm.trans started
          rw [agreed, (state.of_started status).1] at unguarded
          cases unguarded

/-- What a step call appends when it finds what was given back for a legal record. -/
theorem StepCourse.appends {reply : Reply V} {middle : List (Occurrence V)}
    (course : StepCourse invocation call reply middle) (agreed : call.Agreed semantics)
    {latest : Option Operation}
    (related : Option.Rel medium.Restores latest
      (invocation.log.lookup? invocation.nextOrdinal))
    (legal : ∀ record, latest = some record → record.Legal semantics) :
    Appends semantics medium .step invocation.nextOrdinal call.name
      (latest.map Operation.state) (records middle) := by
  cases course with
  | duplicate first known => exact .nothing
  | mismatched operation fresh found other => exact .nothing
  | planned recorded fresh found same course =>
      rw [found] at related
      have sameLatest : ∀ record, latest = some record →
          record.kind = .step ∧ record.name = call.name := by
        rintro record rfl
        cases related with
        | some given =>
            obtain ⟨kind, name⟩ := same _ rfl
            exact ⟨given.identity.1.symm.trans kind, given.identity.2.symm.trans name⟩
      -- A record that is found has the identity of the step.
      have identity : ∀ operation, recorded = some operation →
          ∀ update, operation.withState update =
            (Operation.unwritten .step invocation.nextOrdinal call.name).withState update := by
        rintro operation rfl update
        cases related with
        | some given =>
            obtain ⟨kind, name⟩ := same _ rfl
            rw [Operation.withState_of_id (given.id (legal _ rfl)), kind, name,
              OperationLog.lookup?_ordinal found]
      generalize planned : StepPlan.ofRecord recorded call.config.semantics invocation.now =
        plan at course
      cases course with
      | replay operation => exact .nothing
      | fail error => exact .nothing
      | reported operation noted => exact .nothing
      | unannotated operation unnoted error faulty => exact .nothing
      | annotated operation unnoted =>
          obtain ⟨rfl, started, guarded⟩ := StepPlan.ofRecord_eq_interrupt planned
          cases related with
          | @some record _ given =>
              have marker := given.state_of_unnoted (legal record rfl) (sameLatest record rfl).1
                started unnoted
              obtain ⟨kind, name⟩ := same operation rfl
              have annotation : operation.annotated =
                  .interruption invocation.nextOrdinal call.name operation.attempt := by
                rw [Operation.annotated_of_id (given.id (legal record rfl)) kind, name,
                  OperationLog.lookup?_ordinal found]
              have written : records [(⟨invocation.now, .diagnosed (.stepInterrupted
                  invocation.executionId operation.id operation.attempt)⟩ : Occurrence V),
                  ⟨invocation.now, .appended operation.annotated⟩] =
                  [.reported call.name operation.attempt].map
                    (Operation.unwritten .step invocation.nextOrdinal call.name).withState := by
                simp [Effect.record?, annotation, Operation.interruption]
              rw [written, Option.map_some, marker]
              exact .advance _ (.reported operation.attempt (agreed.symm.trans guarded))
      | attempted number unfinished notDecreasing course =>
          have begins := begins_of_planned related legal sameLatest agreed planned
          apply course.appends agreed begins
          intro update
          cases recorded with
          | none =>
              have base : call.base invocation = .step invocation.nextOrdinal call.name :=
                Invocation.current_of_none found
              rw [base]
              rfl
          | some operation =>
              have base : call.base invocation = operation := Invocation.current_of_some found
              rw [base]
              exact identity operation rfl update

end Step

/-- What a wait call appends when it finds what was given back for a legal record. -/
theorem WaitCourse.appends {invocation : Invocation V} {call : WaitCall}
    {outcome : Except DurableError Unit} {middle : List (Occurrence V)}
    (course : WaitCourse invocation call outcome middle) {latest : Option Operation}
    (related : Option.Rel medium.Restores latest
      (invocation.log.lookup? invocation.nextOrdinal))
    (legal : ∀ record, latest = some record → record.Legal semantics) :
    Appends semantics medium .timer invocation.nextOrdinal call.name
      (latest.map Operation.state) (records middle) := by
  cases course with
  | duplicate first known => exact .nothing
  | mismatched operation fresh found other => exact .nothing
  | planned recorded fresh found same course =>
      have here := found
      rw [found] at related
      generalize planned : WaitPlan.ofRecord recorded invocation.now = plan at course
      cases course with
      | pass => exact .nothing
      | fail error => exact .nothing
      | unelapsed timer error faulty => exact .nothing
      | lost written error faulty => exact .nothing
      | elapsed timer diagnostic =>
          obtain ⟨rfl, pending, _⟩ := WaitPlan.ofRecord_eq_elapse planned
          obtain ⟨kind, name⟩ := same timer rfl
          cases related with
          | @some record _ given =>
              obtain ⟨readyAt, restored, running, timeGiven, elapsed⟩ :=
                given.elapsed_of_pending (legal record rfl) kind pending
              rw [name, OperationLog.lookup?_ordinal here] at elapsed
              have written : records [(⟨invocation.now, .appended timer.elapsed⟩ : Occurrence V),
                  ⟨invocation.now, .diagnosed diagnostic⟩] = [.elapsedAt restored].map
                    (Operation.unwritten .timer invocation.nextOrdinal call.name).withState := by
                simp [Effect.record?, elapsed]
              rw [written, Option.map_some, running]
              exact .advance _ (.elapsed timeGiven)
      | passed due =>
          cases WaitPlan.ofRecord_eq_start planned
          cases related
          exact .advance [_] (.passed _)
      | started notDue diagnostic =>
          cases WaitPlan.ofRecord_eq_start planned
          cases related
          exact .advance [.runsUntil (invocation.now.add call.duration)] (.started _)

end Durable
