import Durable.Proofs.ReadyTimes

/-!
# Faithful records

A record is faithful to a medium when it comes back as it was written.  If every value that
a step encodes survives the medium, a session under genuine clocks has faithful records
only, and a log that is loaded holds just the records that were written last.
-/

namespace Durable

variable {V O : Type} {medium : Medium}

open Occurrence

namespace Operation

/-- The result, if there is one, comes back from the medium as it was. -/
def Kept (medium : Medium) (record : Operation) : Prop :=
  ∀ value, record.result = some value → medium.Keeps value

theorem kept_of_unresolved {record : Operation} (unresolved : record.result = none) :
    record.Kept medium := by
  intro value result
  rw [unresolved] at result
  cases result

theorem kept_of_result {record : Operation} {value : Json} (result : record.result = some value)
    (keeps : medium.Keeps value) : record.Kept medium := by
  intro other same
  rw [result] at same
  cases same
  exact keeps

/-- The medium gives the record back as it was written. -/
structure Faithful (medium : Medium) (record : Operation) : Prop where
  kept : record.Kept medium
  timed : record.Timed

end Operation

theorem Medium.Restores.same {written read : Operation} (restores : medium.Restores written read)
    (faithful : written.Faithful medium) : read = written := by
  have timeless := restores.givesBack.timeless faithful.kept
  have readyAt := restores.readyAt faithful.timed
  obtain ⟨result, time, rfl, _, _⟩ := restores
  obtain rfl : time = written.readyAt := readyAt
  exact congrArg (fun record => { record with readyAt := written.readyAt }) timeless

/-- A read of the medium can give back the record only as it was written. -/
def Medium.Preserves (medium : Medium) (record : Operation) : Prop :=
  ∀ read, medium.Restores record read → read = record

theorem Operation.Faithful.preserved {record : Operation} (faithful : record.Faithful medium) :
    medium.Preserves record :=
  fun _ restores => restores.same faithful

theorem Medium.memory_preserves (kept : List (String × Operation)) (record : Operation) :
    (memory kept).Preserves record := by
  rintro read ⟨result, readyAt, rfl, resultGiven, timeGiven⟩
  obtain rfl : record.result = result := by
    cases found : record.result <;> simp_all [Medium.restore]
  obtain rfl : record.readyAt = readyAt := by
    cases found : record.readyAt <;> simp_all [Medium.restoreTime]
  rfl

/-- A history that can still be read is the earlier one with the records that were appended
since, if they are preserved. -/
theorem Medium.history_preserved {executionId : String} {records history again : List Operation}
    (preserved : ∀ record ∈ records, medium.Preserves record)
    (read : medium.history executionId = .ok history)
    (readAgain : (medium.appendAll executionId records).history executionId = .ok again) :
    again = history ++ records := by
  obtain ⟨earlier, later, earlierRead, rfl, given⟩ := history_restored readAgain
  obtain rfl : history = earlier := Except.ok.inj (read.symm.trans earlierRead)
  have same : List.Forall₂ Eq records later := by
    refine ((List.forall₂_and_left _ _).mpr ⟨preserved, given⟩).imp ?_
    rintro written back ⟨preserves, restores⟩
    exact (preserves back restores).symm
  rw [List.forall₂_eq_eq_eq] at same
  rw [same]

/-- Every value that the step encodes comes back from the medium and is decoded to
itself. -/
def StepCall.Lossless (medium : Medium) (call : StepCall V) : Prop :=
  ∀ value payload, call.codec.encode value = .ok payload →
    medium.Keeps payload ∧ call.codec.decode payload = .ok value

theorem BodyOutcome.closing?_kept {ending : BodyOutcome V} {retry : RetryPolicy}
    {codec : Codec V} {name : String} {attempt : Nat} {now : Instant}
    {update : OperationUpdate} {seen : Except DurableError V}
    (keeps : ∀ value payload, codec.encode value = .ok payload → medium.Keeps payload)
    (closes : ending.closing? retry codec name attempt now = some (update, seen))
    (operation : Operation) : (operation.withState update).Kept medium := by
  unfold closing? at closes
  split at closes
  · cases closes
  · next value =>
      split at closes
      · next payload encoded =>
          cases closes
          exact Operation.kept_of_result rfl (keeps value payload encoded)
      · cases closes
        exact Operation.kept_of_unresolved rfl
  · split at closes <;> cases closes <;> exact Operation.kept_of_unresolved rfl

theorem StepCourse.kept {invocation : Invocation V} {call : StepCall V} {reply : Reply V}
    {middle : List (Occurrence V)} (course : StepCourse invocation call reply middle)
    (lossless : call.Lossless medium) : ∀ record ∈ records middle, record.Kept medium := by
  cases course with
  | duplicate first known => simp
  | mismatched operation fresh found other => simp
  | planned recorded fresh found same course =>
      generalize StepPlan.ofRecord recorded call.config.semantics invocation.now = plan at course
      cases course with
      | replay operation => simp [Effect.record?]
      | fail error => simp
      | reported operation noted => simp [Effect.record?]
      | unannotated operation unnoted error faulty => simp [Effect.record?]
      | annotated operation unnoted =>
          intro record member
          obtain rfl : record = operation.annotated := by simpa [Effect.record?] using member
          exact Operation.kept_of_unresolved rfl
      | attempted number unfinished notDecreasing course =>
          intro record member
          rcases course.marks_or_closes record member with rfl | ⟨update, outcome, closes, rfl⟩
          · exact Operation.kept_of_unresolved rfl
          · exact BodyOutcome.closing?_kept
              (fun value payload encoded => (lossless value payload encoded).1) closes _

theorem WaitCourse.kept {invocation : Invocation V} {call : WaitCall}
    {outcome : Except DurableError Unit} {middle : List (Occurrence V)}
    (course : WaitCourse invocation call outcome middle) :
    ∀ record ∈ records middle, record.Kept medium := by
  cases course with
  | duplicate first known => simp
  | mismatched operation fresh found other => simp
  | planned recorded fresh found same course =>
      generalize WaitPlan.ofRecord recorded invocation.now = plan at course
      cases course with
      | pass => simp
      | fail error => simp
      | unelapsed timer error faulty => simp [Effect.record?]
      | lost written error faulty => simp [Effect.record?]
      | elapsed timer diagnostic =>
          intro record member
          obtain rfl : record = timer.elapsed := by simpa [Effect.record?] using member
          exact Operation.kept_of_result rfl medium.keeps_null
      | passed nothingLeft =>
          intro record member
          obtain rfl : record = (call.timer invocation).elapsed := by
            simpa [Effect.record?] using member
          exact Operation.kept_of_result rfl medium.keeps_null
      | started notDue diagnostic =>
          intro record member
          obtain rfl : record = call.timer invocation := by simpa [Effect.record?] using member
          exact Operation.kept_of_unresolved rfl

/-- The results of all records that were appended are kept. -/
def Invocation.Kept (medium : Medium) (invocation : Invocation V) : Prop :=
  ∀ record ∈ records invocation.occurrences, record.Kept medium

theorem Invocation.kept_preserved :
    Invocation.Preserved (V := V) (StepCall.Lossless medium) (Invocation.Kept medium)
      (Invocation.Kept medium) := by
  have extend : ∀ {before after : Invocation V} {emitted : List (Occurrence V)},
      Extends before after emitted → before.Kept medium →
      (∀ record ∈ records emitted, record.Kept medium) → after.Kept medium := by
    intro before after emitted extension kept added record member
    rw [extension.occurrences, records_append, List.mem_append] at member
    exact member.elim (kept record) (added record)
  refine ⟨id, ?_, ?_, ?_⟩
  · intro before after emitted extension isQuiet place kept
    apply extend extension kept
    simp [isQuiet.records]
  · intro before after call reply middle lossless free course called kept
    have extended : after.Kept medium := by
      apply extend called.extension kept
      intro record member
      apply course.kept lossless record
      simpa [Effect.record?, (reply.returning_quiet call.name after).records] using member
    exact ⟨extended, fun _ => extended⟩
  · intro before after call outcome middle free course called kept
    apply extend called.extension kept
    intro record member
    apply course.kept record
    simpa [Effect.record?] using member

/-- The medium preserves every record that a visit with such steps appends, a table under a
genuine clock. -/
theorem Visit.preserved {visit : Visit V O} {store : Store} (executionId : String)
    (lossless : visit.workflow.EveryStep (StepCall.Lossless store.medium))
    (genuine : ∀ table, store.medium = .table table → visit.clock.now.Genuine) :
    ∀ record ∈ records (visit.answer executionId store).occurrences,
      store.medium.Preserves record := by
  cases medium : store.medium with
  | memory kept => exact fun record _ => Medium.memory_preserves kept record
  | table table =>
      rw [medium] at lossless
      refine Visit.answer_induction
        (motive := fun emitted _ => ∀ record ∈ records emitted,
          (Medium.table table).Preserves record) lossless (by simp) ?_
      intro log after loaded
      have timed : (visit.begun executionId log after).Timed := by
        obtain ⟨history, read, rfl, _⟩ := OperationLog.load_ok loaded
        rw [medium] at read
        constructor
        · exact genuine table medium
        · intro ordinal record found
          rw [Visit.begun_log, OperationLog.lookup?_latestStates] at found
          exact Table.history_timed (Medium.history_table.mp read) record
            (History.latest?_mem found).1
        · rw [(visit.begun_quiet executionId _ after).records]
          simp
      have kept : (visit.begun executionId log after).Kept (.table table) := by
        rw [Invocation.Kept, (visit.begun_quiet executionId log after).records]
        simp
      refine ⟨_, _, (Invocation.timed_preserved.weaken fun _ _ => trivial).and
        Invocation.kept_preserved, ⟨timed, kept⟩, ?_⟩
      rintro ended closing ⟨endedTimed, endedKept⟩ closingQuiet _ _ record member
      rw [closingQuiet.records_append] at member
      exact Operation.Faithful.preserved
        ⟨endedKept record member, endedTimed.records record member⟩

/-- A session that began over this medium and has appended faithful records only. -/
structure FaithfulSession (executionId : String) (initial : Medium)
    (trace : List (Occurrence V)) (medium : Medium) : Prop where
  appended : medium = initial.appendAll executionId (records trace)
  faithful : ∀ record ∈ records trace, record.Faithful initial

namespace FaithfulSession

variable {executionId : String} {initial : Medium} {trace : List (Occurrence V)} {store : Store}
  (session : FaithfulSession executionId initial trace store.medium)
  (empty : initial.history executionId = .ok [])

include session empty

theorem lookup? {log : OperationLog} {after : Store}
    (loaded : OperationLog.load store executionId = (.ok log, after)) (ordinal : Nat) :
    log.lookup? ordinal = History.latest? (records trace) ordinal := by
  obtain ⟨history, read, rfl, _⟩ := OperationLog.load_ok loaded
  rw [session.appended] at read
  have same := Medium.history_preserved
    (fun record member => (session.faithful record member).preserved) empty read
  rw [OperationLog.lookup?_latestStates, same, List.nil_append]

theorem visit {visit : Visit V O} (lossless : visit.workflow.EveryStep (StepCall.Lossless initial))
    (genuine : visit.clock.now.Genuine) :
    FaithfulSession executionId initial (trace ++ (visit.answer executionId store).occurrences)
      (visit.answer executionId store).store.medium := by
  refine ⟨visit.appended session.appended, ?_⟩
  suffices added : ∀ record ∈ records (visit.answer executionId store).occurrences,
      record.Faithful initial by
    intro record member
    rw [records_append, List.mem_append] at member
    exact member.elim (session.faithful record) (added record)
  refine Visit.answer_induction
    (motive := fun emitted _ => ∀ record ∈ records emitted, record.Faithful initial)
    lossless (by simp) ?_
  intro log after loaded
  have timed : (visit.begun executionId log after).Timed := by
    constructor
    · exact genuine
    · intro ordinal record found
      rw [Visit.begun_log, session.lookup? empty loaded] at found
      exact (session.faithful record (History.latest?_mem found).1).timed
    · rw [(visit.begun_quiet executionId log after).records]
      simp
  have kept : (visit.begun executionId log after).Kept initial := by
    intro record member
    rw [(visit.begun_quiet executionId log after).records] at member
    cases member
  refine ⟨_, _, (Invocation.timed_preserved.weaken fun _ _ => trivial).and
    Invocation.kept_preserved, ⟨timed, kept⟩, ?_⟩
  rintro ended closing ⟨endedTimed, endedKept⟩ closingQuiet _ _ record member
  rw [closingQuiet.records_append] at member
  exact ⟨endedKept record member, endedTimed.records record member⟩

end FaithfulSession

end Durable
