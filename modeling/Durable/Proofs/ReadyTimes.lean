import Durable.Proofs.SessionChronicle

/-!
# Ready times

Every ready time that a session records is a sum of a clock reading and a duration, or
one that came back from the medium.  Under clocks that show genuine instants it is such an
instant, so that it comes back from every medium as it is.
-/

namespace Durable

variable {V O : Type} {semantics : String → StepSemantics} {medium : Medium}

open Occurrence

namespace Operation

/-- The ready time, if there is one, is an instant that a clock can show. -/
def Timed (record : Operation) : Prop :=
  ∀ readyAt, record.readyAt = some readyAt → readyAt.Genuine

theorem timed_of_untimed {record : Operation} (untimed : record.readyAt = none) :
    record.Timed := by
  intro readyAt found
  rw [untimed] at found
  cases found

theorem timed_of_genuine {record : Operation} {t : Instant} (ready : record.readyAt = some t)
    (genuine : t.Genuine) : record.Timed := by
  intro readyAt found
  rw [ready] at found
  cases found
  exact genuine

end Operation

theorem Medium.Restores.readyAt {written read : Operation}
    (restores : medium.Restores written read) (timed : written.Timed) :
    read.readyAt = written.readyAt := by
  obtain ⟨result, readyAt, rfl, _, timeGiven⟩ := restores
  cases ready : written.readyAt with
  | none =>
      rw [ready] at timeGiven
      exact (Option.some.inj timeGiven).symm
  | some t =>
      rw [ready] at timeGiven
      obtain ⟨back, given, rfl⟩ := of_mapM_some timeGiven
      rw [medium.restoreTime_genuine (timed t ready)] at given
      exact given.symm

theorem Medium.Restores.timed {written read : Operation}
    (restores : medium.Restores written read) (timed : written.Timed) : read.Timed := by
  intro t ready
  rw [restores.readyAt timed] at ready
  exact timed t ready

theorem Row.Describes.timed {row : Row String} {record : Operation}
    (describes : row.Describes record) : record.Timed := by
  intro t ready
  have related := describes.readyAt
  rw [ready] at related
  generalize row.readyAt = text at related
  cases related with
  | some given => exact Instant.ofLoose?_genuine given

theorem Table.history_timed {table : Table} {executionId : String} {history : List Operation}
    (read : table.history executionId = .ok history) : ∀ record ∈ history, record.Timed := by
  intro record member
  obtain ⟨row, _, describes⟩ := exists_mem_of_forall₂ (history_ok_iff.mp read).flip member
  exact describes.timed

theorem BodyOutcome.closing?_timed {ending : BodyOutcome V} {retry : RetryPolicy}
    {codec : Codec V} {name : String} {attempt : Nat} {now : Instant}
    {update : OperationUpdate} {seen : Except DurableError V} (genuine : now.Genuine)
    (closes : ending.closing? retry codec name attempt now = some (update, seen))
    (operation : Operation) : (operation.withState update).Timed := by
  unfold closing? at closes
  split at closes
  · simp at closes
  · split at closes <;> cases closes <;> exact Operation.timed_of_untimed rfl
  · split at closes <;> cases closes
    · exact Operation.timed_of_genuine rfl (genuine.add _)
    · exact Operation.timed_of_untimed rfl

section Courses

variable {invocation : Invocation V} (genuine : invocation.now.Genuine)

include genuine

private theorem AttemptCourse.timed {call : StepCall V} {number : Nat} {reply : Reply V}
    {emitted : List (Occurrence V)}
    (course : AttemptCourse invocation call number reply emitted) :
    ∀ record ∈ records emitted, record.Timed := by
  intro record member
  rcases course.marks_or_closes record member with rfl | ⟨update, outcome, closes, rfl⟩
  · exact Operation.timed_of_untimed rfl
  · have reached : (call.clockAfter invocation number).now.Genuine :=
      (BodyRun.reaches_clockAfter _ _).genuine genuine
    exact BodyOutcome.closing?_timed reached closes _

theorem StepCourse.timed {call : StepCall V} {reply : Reply V} {middle : List (Occurrence V)}
    (course : StepCourse invocation call reply middle) :
    ∀ record ∈ records middle, record.Timed := by
  cases course with
  | duplicate first known => simp
  | mismatched operation fresh found other => simp
  | planned recorded fresh found same course =>
      generalize StepPlan.ofRecord recorded call.config.semantics invocation.now = plan at course
      cases course with
      | replay operation => simp [Effect.record?]
      | fail error => simp
      | reported operation noted => simp [Effect.record?]
      | unannotated operation unnoted error faulty => simp [Effect.record?]
      | annotated operation unnoted =>
          intro record member
          obtain rfl : record = operation.annotated := by simpa [Effect.record?] using member
          exact Operation.timed_of_untimed rfl
      | attempted number unfinished notDecreasing course => exact course.timed genuine

theorem WaitCourse.timed {call : WaitCall} {outcome : Except DurableError Unit}
    {middle : List (Occurrence V)} (course : WaitCourse invocation call outcome middle)
    (logged : ∀ record, invocation.log.lookup? invocation.nextOrdinal = some record →
      record.Timed) :
    ∀ record ∈ records middle, record.Timed := by
  have due := genuine.add call.duration
  cases course with
  | duplicate first known => simp
  | mismatched operation fresh found other => simp
  | planned recorded fresh found same course =>
      generalize planned : WaitPlan.ofRecord recorded invocation.now = plan at course
      cases course with
      | pass => simp
      | fail error => simp
      | unelapsed timer error faulty => simp [Effect.record?]
      | lost written error faulty => simp [Effect.record?]
      | elapsed timer diagnostic =>
          obtain ⟨rfl, _, _⟩ := WaitPlan.ofRecord_eq_elapse planned
          intro record member
          obtain rfl : record = timer.elapsed := by simpa [Effect.record?] using member
          exact logged timer found
      | passed nothingLeft =>
          intro record member
          obtain rfl : record = (call.timer invocation).elapsed := by
            simpa [Effect.record?] using member
          exact Operation.timed_of_genuine rfl due
      | started notDue diagnostic =>
          intro record member
          obtain rfl : record = call.timer invocation := by simpa [Effect.record?] using member
          exact Operation.timed_of_genuine rfl due

end Courses

/-- What holds throughout a pass under a genuine clock: the log and the records that were
appended have genuine ready times. -/
structure Invocation.Timed (invocation : Invocation V) : Prop where
  now : invocation.now.Genuine
  log : ∀ ordinal record, invocation.log.lookup? ordinal = some record → record.Timed
  records : ∀ record ∈ records invocation.occurrences, record.Timed

theorem Invocation.Timed.extend {before after : Invocation V} {emitted : List (Occurrence V)}
    (timed : before.Timed) (extension : Extends before after emitted)
    (added : ∀ record ∈ Occurrence.records emitted, record.Timed) : after.Timed := by
  constructor
  · exact extension.clock.genuine timed.now
  · intro ordinal record found
    rw [extension.lookup?] at found
    rcases Option.or_eq_some_iff.mp found with here | ⟨_, before⟩
    · exact added record (History.latest?_mem here).1
    · exact timed.log ordinal record before
  · intro record member
    rw [extension.occurrences, records_append, List.mem_append] at member
    rcases member with before | here
    · exact timed.records record before
    · exact added record here

theorem Invocation.timed_preserved :
    Invocation.Preserved (fun _ : StepCall V => True) Invocation.Timed Invocation.Timed := by
  refine ⟨id, ?_, ?_, ?_⟩
  · intro before after emitted extension isQuiet place timed
    apply timed.extend extension
    simp [isQuiet.records]
  · intro before after call reply middle _ free course called timed
    have extended : after.Timed := by
      apply timed.extend called.extension
      intro record member
      apply course.timed timed.now record
      simpa [Effect.record?, (reply.returning_quiet call.name after).records] using member
    exact ⟨extended, fun _ => extended⟩
  · intro before after call outcome middle free course called timed
    apply timed.extend called.extension
    intro record member
    apply course.timed timed.now (timed.log before.nextOrdinal) record
    simpa [Effect.record?] using member

/-- The log that is loaded has genuine ready times when the records of the session have. -/
theorem ChronicledSession.timed {executionId : String} {initial : Medium} {store after : Store}
    {trace : List (Occurrence V)} {log : OperationLog}
    (session : ChronicledSession semantics executionId initial trace store.medium)
    (empty : initial.history executionId = .ok [])
    (timed : ∀ record ∈ records trace, record.Timed)
    (loaded : OperationLog.load store executionId = (.ok log, after)) {visit : Visit V O}
    (genuine : visit.clock.now.Genuine) : (visit.begun executionId log after).Timed := by
  constructor
  · exact genuine
  · intro ordinal record found
    have related := (session.chronicled empty loaded visit).1.related ordinal
    rw [found] at related
    generalize latest : History.latest? (records trace) ordinal = written at related
    cases related with
    | some given => exact given.timed (timed _ (History.latest?_mem latest).1)
  · rw [(visit.begun_quiet executionId log after).records]
    simp

/-- What a visit appends has genuine ready times, when what was there before has. -/
theorem ChronicledSession.visit_timed {executionId : String} {initial : Medium} {store : Store}
    {trace : List (Occurrence V)}
    (session : ChronicledSession semantics executionId initial trace store.medium)
    (empty : initial.history executionId = .ok [])
    (timed : ∀ record ∈ records trace, record.Timed) {visit : Visit V O}
    (genuine : visit.clock.now.Genuine) :
    ∀ record ∈ records (visit.answer executionId store).occurrences, record.Timed := by
  refine Visit.answer_induction
    (motive := fun emitted _ => ∀ record ∈ records emitted, record.Timed)
    visit.workflow.everyStep_true (by simp) ?_
  intro log after loaded
  refine ⟨_, _, Invocation.timed_preserved, session.timed empty timed loaded genuine, ?_⟩
  intro ended closing endedTimed closingQuiet _ _
  rw [closingQuiet.records_append]
  exact endedTimed.records

/-- The records of a session under genuine clocks have genuine ready times. -/
theorem Session.timed {executionId : String} {store : Store} {visits : List (Visit V O)}
    (empty : store.medium.history executionId = .ok [])
    (agreed : ∀ visit ∈ visits, visit.workflow.EveryStep (StepCall.Agreed semantics))
    (genuine : ∀ visit ∈ visits, visit.clock.now.Genuine) :
    ∀ record ∈ records (Session.occurrences executionId store visits), record.Timed := by
  have initially : ChronicledSession semantics executionId store.medium
      ([] : List (Occurrence V)) store.medium := ⟨rfl, .nil⟩
  refine (Session.preserved
    (fun trace visited =>
      ChronicledSession semantics executionId store.medium trace visited.medium ∧
        ∀ record ∈ records trace, record.Timed) ?_ ⟨initially, by simp⟩).2
  rintro visit member trace visited ⟨session, timed⟩
  refine ⟨session.extend empty (agreed visit member), ?_⟩
  rw [records_append]
  intro record isRecord
  rcases List.mem_append.mp isRecord with before | here
  · exact timed record before
  · exact session.visit_timed empty timed (genuine visit member) record here

end Durable
