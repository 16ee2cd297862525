import Durable.Proofs.CallRecords

/-!
# Settled records

A record is settled when the outcome of its call can be recalled from it: it is
terminal, or it reports an interrupted attempt.  A call that returns an outcome with
which the workflow goes on leaves a settled record behind, and what the medium gives
back for that record recalls the same outcome.  A call that finds a settled record
recalls it, appends nothing and runs no body.
-/

namespace Durable

variable {V : Type}

namespace Operation

/-- The outcome of a step as its record tells it. -/
def outcome? (record : Operation) (codec : Codec V) : Option (Except DurableError V) :=
  match record.status with
  | .succeeded => some (record.replay codec)
  | .failed => some (.error (.stepFailed record.name (record.error.getD StepPlan.unknownFailure)))
  | .started =>
    if record.error = none then none
    else some (.error (.stepInterrupted record.name record.attempt))
  | .pending => none

/-- The outcome of a wait as its record tells it. -/
def elapse? (record : Operation) : Option (Except DurableError Unit) :=
  match record.status with
  | .succeeded => some (.ok ())
  | _ => none

/-- No call of a session with these semantics of steps goes back behind the record. -/
def Settled (semantics : String → StepSemantics) (record : Operation) : Prop :=
  record.isTerminal = true ∨
    (record.status = .started ∧ record.error ≠ none ∧ semantics record.name = .atMostOnce)

end Operation

namespace Medium.GivesBack

variable {medium : Medium} {written read : Operation}

theorem settled {semantics : String → StepSemantics} (given : medium.GivesBack written read) :
    read.Settled semantics ↔ written.Settled semantics := by
  obtain ⟨result, readyAt, rfl, _⟩ := given
  rfl

theorem outcome?_unique {again : Operation} (given : medium.GivesBack written read)
    (givenAgain : medium.GivesBack written again) (codec : Codec V) :
    again.outcome? codec = read.outcome? codec := by
  obtain ⟨result, readyAt, rfl, restored⟩ := given
  obtain ⟨resultAgain, readyAtAgain, rfl, restoredAgain⟩ := givenAgain
  rw [restored, Option.some.injEq] at restoredAgain
  rw [restoredAgain]
  rfl

theorem elapse? (given : medium.GivesBack written read) : read.elapse? = written.elapse? := by
  obtain ⟨result, readyAt, rfl, _⟩ := given
  rfl

end Medium.GivesBack

/-- The semantics of the step belong to its name. -/
def StepCall.Agreed (semantics : String → StepSemantics) (call : StepCall V) : Prop :=
  call.config.semantics = semantics call.name

/-- A value that was encoded is decoded from what the medium gives back for it. -/
def StepCall.Decodes (medium : Medium) (call : StepCall V) : Prop :=
  ∀ value payload restored, call.codec.encode value = .ok payload →
    medium.restore payload = some restored → call.codec.decode restored = .ok value

/-- A step as a session may declare it: its semantics belong to its name, and a value
that was encoded is decoded from what the medium gives back for it. -/
structure StepCall.Steady (semantics : String → StepSemantics) (medium : Medium)
    (call : StepCall V) : Prop where
  semantics : call.config.semantics = semantics call.name
  decodes : ∀ value payload restored, call.codec.encode value = .ok payload →
    medium.restore payload = some restored → call.codec.decode restored = .ok value

/-- The record that a call leaves at its ordinal, and from which the outcome is told:
it was found there, or it was appended last. -/
inductive Leaves (invocation : Invocation V) (medium : Medium) (records : List Operation)
    (tells : Operation → Prop) (record : Operation) : Prop where
  | recalled (unwritten : records = [])
      (found : invocation.log.lookup? invocation.nextOrdinal = some record)
      (told : tells record)
  | written (latest : History.latest? records invocation.nextOrdinal = some record)
      (told : ∀ read, medium.GivesBack record read → tells read)

theorem Leaves.imp {invocation : Invocation V} {medium : Medium} {records : List Operation}
    {tells told : Operation → Prop} {record : Operation}
    (leaves : Leaves invocation medium records tells record)
    (implies : ∀ read, tells read → told read) :
    Leaves invocation medium records told record := by
  cases leaves with
  | recalled unwritten found tells => exact .recalled unwritten found (implies record tells)
  | written latest tells =>
      exact .written latest fun read given => implies read (tells read given)

/-- The end of an attempt with whose outcome the workflow goes on is recorded as
terminal, and what is given back for it tells the outcome. -/
theorem BodyOutcome.closing?_tells {ending : BodyOutcome V} {retry : RetryPolicy}
    {codec : Codec V} {name : String} {attempt : Nat} {now : Instant} {medium : Medium}
    {update : OperationUpdate} {seen : Except DurableError V}
    (closes : ending.closing? retry codec name attempt now = some (update, seen))
    (goesOn : Invocation.haltOf? seen = none) :
    update.status.isTerminal = true ∧
      ∀ base : Operation, base.name = name →
        (∀ value payload restored, codec.encode value = .ok payload →
          medium.restore payload = some restored → codec.decode restored = .ok value) →
        ∀ read, medium.GivesBack (base.withState update) read →
          read.outcome? codec = some seen := by
  unfold closing? at closes
  split at closes
  · simp at closes
  · next value =>
      split at closes
      · next payload encoded =>
          cases closes
          refine ⟨rfl, ?_⟩
          rintro base rfl decodes read ⟨result, readyAt, rfl, restored⟩
          obtain ⟨back, restores, rfl⟩ : ∃ back, medium.restore payload = some back ∧
              some back = result := by
            simpa [Operation.withState, OperationUpdate.succeeded] using restored
          have decoded := decodes value payload back encoded restores
          simp [Operation.outcome?, Operation.withState, OperationUpdate.succeeded,
            Operation.replay, decoded, Except.mapError]
      · next details failed =>
          cases closes
          refine ⟨rfl, ?_⟩
          rintro base rfl _ read ⟨result, readyAt, rfl, _⟩
          rfl
  · next error =>
      split at closes
      · cases closes
        cases goesOn
      · cases closes
        refine ⟨rfl, ?_⟩
        rintro base rfl _ read ⟨result, readyAt, rfl, _⟩
        rfl

namespace StepCourse

variable {invocation : Invocation V} {call : StepCall V} {middle : List (Occurrence V)}

/-- A step call that finds a settled record recalls it. -/
theorem of_settled {semantics : String → StepSemantics} {reply : Reply V}
    {record : Operation} (course : StepCourse invocation call reply middle)
    (found : invocation.log.lookup? invocation.nextOrdinal = some record)
    (settled : record.Settled semantics) (agreed : call.Agreed semantics) :
    Occurrence.Quiet middle ∧
      (invocation.declaredAt? call.name = none → record.kind = .step →
        record.name = call.name →
        ∃ outcome, reply = .returned outcome ∧ record.outcome? call.codec = some outcome) := by
  cases course with
  | duplicate first known =>
      refine ⟨⟨rfl, rfl⟩, fun fresh => ?_⟩
      simp [fresh] at known
  | mismatched operation fresh foundOther other =>
      refine ⟨⟨rfl, rfl⟩, fun _ kind name => ?_⟩
      rw [found, Option.some.injEq] at foundOther
      subst foundOther
      exact absurd ⟨kind, name⟩ other
  | planned recorded fresh foundRecorded same course =>
      rw [found] at foundRecorded
      subst foundRecorded
      obtain ⟨_, name⟩ := same record rfl
      cases status : record.status with
      | succeeded =>
          simp only [StepPlan.ofRecord, status] at course
          cases course
          exact ⟨⟨rfl, rfl⟩, fun _ _ _ => ⟨_, rfl, by simp only [Operation.outcome?, status]⟩⟩
      | failed =>
          simp only [StepPlan.ofRecord, status] at course
          cases course
          exact ⟨⟨rfl, rfl⟩, fun _ _ _ => ⟨_, rfl, by simp only [Operation.outcome?, status]⟩⟩
      | pending =>
          rcases settled with terminal | ⟨started, _⟩
          · simp [Operation.isTerminal, status, OperationStatus.isTerminal] at terminal
          · simp [status] at started
      | started =>
          rcases settled with terminal | ⟨_, noted, guarded⟩
          · simp [Operation.isTerminal, status, OperationStatus.isTerminal] at terminal
          · rw [name, ← agreed] at guarded
            simp only [StepPlan.ofRecord, status, guarded] at course
            cases course with
            | reported _ _ =>
                refine ⟨⟨rfl, rfl⟩, fun _ _ _ => ⟨_, rfl, ?_⟩⟩
                simp only [Operation.outcome?, status, if_neg noted]
            | annotated _ unnoted => exact absurd unnoted noted
            | unannotated _ unnoted error faulty => exact absurd unnoted noted

theorem apart_of_settled {semantics : String → StepSemantics} {reply : Reply V}
    {record : Operation} {ordinal : Nat} (course : StepCourse invocation call reply middle)
    (found : invocation.log.lookup? ordinal = some record)
    (settled : record.Settled semantics) (agreed : call.Agreed semantics) :
    ∀ operation ∈ Occurrence.records middle, operation.ordinal ≠ ordinal := by
  intro operation member here
  rw [← here, (course.ownRecords.own operation member).1] at found
  rw [(course.of_settled found settled agreed).1.records] at member
  cases member

/-- A step call with whose outcome the workflow goes on leaves a settled record, from
which the outcome is told if values are decoded. -/
theorem leaves {semantics : String → StepSemantics} (medium : Medium)
    {outcome : Except DurableError V}
    (course : StepCourse invocation call (.returned outcome) middle)
    (goesOn : Invocation.haltOf? outcome = none) (agreed : call.Agreed semantics) :
    invocation.declaredAt? call.name = none ∧
      ∃ record, record.kind = .step ∧ record.name = call.name ∧ record.Settled semantics ∧
        Leaves invocation medium (Occurrence.records middle)
          (fun read => call.Decodes medium → read.outcome? call.codec = some outcome) record := by
  cases course with
  | duplicate first known =>
      rw [Invocation.haltOf?_of_isFatal rfl] at goesOn
      simp at goesOn
  | mismatched operation fresh found other =>
      rw [Invocation.haltOf?_of_isFatal rfl] at goesOn
      simp at goesOn
  | planned recorded fresh found same course =>
      refine ⟨fresh, ?_⟩
      have fits : ∀ operation, invocation.log.lookup? invocation.nextOrdinal = some operation →
          operation.kind = .step ∧ operation.name = call.name := by
        intro operation here
        exact same operation (found.symm.trans here)
      generalize planned : StepPlan.ofRecord recorded call.config.semantics invocation.now =
        plan at course
      cases course with
      | replay operation =>
          obtain ⟨rfl, succeeded⟩ := StepPlan.ofRecord_eq_replay planned
          obtain ⟨kind, name⟩ := fits operation found
          refine ⟨operation, kind, name, .inl ?_, .recalled rfl found ?_⟩
          · exact Operation.isTerminal_of_status succeeded
          · intro _
            simp only [Operation.outcome?, succeeded]
      | fail error =>
          obtain ⟨operation, rfl, ⟨failed, rfl⟩ | ⟨_, wake, rfl⟩⟩ :=
            StepPlan.ofRecord_eq_fail planned
          · obtain ⟨kind, name⟩ := fits operation found
            refine ⟨operation, kind, name, .inl ?_, .recalled rfl found ?_⟩
            · exact Operation.isTerminal_of_status failed
            · intro _
              simp only [Operation.outcome?, failed]
          · cases goesOn
      | reported operation noted =>
          obtain ⟨rfl, started, guarded⟩ := StepPlan.ofRecord_eq_interrupt planned
          obtain ⟨kind, name⟩ := fits operation found
          refine ⟨operation, kind, name, .inr ⟨started, noted, ?_⟩, .recalled rfl found ?_⟩
          · rw [name, ← agreed, guarded]
          · intro _
            simp only [Operation.outcome?, started, if_neg noted]
      | annotated operation unnoted =>
          obtain ⟨rfl, started, guarded⟩ := StepPlan.ofRecord_eq_interrupt planned
          obtain ⟨kind, name⟩ := fits operation found
          have ordinal := OperationLog.lookup?_ordinal found
          refine ⟨operation.annotated, kind, name, .inr ⟨rfl, by simp [Operation.annotated,
            Operation.withState, OperationUpdate.interrupted], ?_⟩, .written ?_ ?_⟩
          · rw [← guarded, agreed]
            exact congrArg semantics name
          · simp [Effect.record?, History.latest?_cons, Operation.annotated, ordinal]
          · rintro read ⟨result, readyAt, rfl, _⟩ _
            rfl
      | unannotated operation unnoted error faulty =>
          cases goesOn
      | attempted number unfinished notDecreasing course =>
          obtain ⟨ordinal, kind, name⟩ := StepCall.base_fits fits
          cases course with
          | unmarked error guarded faulty =>
              cases goesOn
          | lost chatter logs reading update seen closes error faulty =>
              cases goesOn
          | closed chatter logs reading update seen closes diagnostic =>
              have latest :=
                call.latest?_closing invocation number logs reading update diagnostic
              obtain ⟨terminal, told⟩ := BodyOutcome.closing?_tells closes goesOn
              exact ⟨(call.base invocation).withState update, kind, name, .inl terminal,
                .written latest fun read given decodes =>
                  told (call.base invocation) name decodes read given⟩

theorem settles {semantics : String → StepSemantics} {medium : Medium}
    {outcome : Except DurableError V}
    (course : StepCourse invocation call (.returned outcome) middle)
    (goesOn : Invocation.haltOf? outcome = none) (steady : call.Steady semantics medium) :
    invocation.declaredAt? call.name = none ∧
      ∃ record, record.kind = .step ∧ record.name = call.name ∧ record.Settled semantics ∧
        Leaves invocation medium (Occurrence.records middle)
          (fun read => read.outcome? call.codec = some outcome) record := by
  obtain ⟨fresh, record, kind, name, settled, leaves⟩ :=
    course.leaves medium goesOn steady.semantics
  exact ⟨fresh, record, kind, name, settled, leaves.imp fun read told => told steady.decodes⟩

end StepCourse

namespace WaitCourse

variable {invocation : Invocation V} {call : WaitCall} {outcome : Except DurableError Unit}
  {middle : List (Occurrence V)}

theorem of_settled {semantics : String → StepSemantics} {record : Operation}
    (course : WaitCourse invocation call outcome middle)
    (found : invocation.log.lookup? invocation.nextOrdinal = some record)
    (settled : record.Settled semantics) :
    Occurrence.Quiet middle ∧
      (invocation.declaredAt? call.name = none → record.kind = .timer →
        record.name = call.name → ∀ told, record.elapse? = some told → outcome = told) := by
  cases course with
  | duplicate first known =>
      refine ⟨⟨rfl, rfl⟩, fun fresh => ?_⟩
      simp [fresh] at known
  | mismatched operation fresh foundOther other =>
      refine ⟨⟨rfl, rfl⟩, fun _ kind name => ?_⟩
      rw [found, Option.some.injEq] at foundOther
      subst foundOther
      exact absurd ⟨kind, name⟩ other
  | planned recorded fresh foundRecorded same course =>
      rw [found] at foundRecorded
      subst foundRecorded
      cases status : record.status with
      | succeeded =>
          simp only [WaitPlan.ofRecord, status] at course
          cases course
          refine ⟨⟨rfl, rfl⟩, fun _ _ _ told tells => ?_⟩
          simp only [Operation.elapse?, status, Option.some.injEq] at tells
          exact tells
      | pending =>
          rcases settled with terminal | ⟨started, _⟩
          · simp [Operation.isTerminal, status, OperationStatus.isTerminal] at terminal
          · simp [status] at started
      | started =>
          simp only [WaitPlan.ofRecord, status] at course
          cases course
          exact ⟨⟨rfl, rfl⟩, fun _ _ _ told tells => by simp [Operation.elapse?, status] at tells⟩
      | failed =>
          simp only [WaitPlan.ofRecord, status] at course
          cases course
          exact ⟨⟨rfl, rfl⟩, fun _ _ _ told tells => by simp [Operation.elapse?, status] at tells⟩

theorem apart_of_settled {semantics : String → StepSemantics} {record : Operation}
    {ordinal : Nat} (course : WaitCourse invocation call outcome middle)
    (found : invocation.log.lookup? ordinal = some record)
    (settled : record.Settled semantics) :
    ∀ operation ∈ Occurrence.records middle, operation.ordinal ≠ ordinal := by
  intro operation member here
  rw [← here, (course.ownRecords.own operation member).1] at found
  rw [(course.of_settled found settled).1.records] at member
  cases member

theorem settles (semantics : String → StepSemantics) (medium : Medium)
    (course : WaitCourse invocation call outcome middle)
    (goesOn : Invocation.haltOf? outcome = none) :
    invocation.declaredAt? call.name = none ∧
      ∃ record, record.kind = .timer ∧ record.name = call.name ∧ record.Settled semantics ∧
        Leaves invocation medium (Occurrence.records middle)
          (fun read => read.elapse? = some outcome) record := by
  cases course with
  | duplicate first known =>
      rw [Invocation.haltOf?_of_isFatal rfl] at goesOn
      simp at goesOn
  | mismatched operation fresh found other =>
      rw [Invocation.haltOf?_of_isFatal rfl] at goesOn
      simp at goesOn
  | planned recorded fresh found same course =>
      refine ⟨fresh, ?_⟩
      have fits : ∀ operation, invocation.log.lookup? invocation.nextOrdinal = some operation →
          operation.kind = .timer ∧ operation.name = call.name := by
        intro operation here
        exact same operation (found.symm.trans here)
      generalize planned : WaitPlan.ofRecord recorded invocation.now = plan at course
      cases course with
      | pass =>
          obtain ⟨timer, rfl, succeeded⟩ := WaitPlan.ofRecord_eq_pass planned
          obtain ⟨kind, name⟩ := fits timer found
          refine ⟨timer, kind, name, .inl ?_, .recalled rfl found ?_⟩
          · exact Operation.isTerminal_of_status succeeded
          · simp only [Operation.elapse?, succeeded]
      | fail error => exact absurd goesOn (WaitPlan.ofRecord_eq_fail planned)
      | elapsed timer diagnostic =>
          obtain ⟨rfl, pending, _⟩ := WaitPlan.ofRecord_eq_elapse planned
          obtain ⟨kind, name⟩ := fits timer found
          have ordinal := OperationLog.lookup?_ordinal found
          refine ⟨timer.elapsed, kind, name, .inl rfl, .written ?_ ?_⟩
          · simp [Effect.record?, History.latest?_cons, Operation.elapsed, ordinal]
          · rintro read ⟨result, readyAt, rfl, _⟩
            rfl
      | unelapsed timer error faulty => cases goesOn
      | passed due =>
          refine ⟨(call.timer invocation).elapsed, rfl, rfl, .inl rfl, .written ?_ ?_⟩
          · simp [Effect.record?, History.latest?_cons, Operation.elapsed, WaitCall.timer,
              Operation.timer]
          · rintro read ⟨result, readyAt, rfl, _⟩
            rfl
      | started notDue diagnostic => cases goesOn
      | lost written error faulty => cases goesOn

end WaitCourse

end Durable
