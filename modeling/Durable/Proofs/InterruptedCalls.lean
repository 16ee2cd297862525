import Durable.Proofs.StartedRecords

/-!
# Calls that find an interruption

A step call tells the workflow of an interruption when it finds the started record of a
guarded attempt, and in no other case.  It runs a body for its own ordinal only, and none
where it finds such a record.
-/

namespace Durable

variable {V : Type}

open Occurrence

namespace Effect

/-- The record whose append has failed, with the error. -/
def lost? : Effect V → Option (Operation × StoreError)
  | .appendFailed operation error => some (operation, error)
  | _ => none

end Effect

namespace Occurrence

/-- The records whose appends have failed, in order. -/
def lost (trace : List (Occurrence V)) : List (Operation × StoreError) :=
  trace.filterMap fun occurrence => occurrence.effect.lost?

@[simp] theorem lost_nil : lost ([] : List (Occurrence V)) = [] :=
  rfl

@[simp] theorem lost_append (earlier later : List (Occurrence V)) :
    lost (earlier ++ later) = lost earlier ++ lost later := by
  simp [lost]

@[simp] theorem lost_cons (occurrence : Occurrence V) (rest : List (Occurrence V)) :
    lost (occurrence :: rest) = occurrence.effect.lost?.toList ++ lost rest := by
  cases failed : occurrence.effect.lost? <;> simp [lost, failed]

theorem Chatter.lost {chatter : List (Occurrence V)} (logs : Chatter chatter) :
    Occurrence.lost chatter = [] := by
  apply List.filterMap_eq_nil_iff.mpr
  intro occurrence member
  have isLog := logs occurrence member
  cases effect : occurrence.effect <;> simp_all [Effect.isChatter, Effect.lost?]

end Occurrence

/-- The workflow is told that the attempt was interrupted, or that the report of the
interruption could not be appended. -/
def TellsInterruption (ordinal : Nat) (name : String) (attempt : Nat) (reply : Reply α)
    (emitted : List (Occurrence V)) : Prop :=
  reply = .returned (.error (.stepInterrupted name attempt)) ∨
    ∃ error, reply = .returned (.error (.checkpoint error)) ∧
      (Operation.interruption ordinal name attempt, error) ∈ lost emitted

theorem StepCall.opening_lost (call : StepCall V) (invocation : Invocation V) (number : Nat) :
    lost (call.opening invocation number) = [] := by
  cases semantics : call.config.semantics <;>
    simp [opening, Occurrence.marker, semantics, Effect.lost?]

theorem StepCall.opening_bodyOrdinals (call : StepCall V) (invocation : Invocation V)
    (number : Nat) :
    bodyOrdinals (call.opening invocation number) = [invocation.nextOrdinal] := by
  cases semantics : call.config.semantics <;>
    simp [opening, Occurrence.marker, semantics, Effect.bodyOrdinal?]

theorem Operation.replay_error {operation : Operation} {codec : Codec V} {error : DurableError}
    (replayed : operation.replay codec = .error error) :
    (∃ name details, error = .invalidOperationState name details) ∨
      ∃ details, error = .serialization details := by
  unfold replay at replayed
  split at replayed
  · cases replayed
    exact .inl ⟨_, _, rfl⟩
  · next result recorded =>
      cases decoded : codec.decode result with
      | ok value =>
          rw [decoded] at replayed
          cases replayed
      | error details =>
          rw [decoded] at replayed
          cases replayed
          exact .inr ⟨_, rfl⟩

theorem BodyOutcome.closing?_error {ending : BodyOutcome V} {retry : RetryPolicy}
    {codec : Codec V} {name : String} {attempt : Nat} {now : Instant}
    {update : OperationUpdate} {error : DurableError}
    (closes : ending.closing? retry codec name attempt now = some (update, .error error)) :
    (∃ wake, error = .suspended wake) ∨ ∃ object, error = .stepFailed name object := by
  unfold closing? at closes
  split at closes
  · simp at closes
  · split at closes <;> cases closes
    exact .inr ⟨_, rfl⟩
  · split at closes <;> cases closes
    · exact .inl ⟨_, rfl⟩
    · exact .inr ⟨_, rfl⟩

section Courses

variable {invocation : Invocation V} {call : StepCall V} {reply : Reply V}
  {middle : List (Occurrence V)} {ordinal attempt : Nat} {name : String}

theorem AttemptCourse.not_tells {number : Nat}
    (course : AttemptCourse invocation call number reply middle) :
    ¬TellsInterruption ordinal name attempt reply middle := by
  cases course with
  | unmarked error guarded faulty =>
      rintro (told | ⟨_, _, member⟩)
      · cases told
      · have same := congrArg Prod.fst (List.mem_singleton.mp member)
        cases congrArg Operation.error same
  | crashed chatter logs dies =>
      rintro (told | ⟨_, told, _⟩) <;> cases told
  | lost chatter logs reading update outcome closes error faulty =>
      rintro (told | ⟨_, _, member⟩)
      · cases told
      · simp only [lost_append, call.opening_lost, logs.lost, List.nil_append] at member
        have same := congrArg Prod.fst (List.mem_singleton.mp member)
        have started : update.status = .started := (congrArg Operation.status same).symm
        exact absurd started (BodyOutcome.closing?_outcome closes).status_ne
  | closed chatter logs reading update outcome closes diagnostic =>
      rintro (told | ⟨_, told, _⟩)
      all_goals
        cases told
        rcases BodyOutcome.closing?_error closes with ⟨_, same⟩ | ⟨_, same⟩ <;> cases same

/-- A step call that tells of an interruption has found the record of a guarded attempt
that had begun. -/
theorem StepCourse.of_tells (course : StepCourse invocation call reply middle)
    (tells : TellsInterruption ordinal name attempt reply middle) :
    ∃ record, invocation.log.lookup? invocation.nextOrdinal = some record ∧
      record.status = .started ∧ record.attempt = attempt ∧
      call.config.semantics = .atMostOnce := by
  cases course with
  | duplicate first known => rcases tells with told | ⟨_, told, _⟩ <;> cases told
  | mismatched operation fresh found other =>
      rcases tells with told | ⟨_, told, _⟩ <;> cases told
  | planned recorded fresh found same course =>
      generalize planned : StepPlan.ofRecord recorded call.config.semantics invocation.now =
        plan at course
      cases course with
      | replay operation =>
          rcases tells with told | ⟨_, told, _⟩
          all_goals
            rcases Operation.replay_error (Reply.returned.inj told) with
              ⟨_, _, same⟩ | ⟨_, same⟩ <;> cases same
      | fail error =>
          obtain ⟨_, _, ⟨_, rfl⟩ | ⟨_, wake, rfl⟩⟩ := StepPlan.ofRecord_eq_fail planned <;>
            rcases tells with told | ⟨_, told, _⟩ <;> cases told
      | reported operation noted =>
          obtain ⟨rfl, started, guarded⟩ := StepPlan.ofRecord_eq_interrupt planned
          rcases tells with told | ⟨_, told, _⟩
          · cases told
            exact ⟨operation, found, started, rfl, guarded⟩
          · cases told
      | annotated operation unnoted =>
          obtain ⟨rfl, started, guarded⟩ := StepPlan.ofRecord_eq_interrupt planned
          rcases tells with told | ⟨_, told, _⟩
          · cases told
            exact ⟨operation, found, started, rfl, guarded⟩
          · cases told
      | unannotated operation unnoted error faulty =>
          obtain ⟨rfl, started, guarded⟩ := StepPlan.ofRecord_eq_interrupt planned
          rcases tells with told | ⟨_, _, member⟩
          · cases told
          · have same := congrArg Prod.fst (List.mem_singleton.mp member)
            exact ⟨operation, found, started, (congrArg Operation.attempt same).symm, guarded⟩
      | attempted number unfinished notDecreasing course => exact absurd tells course.not_tells

/-- A step call that finds the record of a guarded attempt that had begun tells of its
interruption. -/
theorem StepCourse.tells {record : Operation} (course : StepCourse invocation call reply middle)
    (found : invocation.log.lookup? invocation.nextOrdinal = some record)
    (fresh : invocation.declaredAt? call.name = none) (id : record.id = operationId record.ordinal)
    (kind : record.kind = .step) (name : record.name = call.name)
    (started : record.status = .started) (guarded : call.config.semantics = .atMostOnce) :
    TellsInterruption invocation.nextOrdinal call.name record.attempt reply middle := by
  have annotated : record.annotated =
      .interruption invocation.nextOrdinal call.name record.attempt := by
    rw [Operation.annotated_of_id id kind, name, OperationLog.lookup?_ordinal found]
  cases course with
  | duplicate first known =>
      rw [fresh] at known
      cases known
  | mismatched operation _ foundOther other =>
      cases found.symm.trans foundOther
      exact absurd ⟨kind, name⟩ other
  | planned recorded _ foundRecorded same course =>
      cases found.symm.trans foundRecorded
      simp only [StepPlan.ofRecord, started, guarded] at course
      cases course with
      | reported _ noted => exact .inl (by rw [name])
      | annotated _ unnoted => exact .inl (by rw [name])
      | unannotated _ unnoted error faulty =>
          refine .inr ⟨error, rfl, ?_⟩
          rw [← annotated]
          exact List.mem_singleton.mpr rfl

theorem AttemptCourse.bodyOrdinals {number : Nat}
    (course : AttemptCourse invocation call number reply middle)
    (begun : ordinal ∈ Occurrence.bodyOrdinals middle) : ordinal = invocation.nextOrdinal := by
  have silent : ∀ {chatter : List (Occurrence V)}, Chatter chatter →
      Occurrence.bodyOrdinals chatter = [] := fun logs => bodyOrdinals_of_bodies logs.bodies
  cases course with
  | unmarked error guarded faulty => simp [Effect.bodyOrdinal?] at begun
  | crashed chatter logs dies =>
      simpa [call.opening_bodyOrdinals, silent logs] using begun
  | lost chatter logs reading update outcome closes error faulty =>
      simpa [call.opening_bodyOrdinals, silent logs, Effect.bodyOrdinal?] using begun
  | closed chatter logs reading update outcome closes diagnostic =>
      simpa [call.opening_bodyOrdinals, silent logs, Effect.bodyOrdinal?] using begun

/-- A step call runs a body for its own ordinal only, and none where it finds the record
of a guarded attempt that had begun. -/
theorem StepCourse.bodyOrdinals (course : StepCourse invocation call reply middle)
    (begun : ordinal ∈ Occurrence.bodyOrdinals middle) :
    ordinal = invocation.nextOrdinal ∧ ∀ record,
      invocation.log.lookup? invocation.nextOrdinal = some record → record.status = .started →
        record.name = call.name ∧ call.config.semantics = .atLeastOnce := by
  cases course with
  | duplicate first known => cases begun
  | mismatched operation fresh found other => cases begun
  | planned recorded fresh found same course =>
      generalize planned : StepPlan.ofRecord recorded call.config.semantics invocation.now =
        plan at course
      cases course with
      | replay operation => cases begun
      | fail error => cases begun
      | reported operation noted => cases begun
      | annotated operation unnoted => cases begun
      | unannotated operation unnoted error faulty => cases begun
      | attempted number unfinished notDecreasing course =>
          refine ⟨course.bodyOrdinals begun, ?_⟩
          rintro record here started
          obtain rfl := found.symm.trans here
          rcases StepPlan.ofRecord_eq_attempt planned with
            ⟨absent, _⟩ | ⟨operation, sameRecord, ⟨pending, _⟩ | ⟨_, unguarded, _⟩⟩
          · cases absent
          · cases sameRecord
            cases started.symm.trans pending
          · exact ⟨(same record rfl).2, unguarded⟩

end Courses

namespace MadeCall

/-- What happens during the call. -/
def emitted (made : MadeCall V) : List (Occurrence V) :=
  made.after.occurrences.drop made.before.occurrences.length

/-- The call finds that the attempt was interrupted. -/
def FindsInterruption (made : MadeCall V) (attempt : Nat) : Prop :=
  TellsInterruption made.before.nextOrdinal made.declaration.name attempt made.reply made.emitted

theorem emitted_of_called {made : MadeCall V} {kind : OperationKind} {name : String}
    {rest : List (Occurrence V)} {halt : Option Halt}
    (called : Invocation.Called made.before made.after kind name rest halt) :
    made.emitted = ⟨made.before.now, .declared made.before.nextOrdinal kind name⟩ :: rest := by
  rw [emitted, called.extension.occurrences, List.drop_left]

theorem findsInterruption_iff {made : MadeCall V} {call : StepCall V}
    (free : made.before.halt = none) (declared : made.declaration = .step call) :
    ∃ reply middle, StepCourse made.before call reply middle ∧ ∀ attempt,
      made.FindsInterruption attempt ↔
        TellsInterruption made.before.nextOrdinal call.name attempt reply middle := by
  obtain ⟨reply, middle, course, called, replied⟩ := step_called free declared
  refine ⟨reply, middle, course, fun attempt => ?_⟩
  have lostSame : lost made.emitted = lost middle := by
    have returning : lost (reply.returning call.name made.after) = [] := by
      cases reply <;> rfl
    rw [emitted_of_called called, lost_cons, lost_append, returning, List.append_nil]
    rfl
  have sameReply : ∀ error, made.reply = .returned (.error error) ↔
      reply = .returned (.error error) := by
    intro error
    rw [replied, Reply.map_eq_error]
  simp only [FindsInterruption, TellsInterruption, lostSame, sameReply, declared]
  rfl

end MadeCall

end Durable
