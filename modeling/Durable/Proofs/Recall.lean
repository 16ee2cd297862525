import Durable.Proofs.OrderlyLog

/-!
# Calls that a log recalls

A log recalls the outcome of a call when it refuses the declaration, or when it holds a
record from which the outcome is told.  Such a call returns this outcome at any clock
reading, appends nothing and runs no body.  Conversely, every outcome that a call returns is
recalled by the log that the call leaves, suspensions and failures of the store aside.
-/

namespace Durable

variable {V : Type}

namespace Operation

/-- The outcome of a wait, or the fault that it finds, as the record tells it. -/
def timerOutcome? (record : Operation) : Option (Except DurableError Unit) :=
  match record.status with
  | .succeeded => some (.ok ())
  | .pending => none
  | .started | .failed =>
    some (.error
      (.invalidOperationState record.name ("timer recorded as " ++ record.status.text)))

end Operation

namespace OperationLog

/-- The record that a declaration at a position finds, after declarations of some names. -/
def recordFor (log : OperationLog) (position : Nat) (names : List (String × Nat))
    (kind : OperationKind) (name : String) : Except DurableError (Option Operation) :=
  match (names.find? (·.1 == name)).map Prod.snd with
  | some first => .error (.duplicateOperationName name first)
  | none =>
    match log.lookup? position with
    | none => .ok none
    | some operation =>
      if operation.kind = kind ∧ operation.name = name then .ok (some operation)
      else .error (.replayMismatch position operation.kind operation.name kind name)

/-- The log recalls the outcome of a step. -/
inductive RecallsStep (log : OperationLog) (position : Nat) (names : List (String × Nat))
    (name : String) (semantics : StepSemantics) (codec : Codec V) :
    Except DurableError V → Prop where
  | refused {error : DurableError}
      (refused : log.recordFor position names .step name = .error error) :
      RecallsStep log position names name semantics codec (.error error)
  | recorded {record : Operation} {outcome : Except DurableError V}
      (found : log.recordFor position names .step name = .ok (some record))
      (settled : record.Settled fun _ => semantics)
      (told : record.outcome? codec = some outcome) :
      RecallsStep log position names name semantics codec outcome

/-- The log recalls the outcome of a wait. -/
inductive RecallsWait (log : OperationLog) (position : Nat) (names : List (String × Nat))
    (name : String) : Except DurableError Unit → Prop where
  | refused {error : DurableError}
      (refused : log.recordFor position names .timer name = .error error) :
      RecallsWait log position names name (.error error)
  | recorded {record : Operation} {outcome : Except DurableError Unit}
      (found : log.recordFor position names .timer name = .ok (some record))
      (told : record.timerOutcome? = some outcome) :
      RecallsWait log position names name outcome

variable {log other : OperationLog} {position : Nat} {names : List (String × Nat)}
  {kind : OperationKind} {name : String} {record : Operation}

theorem recordFor_congr (same : other.lookup? position = log.lookup? position) :
    other.recordFor position names kind name = log.recordFor position names kind name := by
  rw [recordFor, recordFor, same]

theorem recordFor_of_known {first : Nat}
    (known : (names.find? (·.1 == name)).map Prod.snd = some first) :
    log.recordFor position names kind name = .error (.duplicateOperationName name first) := by
  simp only [recordFor, known]

theorem recordFor_of_other (fresh : (names.find? (·.1 == name)).map Prod.snd = none)
    (found : log.lookup? position = some record)
    (other : ¬(record.kind = kind ∧ record.name = name)) :
    log.recordFor position names kind name =
      .error (.replayMismatch position record.kind record.name kind name) := by
  simp only [recordFor, fresh, found, if_neg other]

theorem recordFor_of_found (fresh : (names.find? (·.1 == name)).map Prod.snd = none)
    (found : log.lookup? position = some record) (sameKind : record.kind = kind)
    (sameName : record.name = name) :
    log.recordFor position names kind name = .ok (some record) := by
  simp only [recordFor, fresh, found, if_pos (And.intro sameKind sameName)]

theorem recordFor_eq_ok (found : log.recordFor position names kind name = .ok (some record)) :
    (names.find? (·.1 == name)).map Prod.snd = none ∧ log.lookup? position = some record ∧
      record.kind = kind ∧ record.name = name := by
  unfold recordFor at found
  split at found
  · cases found
  · next fresh =>
      split at found
      · cases found
      · next operation here =>
          split at found
          · next fits =>
              cases found
              exact ⟨fresh, here, fits.1, fits.2⟩
          · cases found

theorem RecallsStep.congr {semantics : StepSemantics} {codec : Codec V}
    {outcome : Except DurableError V}
    (recalls : log.RecallsStep position names name semantics codec outcome)
    (same : other.lookup? position = log.lookup? position) :
    other.RecallsStep position names name semantics codec outcome := by
  cases recalls with
  | refused refused => exact .refused ((recordFor_congr same).trans refused)
  | recorded found settled told => exact .recorded ((recordFor_congr same).trans found) settled told

theorem RecallsWait.congr {outcome : Except DurableError Unit}
    (recalls : log.RecallsWait position names name outcome)
    (same : other.lookup? position = log.lookup? position) :
    other.RecallsWait position names name outcome := by
  cases recalls with
  | refused refused => exact .refused ((recordFor_congr same).trans refused)
  | recorded found told => exact .recorded ((recordFor_congr same).trans found) told

end OperationLog

/-- An outcome that halts the invocation does so with a fatal error, which is neither a
suspension nor a failure of the store. -/
def Lasts (halt : Option Halt) : Prop :=
  ∀ reason, halt = some reason → ∃ error, reason = .fatal error

theorem Lasts.none : Lasts none := by
  intro reason given
  cases given

theorem Lasts.fatal (error : DurableError) : Lasts (some (.fatal error)) := by
  intro reason given
  cases given
  exact ⟨error, rfl⟩

namespace StepCourse

variable {before after : Invocation V} {call : StepCall V} {middle : List (Occurrence V)}
  {outcome : Except DurableError V}

/-- A step call that halts its invocation for good has been refused, or has found a result
that it cannot replay. -/
theorem fatal (course : StepCourse before call (.returned outcome) middle) {error : DurableError}
    (halts : Invocation.haltOf? outcome = some (.fatal error)) :
    Occurrence.records middle = [] ∧
      before.log.RecallsStep before.nextOrdinal before.names call.name call.config.semantics
        call.codec outcome := by
  cases course with
  | duplicate first known => exact ⟨rfl, .refused (OperationLog.recordFor_of_known known)⟩
  | mismatched operation fresh found other =>
      exact ⟨rfl, .refused (OperationLog.recordFor_of_other fresh found other)⟩
  | planned recorded fresh found same course =>
      generalize planned : StepPlan.ofRecord recorded call.config.semantics before.now = plan
        at course
      cases course with
      | replay operation =>
          obtain ⟨rfl, succeeded⟩ := StepPlan.ofRecord_eq_replay planned
          obtain ⟨kind, name⟩ := same operation rfl
          refine ⟨rfl, .recorded (OperationLog.recordFor_of_found fresh found kind name) ?_ ?_⟩
          · exact .inl (Operation.isTerminal_of_status succeeded)
          · simp only [Operation.outcome?, succeeded]
      | fail planError =>
          obtain ⟨operation, _, ⟨_, rfl⟩ | ⟨_, wake, rfl⟩⟩ := StepPlan.ofRecord_eq_fail planned
          · cases halts
          · cases halts
      | reported operation noted => cases halts
      | annotated operation unnoted => cases halts
      | unannotated operation unnoted storeError faulty => cases halts
      | attempted number unfinished notDecreasing course =>
          cases course with
          | unmarked storeError guarded faulty => cases halts
          | lost chatter logs reading update seen closes storeError faulty => cases halts
          | closed chatter logs reading update seen closes diagnostic =>
              unfold StepCall.closing? BodyOutcome.closing? at closes
              split at closes
              · cases closes
              · split at closes <;> cases closes <;> cases halts
              · split at closes <;> cases closes <;> cases halts

/-- The outcome of a step call is recalled by the log that the call leaves. -/
theorem recalled (course : StepCourse before call (.returned outcome) middle)
    (called : Invocation.Called before after .step call.name
      (middle ++ (Reply.returned outcome).returning call.name after)
      (Invocation.haltOf? outcome))
    (decodes : ∀ value payload, call.codec.encode value = .ok payload →
      call.codec.decode payload = .ok value)
    (lasts : Lasts (Invocation.haltOf? outcome)) :
    after.log.RecallsStep before.nextOrdinal before.names call.name call.config.semantics
      call.codec outcome := by
  have log : after.log = before.log.insertAll (Occurrence.records middle) := by
    rw [called.log, ((Reply.returned outcome).returning_quiet call.name after).records_append]
  cases halts : Invocation.haltOf? outcome with
  | some reason =>
      obtain ⟨error, rfl⟩ := lasts reason halts
      obtain ⟨silent, recalls⟩ := course.fatal halts
      rw [log, silent, OperationLog.insertAll_nil]
      exact recalls
  | none =>
      -- Memory gives every record back as it is, so that what is told of a record that it
      -- gives back is told of the record itself.
      have agreed : call.Agreed fun _ => call.config.semantics := rfl
      obtain ⟨fresh, record, kind, name, settled, leaves⟩ :=
        course.leaves (.memory []) halts agreed
      have found := leaves.found
      rw [← log] at found
      refine .recorded (OperationLog.recordFor_of_found fresh found kind name) settled ?_
      have restored : call.Decodes (.memory []) := by
        intro value payload back encoded restores
        cases restores
        exact decodes value payload encoded
      cases leaves with
      | recalled unwritten found told => exact told restored
      | written latest told =>
          refine told record ⟨record.result, record.readyAt, rfl, ?_⟩ restored
          cases record.result <;> rfl

end StepCourse

/-- When a wait plans an error: its timer is not due yet, or its record tells the fault. -/
theorem WaitPlan.ofRecord_fails {recorded : Option Operation} {now : Instant}
    {error : DurableError} (planned : ofRecord recorded now = .fail error) :
    ∃ timer, recorded = some timer ∧
      (timer.timerOutcome? = some (.error error) ∨ ∃ wake, error = .suspended wake) := by
  cases recorded with
  | none => simp [ofRecord] at planned
  | some timer =>
      refine ⟨timer, rfl, ?_⟩
      cases status : timer.status with
      | succeeded => simp [ofRecord, status] at planned
      | pending =>
          simp only [ofRecord, status] at planned
          split at planned
          · simp at planned
          · cases planned
            exact .inr ⟨_, rfl⟩
      | started =>
          simp only [ofRecord, status] at planned
          cases planned
          exact .inl (by simp only [Operation.timerOutcome?, status])
      | failed =>
          simp only [ofRecord, status] at planned
          cases planned
          exact .inl (by simp only [Operation.timerOutcome?, status])

theorem Operation.timerOutcome?_of_elapse? {record : Operation}
    {outcome : Except DurableError Unit} (told : record.elapse? = some outcome) :
    record.timerOutcome? = some outcome := by
  cases status : record.status <;> simp_all [elapse?, timerOutcome?]

namespace WaitCourse

variable {before after : Invocation V} {call : WaitCall} {middle : List (Occurrence V)}
  {outcome : Except DurableError Unit}

theorem fatal (course : WaitCourse before call outcome middle) {error : DurableError}
    (halts : Invocation.haltOf? outcome = some (.fatal error)) :
    Occurrence.records middle = [] ∧
      before.log.RecallsWait before.nextOrdinal before.names call.name outcome := by
  cases course with
  | duplicate first known => exact ⟨rfl, .refused (OperationLog.recordFor_of_known known)⟩
  | mismatched operation fresh found other =>
      exact ⟨rfl, .refused (OperationLog.recordFor_of_other fresh found other)⟩
  | planned recorded fresh found same course =>
      generalize planned : WaitPlan.ofRecord recorded before.now = plan at course
      cases course with
      | pass => cases halts
      | fail planError =>
          obtain ⟨timer, rfl, told | ⟨wake, rfl⟩⟩ := WaitPlan.ofRecord_fails planned
          · obtain ⟨kind, name⟩ := same timer rfl
            exact ⟨rfl,
              .recorded (OperationLog.recordFor_of_found fresh found kind name) told⟩
          · cases halts
      | elapsed timer diagnostic => cases halts
      | unelapsed timer storeError faulty => cases halts
      | passed due => cases halts
      | started notDue diagnostic => cases halts
      | lost written storeError faulty => cases halts

theorem recalled (course : WaitCourse before call outcome middle)
    (called : Invocation.Called before after .timer call.name
      (middle ++ [⟨after.now, .waitReturned call.name outcome after.isReplaying⟩])
      (Invocation.haltOf? outcome))
    (lasts : Lasts (Invocation.haltOf? outcome)) :
    after.log.RecallsWait before.nextOrdinal before.names call.name outcome := by
  have log : after.log = before.log.insertAll (Occurrence.records middle) := by
    rw [called.log]
    simp [Effect.record?]
  cases halts : Invocation.haltOf? outcome with
  | some reason =>
      obtain ⟨error, rfl⟩ := lasts reason halts
      obtain ⟨silent, recalls⟩ := course.fatal halts
      rw [log, silent, OperationLog.insertAll_nil]
      exact recalls
  | none =>
      obtain ⟨fresh, record, kind, name, _, leaves⟩ :=
        course.settles (fun _ => .atMostOnce) (.memory []) halts
      have found := leaves.found
      rw [← log] at found
      refine .recorded (OperationLog.recordFor_of_found fresh found kind name) ?_
      apply Operation.timerOutcome?_of_elapse?
      cases leaves with
      | recalled unwritten found told => exact told
      | written latest told =>
          refine told record ⟨record.result, record.readyAt, rfl, ?_⟩
          cases record.result <;> rfl

end WaitCourse

theorem Invocation.findRecord_eq (invocation : Invocation V) (kind : OperationKind)
    (name : String) :
    invocation.findRecord kind name =
      invocation.log.recordFor invocation.nextOrdinal invocation.names kind name :=
  rfl

namespace StepCourse

variable {invocation : Invocation V} {call : StepCall V} {middle : List (Occurrence V)}
  {reply : Reply V}

theorem of_refused (course : StepCourse invocation call reply middle) {error : DurableError}
    (refused : invocation.findRecord .step call.name = .error error) :
    reply = .returned (.error error) ∧ middle = [] := by
  cases course with
  | duplicate first known =>
      simp only [Invocation.findRecord, known] at refused
      cases refused
      exact ⟨rfl, rfl⟩
  | mismatched operation fresh found other =>
      simp only [Invocation.findRecord, fresh, found, if_neg other] at refused
      cases refused
      exact ⟨rfl, rfl⟩
  | planned recorded fresh found same course =>
      cases recorded with
      | none =>
          simp only [Invocation.findRecord, fresh, found] at refused
          cases refused
      | some operation =>
          simp only [Invocation.findRecord, fresh, found, if_pos (same operation rfl)] at refused
          cases refused

/-- A step whose outcome the log recalls returns it and does nothing. -/
theorem of_recalled (course : StepCourse invocation call reply middle)
    {outcome : Except DurableError V}
    (recalls : invocation.log.RecallsStep invocation.nextOrdinal invocation.names call.name
      call.config.semantics call.codec outcome) :
    reply = .returned outcome ∧ Occurrence.Quiet middle := by
  cases recalls with
  | refused refused =>
      rw [← Invocation.findRecord_eq] at refused
      obtain ⟨returned, nothing⟩ := course.of_refused refused
      rw [nothing]
      exact ⟨returned, rfl, rfl⟩
  | recorded found settled told =>
      obtain ⟨fresh, here, kind, name⟩ := OperationLog.recordFor_eq_ok found
      have agreed : call.Agreed fun _ => call.config.semantics := rfl
      obtain ⟨isQuiet, replies⟩ := course.of_settled here settled agreed
      obtain ⟨seen, returned, toldAgain⟩ := replies fresh kind name
      cases told.symm.trans toldAgain
      exact ⟨returned, isQuiet⟩

end StepCourse

namespace WaitCourse

variable {invocation : Invocation V} {call : WaitCall} {middle : List (Occurrence V)}
  {outcome : Except DurableError Unit}

theorem of_refused (course : WaitCourse invocation call outcome middle) {error : DurableError}
    (refused : invocation.findRecord .timer call.name = .error error) :
    outcome = .error error ∧ middle = [] := by
  cases course with
  | duplicate first known =>
      simp only [Invocation.findRecord, known] at refused
      cases refused
      exact ⟨rfl, rfl⟩
  | mismatched operation fresh found other =>
      simp only [Invocation.findRecord, fresh, found, if_neg other] at refused
      cases refused
      exact ⟨rfl, rfl⟩
  | planned recorded fresh found same course =>
      cases recorded with
      | none =>
          simp only [Invocation.findRecord, fresh, found] at refused
          cases refused
      | some operation =>
          simp only [Invocation.findRecord, fresh, found, if_pos (same operation rfl)] at refused
          cases refused

/-- A wait whose outcome the log recalls returns it and does nothing. -/
theorem of_recalled (course : WaitCourse invocation call outcome middle)
    {recalled : Except DurableError Unit}
    (recalls : invocation.log.RecallsWait invocation.nextOrdinal invocation.names call.name
      recalled) :
    outcome = recalled ∧ Occurrence.Quiet middle := by
  cases recalls with
  | refused refused =>
      rw [← Invocation.findRecord_eq] at refused
      obtain ⟨returned, nothing⟩ := course.of_refused refused
      rw [nothing]
      exact ⟨returned, rfl, rfl⟩
  | @recorded record _ found told =>
      obtain ⟨fresh, here, kind, name⟩ := OperationLog.recordFor_eq_ok found
      cases course with
      | duplicate first known => cases known.symm.trans fresh
      | mismatched operation _ foundOther other =>
          cases here.symm.trans foundOther
          exact absurd ⟨kind, name⟩ other
      | planned recorded _ foundRecorded same course =>
          cases here.symm.trans foundRecorded
          cases status : record.status with
          | succeeded =>
              simp only [Operation.timerOutcome?, status, Option.some.injEq] at told
              simp only [WaitPlan.ofRecord, status] at course
              cases course
              exact ⟨told, rfl, rfl⟩
          | pending => simp only [Operation.timerOutcome?, status, reduceCtorEq] at told
          | started =>
              simp only [Operation.timerOutcome?, status, Option.some.injEq] at told
              simp only [WaitPlan.ofRecord, status] at course
              cases course
              exact ⟨told, rfl, rfl⟩
          | failed =>
              simp only [Operation.timerOutcome?, status, Option.some.injEq] at told
              simp only [WaitPlan.ofRecord, status] at course
              cases course
              exact ⟨told, rfl, rfl⟩

end WaitCourse

end Durable
