import Durable.Proofs.AttemptCourse

/-!
# The course of a step call

Everything that a step call can do, case by case: what it emits, and how it replies.
Properties of steps are proved from the relations below, so that no later
proof opens the functions again.
-/

namespace Durable

variable {V : Type}

namespace Operation

/-- The record of an interrupted attempt once it has been reported. -/
def annotated (operation : Operation) : Operation :=
  operation.withState (.interrupted operation.attempt
    (DurableError.stepInterrupted operation.name operation.attempt).toObject)

end Operation

/-- Everything that following a plan can do. -/
inductive PlanCourse (invocation : Invocation V) (call : StepCall V) :
    StepPlan → Reply V → List (Occurrence V) → Prop where
  | replay (operation : Operation) :
      PlanCourse invocation call (.replay operation)
        (.returned (operation.replay call.codec))
        [⟨invocation.now,
          .diagnosed (.resultRecalled invocation.executionId operation.id)⟩]
  | fail (error : DurableError) :
      PlanCourse invocation call (.fail error) (.returned (.error error)) []
  | reported (operation : Operation) (noted : operation.error ≠ none) :
      PlanCourse invocation call (.interrupt operation)
        (.returned (.error (.stepInterrupted operation.name operation.attempt)))
        [⟨invocation.now, .diagnosed
          (.stepInterrupted invocation.executionId operation.id operation.attempt)⟩]
  | annotated (operation : Operation) (unnoted : operation.error = none) :
      PlanCourse invocation call (.interrupt operation)
        (.returned (.error (.stepInterrupted operation.name operation.attempt)))
        [⟨invocation.now, .diagnosed
          (.stepInterrupted invocation.executionId operation.id operation.attempt)⟩,
          ⟨invocation.now, .appended operation.annotated⟩]
  | unannotated (operation : Operation) (unnoted : operation.error = none)
      (error : StoreError) (faulty : invocation.store.faults ≠ .none) :
      PlanCourse invocation call (.interrupt operation)
        (.returned (.error (.checkpoint error)))
        [⟨invocation.now, .diagnosed
          (.stepInterrupted invocation.executionId operation.id operation.attempt)⟩,
          ⟨invocation.now, .appendFailed operation.annotated error⟩]
  | attempted (number : Nat) {reply : Reply V} {emitted : List (Occurrence V)}
      (unfinished : (call.base invocation).isTerminal = false)
      (notDecreasing : (call.base invocation).attempt ≤ number)
      (course : AttemptCourse invocation call number reply emitted) :
      PlanCourse invocation call (.attempt number) reply emitted

/-- Everything that a step call can do when no halt stops it. -/
inductive StepCourse (invocation : Invocation V) (call : StepCall V) :
    Reply V → List (Occurrence V) → Prop where
  | duplicate (first : Nat) (known : invocation.declaredAt? call.name = some first) :
      StepCourse invocation call
        (.returned (.error (.duplicateOperationName call.name first))) []
  | mismatched (operation : Operation) (fresh : invocation.declaredAt? call.name = none)
      (found : invocation.log.lookup? invocation.nextOrdinal = some operation)
      (other : ¬(operation.kind = .step ∧ operation.name = call.name)) :
      StepCourse invocation call
        (.returned (.error (.replayMismatch invocation.nextOrdinal operation.kind
          operation.name .step call.name))) []
  | planned (recorded : Option Operation) (fresh : invocation.declaredAt? call.name = none)
      (found : invocation.log.lookup? invocation.nextOrdinal = recorded)
      (same : ∀ operation, recorded = some operation →
        operation.kind = .step ∧ operation.name = call.name)
      {reply : Reply V} {emitted : List (Occurrence V)}
      (course : PlanCourse invocation call
        (.ofRecord recorded call.config.semantics invocation.now) reply emitted) :
      StepCourse invocation call reply emitted

namespace Invocation

private theorem interrupt_course {invocation after : Invocation V} {call : StepCall V}
    {operation : Operation} {error : DurableError}
    (found : invocation.log.lookup? invocation.nextOrdinal = some operation)
    (started : operation.status = .started)
    (reported : (invocation.declare .step call.name).interrupt operation = (error, after)) :
    SamePlace (invocation.declare .step call.name) after ∧
      ∃ emitted, PlanCourse invocation call (.interrupt operation) (.returned (.error error))
          emitted ∧
        Extends (invocation.declare .step call.name) after emitted := by
  let declared := invocation.declare .step call.name
  let diagnosed := declared.diagnose
    (.stepInterrupted invocation.executionId operation.id operation.attempt)
  have diagnoses : Extends declared diagnosed [⟨invocation.now, .diagnosed
      (.stepInterrupted invocation.executionId operation.id operation.attempt)⟩] :=
    .emit declared _ rfl
  have diagnosedPlace : SamePlace declared diagnosed := ⟨rfl, rfl, rfl⟩
  unfold interrupt at reported
  cases noted : operation.error with
  | some object =>
      rw [noted] at reported
      cases reported
      exact ⟨diagnosedPlace, _, .reported operation (by simp [noted]), diagnoses⟩
  | none =>
      have unfinished : operation.isTerminal = false :=
        Operation.isTerminal_of_status started
      have admitted : diagnosed.log.admitUpdate operation.ordinal (.interrupted operation.attempt
          (DurableError.stepInterrupted operation.name operation.attempt).toObject) =
          .ok operation.annotated := by
        have foundHere : diagnosed.log.lookup? operation.ordinal = some operation := by
          rw [OperationLog.lookup?_ordinal found]
          exact found
        rw [OperationLog.admitUpdate, foundHere]
        exact OperationLog.nextState_ok unfinished (Nat.le_refl _)
      rw [noted] at reported
      cases wrote : diagnosed.write (.ok operation.annotated) with
      | mk result written =>
          have writes := write_writes wrote
          have updated : diagnosed.update operation.ordinal (.interrupted operation.attempt
              (DurableError.stepInterrupted operation.name operation.attempt).toObject) =
              (result, written) := by
            rw [Invocation.update, admitted, wrote]
          simp only at reported
          split at reported
          · next storeError lost failed =>
              cases reported
              cases updated.symm.trans failed
              refine ⟨diagnosedPlace.trans writes.samePlace, _,
                .unannotated operation noted storeError ?_, diagnoses.trans writes.lost_extends⟩
              intro reliable
              exact writes.reliable reliable
          · next kept succeeded =>
              cases reported
              cases updated.symm.trans succeeded
              exact ⟨diagnosedPlace.trans writes.samePlace, _, .annotated operation noted,
                diagnoses.trans writes.kept_extends⟩

private theorem follow_course {invocation after : Invocation V} {call : StepCall V}
    {reply : Reply V} {recorded : Option Operation}
    (found : invocation.log.lookup? invocation.nextOrdinal = recorded)
    (followed : (invocation.declare .step call.name).follow invocation.nextOrdinal call.name
      call.config call.codec call.body
      (.ofRecord recorded call.config.semantics invocation.now) = (reply, after)) :
    SamePlace (invocation.declare .step call.name) after ∧
      ∃ emitted, PlanCourse invocation call
          (.ofRecord recorded call.config.semantics invocation.now) reply emitted ∧
        Extends (invocation.declare .step call.name) after emitted := by
  have ordinal : (Operation.step invocation.nextOrdinal call.name).ordinal =
      invocation.nextOrdinal := rfl
  have attempting : ∀ {number : Nat}, (call.base invocation).isTerminal = false →
      (call.base invocation).attempt ≤ number →
      (invocation.declare .step call.name).follow invocation.nextOrdinal call.name
        call.config call.codec call.body (.attempt number) = (reply, after) →
      SamePlace (invocation.declare .step call.name) after ∧
        ∃ emitted, PlanCourse invocation call (.attempt number) reply emitted ∧
          Extends (invocation.declare .step call.name) after emitted := by
    intro number unfinished notDecreasing attempted
    obtain ⟨place, emitted, course, extension⟩ :=
      attempt_course unfinished notDecreasing attempted
    exact ⟨place, emitted, .attempted number unfinished notDecreasing course, extension⟩
  cases recorded with
  | none =>
      have base : call.base invocation = .step invocation.nextOrdinal call.name :=
        current_of_none found
      exact attempting (by rw [base]; rfl) (by rw [base]; exact Nat.zero_le 1) followed
  | some operation =>
      have base : call.base invocation = operation := current_of_some found
      cases status : operation.status with
      | succeeded =>
          simp only [StepPlan.ofRecord, status] at followed ⊢
          cases followed
          exact ⟨⟨rfl, rfl, rfl⟩, _, .replay operation, .emit _ _ rfl⟩
      | failed =>
          simp only [StepPlan.ofRecord, status] at followed ⊢
          cases followed
          exact ⟨.refl _, _, .fail _, .refl _⟩
      | pending =>
          simp only [StepPlan.ofRecord, status] at followed ⊢
          split at followed
          · next ready =>
              rw [if_pos ready]
              refine attempting ?_ (by rw [base]; exact Nat.le_succ _) followed
              simp [base, Operation.isTerminal, status, OperationStatus.isTerminal]
          · next early =>
              rw [if_neg early]
              cases followed
              exact ⟨.refl _, _, .fail _, .refl _⟩
      | started =>
          have unfinished : operation.isTerminal = false :=
            Operation.isTerminal_of_status status
          cases semantics : call.config.semantics with
          | atMostOnce =>
              simp only [StepPlan.ofRecord, status, semantics] at followed ⊢
              simp only [follow] at followed
              cases followed
              exact interrupt_course found status rfl
          | atLeastOnce =>
              simp only [StepPlan.ofRecord, status, semantics] at followed ⊢
              exact attempting (by rw [base]; exact unfinished)
                (by rw [base]; exact Nat.le_max_left _ _) followed

end Invocation

namespace Reply

/-- The halt that a reply calls for. -/
def halt? {α : Type} (reply : Reply α) : Option Halt :=
  match reply with
  | .crashed => none
  | .returned outcome => Invocation.haltOf? outcome

/-- What is emitted when a step call returns into a state. -/
def returning (reply : Reply V) (name : String) (after : Invocation V) : List (Occurrence V) :=
  match reply with
  | .crashed => []
  | .returned outcome => [⟨after.now, .stepReturned name outcome after.isReplaying⟩]

end Reply

theorem Reply.returning_quiet (reply : Reply V) (name : String) (after : Invocation V) :
    Occurrence.Quiet (reply.returning name after) := by
  cases reply <;> exact ⟨rfl, rfl⟩

/-- When an attempt is planned: there is no record yet, or a retry is due, or an
attempt that left no outcome may run again. -/
theorem StepPlan.ofRecord_eq_attempt {recorded : Option Operation}
    {semantics : StepSemantics} {now : Instant} {number : Nat}
    (planned : StepPlan.ofRecord recorded semantics now = .attempt number) :
    (recorded = none ∧ number = 1) ∨
      ∃ operation, recorded = some operation ∧
        ((operation.status = .pending ∧ operation.isReady now = true ∧
            number = operation.attempt + 1) ∨
          (operation.status = .started ∧ semantics = .atLeastOnce ∧
            number = max operation.attempt 1)) := by
  cases recorded with
  | none =>
      cases planned
      exact .inl ⟨rfl, rfl⟩
  | some operation =>
      refine .inr ⟨operation, rfl, ?_⟩
      cases status : operation.status with
      | succeeded => simp [StepPlan.ofRecord, status] at planned
      | failed => simp [StepPlan.ofRecord, status] at planned
      | pending =>
          simp only [StepPlan.ofRecord, status] at planned
          split at planned
          · next ready =>
              cases planned
              exact .inl ⟨rfl, ready, rfl⟩
          · simp at planned
      | started =>
          cases semantics with
          | atMostOnce => simp [StepPlan.ofRecord, status] at planned
          | atLeastOnce =>
              simp only [StepPlan.ofRecord, status] at planned
              cases planned
              exact .inr ⟨rfl, rfl, rfl⟩

theorem StepPlan.ofRecord_eq_replay {recorded : Option Operation}
    {semantics : StepSemantics} {now : Instant} {operation : Operation}
    (planned : StepPlan.ofRecord recorded semantics now = .replay operation) :
    recorded = some operation ∧ operation.status = .succeeded := by
  cases recorded with
  | none => simp [StepPlan.ofRecord] at planned
  | some found =>
      cases status : found.status with
      | succeeded =>
          simp only [StepPlan.ofRecord, status] at planned
          cases planned
          exact ⟨rfl, status⟩
      | failed => simp [StepPlan.ofRecord, status] at planned
      | pending =>
          simp only [StepPlan.ofRecord, status] at planned
          split at planned <;> simp at planned
      | started => cases semantics <;> simp [StepPlan.ofRecord, status] at planned

/-- When an error is planned: the step failed, or a retry is not due yet. -/
theorem StepPlan.ofRecord_eq_fail {recorded : Option Operation}
    {semantics : StepSemantics} {now : Instant} {error : DurableError}
    (planned : StepPlan.ofRecord recorded semantics now = .fail error) :
    ∃ operation, recorded = some operation ∧
      ((operation.status = .failed ∧
          error = .stepFailed operation.name (operation.error.getD unknownFailure)) ∨
        (operation.isReady now = false ∧ ∃ wake, error = .suspended wake)) := by
  cases recorded with
  | none => simp [StepPlan.ofRecord] at planned
  | some found =>
      cases status : found.status with
      | succeeded => simp [StepPlan.ofRecord, status] at planned
      | failed =>
          simp only [StepPlan.ofRecord, status] at planned
          cases planned
          exact ⟨found, rfl, .inl ⟨status, rfl⟩⟩
      | pending =>
          simp only [StepPlan.ofRecord, status] at planned
          split at planned
          · simp at planned
          · next early =>
              cases planned
              exact ⟨found, rfl, .inr ⟨by simpa using early, _, rfl⟩⟩
      | started => cases semantics <;> simp [StepPlan.ofRecord, status] at planned

/-- When an interruption is planned: a guarded attempt left no outcome. -/
theorem StepPlan.ofRecord_eq_interrupt {recorded : Option Operation}
    {semantics : StepSemantics} {now : Instant} {operation : Operation}
    (planned : StepPlan.ofRecord recorded semantics now = .interrupt operation) :
    recorded = some operation ∧ operation.status = .started ∧ semantics = .atMostOnce := by
  cases recorded with
  | none => simp [StepPlan.ofRecord] at planned
  | some found =>
      cases status : found.status with
      | succeeded => simp [StepPlan.ofRecord, status] at planned
      | failed => simp [StepPlan.ofRecord, status] at planned
      | pending =>
          simp only [StepPlan.ofRecord, status] at planned
          split at planned <;> simp at planned
      | started =>
          cases semantics with
          | atLeastOnce => simp [StepPlan.ofRecord, status] at planned
          | atMostOnce =>
              simp only [StepPlan.ofRecord, status] at planned
              cases planned
              exact ⟨rfl, status, rfl⟩

namespace Invocation

theorem step_halted {invocation : Invocation V} {halt : Halt} (halted : invocation.halt = some halt)
    (call : StepCall V) :
    invocation.step call.name call.config call.codec call.body =
      (.returned (.error halt.toError),
        (invocation.settle (.error halt.toError : Except DurableError V)).emit
          (.stepReturned call.name (.error halt.toError)
            (invocation.settle (.error halt.toError : Except DurableError V)).isReplaying)) := by
  simp only [step, callStep, halted]

private theorem callStep_course {invocation finished : Invocation V} {call : StepCall V}
    {reply : Reply V} (free : invocation.halt = none)
    (called : invocation.callStep call.name call.config call.codec call.body =
      (reply, finished)) :
    SamePlace (invocation.declare .step call.name) finished ∧
      ∃ middle, StepCourse invocation call reply middle ∧
        Extends (invocation.declare .step call.name) finished middle := by
  simp only [callStep, free] at called
  rcases findRecord_cases invocation .step call.name with
    ⟨first, known, refused⟩ | ⟨fresh, ⟨operation, found, other, refused⟩ |
      ⟨recorded, found, same, admitted⟩⟩
  · rw [refused] at called
    cases called
    exact ⟨.refl _, _, .duplicate first known, .refl _⟩
  · rw [refused] at called
    cases called
    exact ⟨.refl _, _, .mismatched operation fresh found other, .refl _⟩
  · rw [admitted] at called
    obtain ⟨place, emitted, course, extension⟩ := follow_course found called
    exact ⟨place, emitted, .planned recorded fresh found same course, extension⟩

/-- A step call that no halt stops takes one of the courses, settles its reply and
leaves the halt that the reply calls for. -/
theorem step_course {invocation after : Invocation V} {reply : Reply V}
    (free : invocation.halt = none) (call : StepCall V)
    (stepped : invocation.step call.name call.config call.codec call.body = (reply, after)) :
    ∃ middle, StepCourse invocation call reply middle ∧
      Called invocation after .step call.name (middle ++ reply.returning call.name after)
        reply.halt? := by
  cases called : invocation.callStep call.name call.config call.codec call.body with
  | mk given finished =>
      obtain ⟨place, middle, course, extension⟩ := callStep_course free called
      simp only [step, called] at stepped
      cases given with
      | crashed =>
          cases stepped
          refine ⟨middle, course, ?_, place.nextOrdinal, place.names, place.halt.trans free⟩
          simpa [Reply.returning] using (declare_extends invocation .step call.name).trans extension
      | returned outcome =>
          cases stepped
          exact ⟨middle, course, called_of_settled free rfl place extension⟩

end Invocation

end Durable
