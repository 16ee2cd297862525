import Durable.Proofs.StepCourse

/-!
# The course of a wait call

Everything that a wait call can do, case by case.  A timer is recorded with the
instant at which it ends; one that ends at once is recorded as elapsed.
-/

namespace Durable

variable {V : Type}

/-- A wait as it is declared. -/
structure WaitCall where
  name : String
  duration : Duration

namespace WaitCall

/-- The timer of a call that finds no record. -/
def timer (call : WaitCall) (invocation : Invocation V) : Operation :=
  .timer invocation.nextOrdinal call.name (invocation.now.add call.duration)

end WaitCall

namespace Operation

/-- The record of a timer once it has elapsed. -/
def elapsed (timer : Operation) : Operation :=
  timer.withState (.elapsed timer)

end Operation

/-- Everything that following the plan of a wait can do. -/
inductive TimerCourse (invocation : Invocation V) (call : WaitCall) :
    WaitPlan → Except DurableError Unit → List (Occurrence V) → Prop where
  | pass : TimerCourse invocation call .pass (.ok ()) []
  | fail (error : DurableError) : TimerCourse invocation call (.fail error) (.error error) []
  | elapsed (timer : Operation) (diagnostic : Diagnostic) :
      TimerCourse invocation call (.elapse timer) (.ok ())
        [⟨invocation.now, .appended timer.elapsed⟩, ⟨invocation.now, .diagnosed diagnostic⟩]
  | unelapsed (timer : Operation) (error : StoreError)
      (faulty : invocation.store.faults ≠ .none) :
      TimerCourse invocation call (.elapse timer) (.error (.checkpoint error))
        [⟨invocation.now, .appendFailed timer.elapsed error⟩]
  | passed (due : invocation.now.add call.duration ≤ invocation.now) :
      TimerCourse invocation call .start (.ok ())
        [⟨invocation.now, .appended (call.timer invocation).elapsed⟩]
  | started (notDue : ¬invocation.now.add call.duration ≤ invocation.now)
      (diagnostic : Diagnostic) :
      TimerCourse invocation call .start
        (.error (.suspended (invocation.now.add call.duration)))
        [⟨invocation.now, .appended (call.timer invocation)⟩,
          ⟨invocation.now, .diagnosed diagnostic⟩]
  | lost (written : Operation) (error : StoreError)
      (faulty : invocation.store.faults ≠ .none) :
      TimerCourse invocation call .start (.error (.checkpoint error))
        [⟨invocation.now, .appendFailed written error⟩]

/-- Everything that a wait call can do when no halt stops it. -/
inductive WaitCourse (invocation : Invocation V) (call : WaitCall) :
    Except DurableError Unit → List (Occurrence V) → Prop where
  | duplicate (first : Nat) (known : invocation.declaredAt? call.name = some first) :
      WaitCourse invocation call (.error (.duplicateOperationName call.name first)) []
  | mismatched (operation : Operation) (fresh : invocation.declaredAt? call.name = none)
      (found : invocation.log.lookup? invocation.nextOrdinal = some operation)
      (other : ¬(operation.kind = .timer ∧ operation.name = call.name)) :
      WaitCourse invocation call
        (.error (.replayMismatch invocation.nextOrdinal operation.kind operation.name .timer
          call.name)) []
  | planned (recorded : Option Operation) (fresh : invocation.declaredAt? call.name = none)
      (found : invocation.log.lookup? invocation.nextOrdinal = recorded)
      (same : ∀ operation, recorded = some operation →
        operation.kind = .timer ∧ operation.name = call.name)
      {outcome : Except DurableError Unit} {emitted : List (Occurrence V)}
      (course : TimerCourse invocation call (.ofRecord recorded invocation.now) outcome
        emitted) :
      WaitCourse invocation call outcome emitted

theorem TimerCourse.bodies {invocation : Invocation V} {call : WaitCall} {plan : WaitPlan}
    {outcome : Except DurableError Unit} {emitted : List (Occurrence V)}
    (course : TimerCourse invocation call plan outcome emitted) :
    Occurrence.bodies emitted = [] := by
  cases course <;> rfl

theorem WaitCourse.bodies {invocation : Invocation V} {call : WaitCall}
    {outcome : Except DurableError Unit} {middle : List (Occurrence V)}
    (course : WaitCourse invocation call outcome middle) : Occurrence.bodies middle = [] := by
  cases course with
  | duplicate first known => rfl
  | mismatched operation fresh found other => rfl
  | planned recorded fresh found same course => exact course.bodies

namespace WaitPlan

theorem ofRecord_eq_start {recorded : Option Operation} {now : Instant}
    (planned : ofRecord recorded now = .start) : recorded = none := by
  cases recorded with
  | none => rfl
  | some timer =>
      cases status : timer.status with
      | succeeded => simp [ofRecord, status] at planned
      | pending =>
          simp only [ofRecord, status] at planned
          split at planned <;> simp at planned
      | started => simp [ofRecord, status] at planned
      | failed => simp [ofRecord, status] at planned

theorem ofRecord_eq_pass {recorded : Option Operation} {now : Instant}
    (planned : ofRecord recorded now = .pass) :
    ∃ timer, recorded = some timer ∧ timer.status = .succeeded := by
  cases recorded with
  | none => simp [ofRecord] at planned
  | some timer =>
      cases status : timer.status with
      | succeeded => exact ⟨timer, rfl, status⟩
      | pending =>
          simp only [ofRecord, status] at planned
          split at planned <;> simp at planned
      | started => simp [ofRecord, status] at planned
      | failed => simp [ofRecord, status] at planned

theorem ofRecord_eq_fail {recorded : Option Operation} {now : Instant} {error : DurableError}
    (planned : ofRecord recorded now = .fail error) :
    Invocation.haltOf? (.error error : Except DurableError Unit) ≠ none := by
  cases recorded with
  | none => simp [ofRecord] at planned
  | some timer =>
      cases status : timer.status with
      | succeeded => simp [ofRecord, status] at planned
      | pending =>
          simp only [ofRecord, status] at planned
          split at planned
          · simp at planned
          · cases planned
            exact Option.some_ne_none _
      | started =>
          simp only [ofRecord, status] at planned
          cases planned
          rw [Invocation.haltOf?_of_isFatal rfl]
          simp
      | failed =>
          simp only [ofRecord, status] at planned
          cases planned
          rw [Invocation.haltOf?_of_isFatal rfl]
          simp

theorem ofRecord_eq_elapse {recorded : Option Operation} {now : Instant} {timer : Operation}
    (planned : ofRecord recorded now = .elapse timer) :
    recorded = some timer ∧ timer.status = .pending ∧ timer.isReady now = true := by
  cases recorded with
  | none => simp [ofRecord] at planned
  | some found =>
      cases status : found.status with
      | succeeded => simp [ofRecord, status] at planned
      | pending =>
          simp only [ofRecord, status] at planned
          split at planned
          · next ready =>
              cases planned
              exact ⟨rfl, status, ready⟩
          · simp at planned
      | started => simp [ofRecord, status] at planned
      | failed => simp [ofRecord, status] at planned

end WaitPlan

namespace Invocation

private theorem record_writes (invocation : Invocation V) {after : Invocation V}
    (operation : Operation) {result : Except StoreError Operation}
    (absent : invocation.log.lookup? operation.ordinal = none)
    (recorded : invocation.record operation = (result, after)) :
    Writes invocation operation result after := by
  have admitted : invocation.log.admitRecord operation = .ok operation := by
    simp [OperationLog.admitRecord, absent]
  rw [Invocation.record, admitted] at recorded
  exact write_writes recorded

private theorem startTimer_course {invocation after : Invocation V} {call : WaitCall}
    {outcome : Except DurableError Unit}
    (absent : invocation.log.lookup? invocation.nextOrdinal = none)
    (started : (invocation.declare .timer call.name).startTimer invocation.nextOrdinal
      call.name call.duration = (outcome, after)) :
    SamePlace (invocation.declare .timer call.name) after ∧
      ∃ emitted, TimerCourse invocation call .start outcome emitted ∧
        Extends (invocation.declare .timer call.name) after emitted := by
  let declared := invocation.declare .timer call.name
  simp only [startTimer] at started
  split at started
  · next due =>
      have state : OperationLog.nextState (call.timer invocation)
          (.elapsed (call.timer invocation)) = .ok (call.timer invocation).elapsed :=
        OperationLog.nextState_ok rfl (Nat.le_refl _)
      split at started
      · next error refused => cases state.symm.trans refused
      · next elapsed admitted =>
          cases state.symm.trans admitted
          cases recorded : declared.record (call.timer invocation).elapsed with
          | mk result written =>
              have writes := record_writes declared (call.timer invocation).elapsed absent recorded
              have ended : (ofWrite result, written) = (outcome, after) := by
                rw [← started]
                exact congrArg (fun ended => (ofWrite ended.1, ended.2)) recorded.symm
              cases ended
              cases result with
              | error error =>
                  refine ⟨writes.samePlace, _,
                    .lost (call.timer invocation).elapsed error ?_, writes.lost_extends⟩
                  intro reliable
                  exact writes.reliable reliable
              | ok operation => exact ⟨writes.samePlace, _, .passed due, writes.kept_extends⟩
  · next notDue =>
      split at started
      · next error written recorded =>
          cases started
          have writes := record_writes declared (call.timer invocation) absent recorded
          refine ⟨writes.samePlace, _, .lost (call.timer invocation) error ?_,
            writes.lost_extends⟩
          intro reliable
          exact writes.reliable reliable
      · next operation written recorded =>
          cases started
          have writes := record_writes declared (call.timer invocation) absent recorded
          let diagnostic := Diagnostic.timerStarted written.executionId
            (call.timer invocation).id (invocation.now.add call.duration)
          have diagnosed := Extends.emit written (.diagnosed diagnostic) rfl
          rw [writes.now] at diagnosed
          have later : ¬invocation.now.add call.duration ≤ invocation.now := notDue
          exact ⟨writes.samePlace.trans ⟨rfl, rfl, rfl⟩, _, .started later diagnostic,
            writes.kept_extends.trans diagnosed⟩

private theorem elapseTimer_course {invocation after : Invocation V} {call : WaitCall}
    {timer : Operation} {outcome : Except DurableError Unit}
    (found : invocation.log.lookup? invocation.nextOrdinal = some timer)
    (pending : timer.status = .pending)
    (elapsing : (invocation.declare .timer call.name).elapseTimer invocation.nextOrdinal timer =
      (outcome, after)) :
    SamePlace (invocation.declare .timer call.name) after ∧
      ∃ emitted, TimerCourse invocation call (.elapse timer) outcome emitted ∧
        Extends (invocation.declare .timer call.name) after emitted := by
  let declared := invocation.declare .timer call.name
  have unfinished : timer.isTerminal = false :=
    Operation.isTerminal_of_status pending
  have admitted : declared.log.admitUpdate invocation.nextOrdinal (.elapsed timer) =
      .ok timer.elapsed := by
    have foundHere : declared.log.lookup? invocation.nextOrdinal = some timer := found
    rw [OperationLog.admitUpdate, foundHere]
    exact OperationLog.nextState_ok unfinished (Nat.le_refl _)
  cases wrote : declared.write (.ok timer.elapsed) with
  | mk result written =>
      have writes := write_writes wrote
      have updated : declared.update invocation.nextOrdinal (.elapsed timer) =
          (result, written) := by
        rw [Invocation.update, admitted, wrote]
      simp only [elapseTimer] at elapsing
      split at elapsing
      · next error lost failed =>
          cases elapsing
          cases updated.symm.trans failed
          refine ⟨writes.samePlace, _, .unelapsed timer error ?_, writes.lost_extends⟩
          intro reliable
          exact writes.reliable reliable
      · next operation kept succeeded =>
          cases elapsing
          cases updated.symm.trans succeeded
          have diagnosed := Extends.emit written (.diagnosed
            (.timerElapsed written.executionId timer.id)) rfl
          rw [writes.now] at diagnosed
          exact ⟨writes.samePlace.trans ⟨rfl, rfl, rfl⟩, _, .elapsed timer _,
            writes.kept_extends.trans diagnosed⟩

private theorem followWait_course {invocation after : Invocation V} {call : WaitCall}
    {outcome : Except DurableError Unit} {recorded : Option Operation}
    (found : invocation.log.lookup? invocation.nextOrdinal = recorded)
    (followed : (invocation.declare .timer call.name).followWait invocation.nextOrdinal
      call.name call.duration (.ofRecord recorded invocation.now) = (outcome, after)) :
    SamePlace (invocation.declare .timer call.name) after ∧
      ∃ emitted, TimerCourse invocation call (.ofRecord recorded invocation.now) outcome
          emitted ∧
        Extends (invocation.declare .timer call.name) after emitted := by
  cases recorded with
  | none => exact startTimer_course found followed
  | some timer =>
      cases status : timer.status with
      | succeeded =>
          simp only [WaitPlan.ofRecord, status] at followed ⊢
          cases followed
          exact ⟨.refl _, _, .pass, .refl _⟩
      | pending =>
          simp only [WaitPlan.ofRecord, status] at followed ⊢
          split at followed
          · next ready =>
              rw [if_pos ready]
              exact elapseTimer_course found status followed
          · next early =>
              rw [if_neg early]
              cases followed
              exact ⟨.refl _, _, .fail _, .refl _⟩
      | started =>
          simp only [WaitPlan.ofRecord, status] at followed ⊢
          cases followed
          exact ⟨.refl _, _, .fail _, .refl _⟩
      | failed =>
          simp only [WaitPlan.ofRecord, status] at followed ⊢
          cases followed
          exact ⟨.refl _, _, .fail _, .refl _⟩

private theorem callWait_course {invocation finished : Invocation V} {call : WaitCall}
    {outcome : Except DurableError Unit} (free : invocation.halt = none)
    (called : invocation.callWait call.name call.duration = (outcome, finished)) :
    SamePlace (invocation.declare .timer call.name) finished ∧
      ∃ middle, WaitCourse invocation call outcome middle ∧
        Extends (invocation.declare .timer call.name) finished middle := by
  simp only [callWait, free] at called
  rcases findRecord_cases invocation .timer call.name with
    ⟨first, known, refused⟩ | ⟨fresh, ⟨operation, found, other, refused⟩ |
      ⟨recorded, found, same, admitted⟩⟩
  · rw [refused] at called
    cases called
    exact ⟨.refl _, _, .duplicate first known, .refl _⟩
  · rw [refused] at called
    cases called
    exact ⟨.refl _, _, .mismatched operation fresh found other, .refl _⟩
  · rw [admitted] at called
    obtain ⟨place, emitted, course, extension⟩ := followWait_course found called
    exact ⟨place, emitted, .planned recorded fresh found same course, extension⟩

theorem wait_halted {invocation : Invocation V} {halt : Halt}
    (halted : invocation.halt = some halt) (call : WaitCall) :
    invocation.wait call.name call.duration =
      (.error halt.toError,
        (invocation.settle (.error halt.toError : Except DurableError Unit)).emit
          (.waitReturned call.name (.error halt.toError)
            (invocation.settle
              (.error halt.toError : Except DurableError Unit)).isReplaying)) := by
  simp only [wait, callWait, halted]

/-- A wait call that no halt stops takes one of the courses, settles its outcome and
leaves the halt that the outcome calls for. -/
theorem wait_course {invocation after : Invocation V} {outcome : Except DurableError Unit}
    (free : invocation.halt = none) (call : WaitCall)
    (waited : invocation.wait call.name call.duration = (outcome, after)) :
    ∃ middle, WaitCourse invocation call outcome middle ∧
      Called invocation after .timer call.name
        (middle ++ [⟨after.now, .waitReturned call.name outcome after.isReplaying⟩])
        (haltOf? outcome) := by
  cases called : invocation.callWait call.name call.duration with
  | mk given finished =>
      obtain ⟨place, middle, course, extension⟩ := callWait_course free called
      simp only [wait, called] at waited
      cases waited
      exact ⟨middle, course, called_of_settled free rfl place extension⟩

end Invocation

end Durable
