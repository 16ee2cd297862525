import Durable.Proofs.Session

/-!
# The changes that a call makes

A call writes to its store, reports what it does, sets the replay flag, takes its place in
the workflow and runs a body.  A property of invocations that each of these changes keeps is
kept by every call, whatever the call finds and however it ends.
-/

namespace Durable

variable {V : Type}

namespace Effect

/-- Something that a call says of itself. -/
def isReport : Effect V → Bool
  | .declared .. | .stepReturned .. | .waitReturned .. | .diagnosed _ => true
  | .bodyBegun .. | .observed _ | .logged _ | .appended _ | .appendFailed .. => false

end Effect

namespace Invocation

/-- A property that every write keeps, whether the log refuses it, the store fails it or it
is taken. -/
structure KeptByWrites (property : Invocation V → Prop) : Prop where
  write : ∀ {invocation : Invocation V} (admitted : Except StoreError Operation),
    property invocation → property (invocation.write admitted).2

namespace KeptByWrites

variable {property : Invocation V → Prop} (kept : KeptByWrites property)
  {invocation : Invocation V}

include kept

theorem record (operation : Operation) (holds : property invocation) :
    property (invocation.record operation).2 :=
  kept.write _ holds

theorem update (ordinal : Nat) (update : OperationUpdate) (holds : property invocation) :
    property (invocation.update ordinal update).2 :=
  kept.write _ holds

theorem put (template : Operation) (update : OperationUpdate) (holds : property invocation) :
    property (invocation.put template update).2 := by
  unfold Invocation.put
  split
  · exact kept.update _ _ holds
  · split
    · exact holds
    · exact kept.record _ holds

theorem mark (template : Operation) (semantics : StepSemantics) (number : Nat)
    (holds : property invocation) :
    property (invocation.mark template semantics number).2 := by
  have written := kept.put template (.started number) holds
  unfold Invocation.mark
  split
  · exact holds
  · split
    · next lost => rwa [lost] at written
    · next taken => rwa [taken] at written

end KeptByWrites

theorem write_logger (invocation : Invocation V) (admitted : Except StoreError Operation) :
    (invocation.write admitted).2.logger = invocation.logger := by
  cases admitted with
  | error error => rfl
  | ok operation =>
      cases wrote : invocation.write (.ok operation) with
      | mk result after => exact (write_writes wrote).logger

/-- A property that is kept by each of the changes that a call is made of.  Its body is one of
those that are allowed, and runs outside the replay. -/
structure Lasting (allowed : StepBody V → Prop) (property : Invocation V → Prop) : Prop
    extends KeptByWrites property where
  report : ∀ {invocation : Invocation V} {effect : Effect V}, effect.isReport = true →
    property invocation → property (invocation.emit effect)
  flag : ∀ {invocation : Invocation V} (replaying : Bool),
    property invocation → property (invocation.withReplaying replaying)
  place : ∀ {invocation : Invocation V} (halt : Option Halt) (nextOrdinal : Nat)
    (names : List (String × Nat)), property invocation →
    property { invocation with halt := halt, nextOrdinal := nextOrdinal, names := names }
  body : ∀ {invocation : Invocation V} {body : StepBody V} (ordinal : Nat)
    (semantics : StepSemantics) (context : StepContext), allowed body →
    invocation.isReplaying = false → property invocation →
    property ((invocation.emit (.bodyBegun ordinal semantics context false)).runBody context
      body).2

namespace Lasting

variable {allowed : StepBody V → Prop} {property : Invocation V → Prop}
  (lasting : Lasting allowed property) {invocation : Invocation V}

include lasting

theorem diagnose (diagnostic : Diagnostic) (holds : property invocation) :
    property (invocation.diagnose diagnostic) :=
  lasting.report rfl holds

theorem declare (kind : OperationKind) (name : String) (holds : property invocation) :
    property (invocation.declare kind name) :=
  lasting.place _ _ _ (lasting.report rfl holds)

theorem settle (outcome : Except DurableError α) (holds : property invocation) :
    property (invocation.settle outcome) := by
  have refreshed : property invocation.refresh := lasting.flag _ holds
  unfold Invocation.settle noteHalt
  split
  · exact lasting.place _ _ _ refreshed
  · exact refreshed

theorem conclude (template : Operation) (update : OperationUpdate) (diagnostic : Diagnostic)
    (outcome : Except DurableError V) (holds : property invocation) :
    property (invocation.conclude template update diagnostic outcome).2 := by
  have written := lasting.put template update holds
  unfold Invocation.conclude
  split
  · next lost => rwa [lost] at written
  · next taken =>
      rw [taken] at written
      exact lasting.diagnose diagnostic written

theorem succeed (template : Operation) (context : StepContext) (codec : Codec V) (value : V)
    (holds : property invocation) :
    property (invocation.succeed template context codec value).2 := by
  unfold Invocation.succeed
  split <;> exact lasting.conclude _ _ _ _ holds

theorem fail (template : Operation) (context : StepContext) (retry : RetryPolicy)
    (error : ErrorObject) (holds : property invocation) :
    property (invocation.fail template context retry error).2 := by
  unfold Invocation.fail
  split <;> exact lasting.conclude _ _ _ _ holds

theorem attempt (ordinal : Nat) (name : String) (number : Nat) (config : StepConfig)
    (codec : Codec V) {body : StepBody V} (permitted : allowed body)
    (holds : property invocation) :
    property (invocation.attempt ordinal name number config codec body).2 := by
  -- The marker leaves the flag as it is, so that the body runs outside the replay.
  have unreplayed : KeptByWrites fun invocation : Invocation V =>
      property invocation ∧ invocation.isReplaying = false := by
    refine ⟨fun admitted kept => ⟨lasting.write admitted kept.1, ?_⟩⟩
    rw [isReplaying, write_logger]
    exact kept.2
  have marked := unreplayed.mark (.step ordinal name) config.semantics number
    ⟨lasting.flag false holds, rfl⟩
  unfold Invocation.attempt
  dsimp only
  split
  · next lost =>
      rw [lost] at marked
      exact marked.1
  · next begun taken =>
      rw [taken] at marked
      have ran := lasting.body ordinal config.semantics
        ⟨invocation.executionId, (Operation.step ordinal name).id, name, number⟩ permitted
        marked.2 marked.1
      rw [← marked.2] at ran
      split
      · next died => rwa [died] at ran
      · next returned =>
          rw [returned] at ran
          exact lasting.succeed _ _ _ _ ran
      · next failed =>
          rw [failed] at ran
          exact lasting.fail _ _ _ _ ran

theorem interrupt (operation : Operation) (holds : property invocation) :
    property (invocation.interrupt operation).2 := by
  have diagnosed := lasting.diagnose
    (.stepInterrupted invocation.executionId operation.id operation.attempt) holds
  unfold Invocation.interrupt
  dsimp only
  split
  · exact diagnosed
  · have written := lasting.update operation.ordinal (.interrupted operation.attempt
      (DurableError.stepInterrupted operation.name operation.attempt).toObject) diagnosed
    split
    · next lost => rwa [lost] at written
    · next taken => rwa [taken] at written

theorem follow (ordinal : Nat) (name : String) (config : StepConfig) (codec : Codec V)
    {body : StepBody V} (permitted : allowed body) (plan : StepPlan)
    (holds : property invocation) :
    property (invocation.follow ordinal name config codec body plan).2 := by
  cases plan with
  | replay operation => exact lasting.diagnose _ holds
  | fail error => exact holds
  | interrupt operation => exact lasting.interrupt operation holds
  | attempt number => exact lasting.attempt ordinal name number config codec permitted holds

theorem step (name : String) (config : StepConfig) (codec : Codec V) {body : StepBody V}
    (permitted : allowed body) (holds : property invocation) :
    property (invocation.step name config codec body).2 := by
  have called : property (invocation.callStep name config codec body).2 := by
    unfold callStep
    split
    · exact holds
    · dsimp only
      split
      · exact lasting.declare .step name holds
      · exact lasting.follow _ name config codec permitted _ (lasting.declare .step name holds)
  unfold Invocation.step
  split
  · next died => rwa [died] at called
  · next returned =>
      rw [returned] at called
      exact lasting.report rfl (lasting.settle _ called)

theorem startTimer (ordinal : Nat) (name : String) (duration : Duration)
    (holds : property invocation) :
    property (invocation.startTimer ordinal name duration).2 := by
  unfold Invocation.startTimer
  dsimp only
  split
  · split
    · exact holds
    · exact lasting.record _ holds
  · have written :=
      lasting.record (.timer ordinal name (invocation.now.add duration)) holds
    split
    · next lost => rwa [lost] at written
    · next taken =>
        rw [taken] at written
        exact lasting.diagnose _ written

theorem elapseTimer (ordinal : Nat) (timer : Operation) (holds : property invocation) :
    property (invocation.elapseTimer ordinal timer).2 := by
  have written := lasting.update ordinal (.elapsed timer) holds
  unfold Invocation.elapseTimer
  split
  · next lost => rwa [lost] at written
  · next taken =>
      rw [taken] at written
      exact lasting.diagnose _ written

theorem followWait (ordinal : Nat) (name : String) (duration : Duration) (plan : WaitPlan)
    (holds : property invocation) :
    property (invocation.followWait ordinal name duration plan).2 := by
  cases plan with
  | start => exact lasting.startTimer ordinal name duration holds
  | pass => exact holds
  | elapse timer => exact lasting.elapseTimer ordinal timer holds
  | fail error => exact holds

theorem wait (name : String) (duration : Duration) (holds : property invocation) :
    property (invocation.wait name duration).2 := by
  have called : property (invocation.callWait name duration).2 := by
    unfold callWait
    split
    · exact holds
    · dsimp only
      split
      · exact lasting.declare .timer name holds
      · exact lasting.followWait _ name duration _ (lasting.declare .timer name holds)
  exact lasting.report rfl (lasting.settle _ called)

end Lasting

end Invocation

end Durable
