import Durable.Proofs.Session

/-!
# Still clocks

Only workflow code and bodies move the clock of a pass.  When none of them does, the clock
shows the same instant throughout.
-/

namespace Durable

variable {V O : Type}

namespace BodyRun

/-- The body never moves the clock. -/
def Still (run : BodyRun V) : Prop :=
  ∀ duration, BodyAction.advance duration ∉ run.actions

theorem Still.clockAfter {run : BodyRun V} (still : run.Still) (clock : Clock) :
    run.clockAfter clock = clock := by
  obtain ⟨actions, outcome⟩ := run
  simp only [Still] at still
  simp only [BodyRun.clockAfter]
  induction actions with
  | nil => rfl
  | cons action actions induction =>
      have rest := induction fun duration member => still duration (List.mem_cons_of_mem _ member)
      cases action with
      | log level message => exact rest
      | advance duration => exact absurd List.mem_cons_self (still duration)

end BodyRun

namespace Workflow

/-- The workflow and its bodies never move the clock. -/
def Still : Workflow V O → Prop
  | .done _ => True
  | .step _ _ _ body next => (∀ context, (body context).Still) ∧ ∀ outcome, (next outcome).Still
  | .wait _ _ next => ∀ outcome, (next outcome).Still
  | .log _ _ next => next.Still
  | .observe next => ∀ observation, (next observation).Still
  | .advance _ _ => False

end Workflow

namespace Invocation

variable (invocation : Invocation V)

theorem write_clock (admitted : Except StoreError Operation) :
    (invocation.write admitted).2.clock = invocation.clock := by
  cases admitted with
  | error error => rfl
  | ok operation =>
      cases wrote : invocation.write (.ok operation) with
      | mk result after => exact congrArg Clock.mk (write_writes wrote).now

theorem put_clock (template : Operation) (update : OperationUpdate) :
    (invocation.put template update).2.clock = invocation.clock := by
  unfold put
  split
  · exact invocation.write_clock _
  · split
    · rfl
    · exact invocation.write_clock _

private theorem conclude_clock (template : Operation) (update : OperationUpdate)
    (diagnostic : Diagnostic) (outcome : Except DurableError V) :
    (invocation.conclude template update diagnostic outcome).2.clock = invocation.clock := by
  have put := invocation.put_clock template update
  unfold conclude
  split <;> next written => rw [written] at put; exact put

theorem settle_clock (outcome : Except DurableError α) :
    (invocation.settle outcome).clock = invocation.clock := by
  unfold settle noteHalt
  split <;> rfl

private theorem mark_clock (template : Operation) (semantics : StepSemantics) (number : Nat) :
    (invocation.mark template semantics number).2.clock = invocation.clock := by
  have put := invocation.put_clock template (.started number)
  cases semantics with
  | atLeastOnce => rfl
  | atMostOnce =>
      simp only [mark]
      split <;> next written => rw [written] at put; exact put

private theorem attempt_clock (ordinal : Nat) (name : String) (number : Nat)
    (config : StepConfig) (codec : Codec V) {body : StepBody V}
    (still : ∀ context, (body context).Still) :
    (invocation.attempt ordinal name number config codec body).2.clock = invocation.clock := by
  have marked := (invocation.withReplaying false).mark_clock (.step ordinal name)
    config.semantics number
  unfold attempt
  dsimp only
  split
  · next error begun failed =>
      rw [failed] at marked
      exact marked
  · next given begun opened =>
      rw [opened] at marked
      have finished : ∀ {ending : BodyOutcome V} {finished : Invocation V} {context : StepContext}
          {effect : Effect V}, (begun.emit effect).runBody context body = (ending, finished) →
            finished.clock = invocation.clock := by
        intro ending finished context effect ran
        rw [(runBody_course ran).2.1, (still context).clockAfter]
        exact marked
      split
      · next ran => exact finished ran
      · next value ended ran =>
          refine Eq.trans ?_ (finished ran)
          unfold succeed
          split <;> exact ended.conclude_clock _ _ _ _
      · next error ended ran =>
          refine Eq.trans ?_ (finished ran)
          unfold Invocation.fail
          split <;> exact ended.conclude_clock _ _ _ _

private theorem follow_clock (ordinal : Nat) (name : String) (config : StepConfig)
    (codec : Codec V) {body : StepBody V} (plan : StepPlan)
    (still : ∀ number, plan = .attempt number → ∀ context, (body context).Still) :
    (invocation.follow ordinal name config codec body plan).2.clock = invocation.clock := by
  cases plan with
  | replay operation => rfl
  | fail error => rfl
  | attempt number =>
      exact invocation.attempt_clock ordinal name number config codec (still number rfl)
  | interrupt operation =>
      simp only [follow, interrupt]
      split
      · rfl
      · have wrote := (invocation.diagnose (.stepInterrupted invocation.executionId operation.id
          operation.attempt)).write_clock
        unfold Invocation.update
        split <;> next written => exact (congrArg (·.2.clock) written).symm.trans (wrote _)

theorem step_clock_of_planned (name : String) (config : StepConfig) (codec : Codec V)
    {body : StepBody V}
    (still : ∀ recorded number, invocation.findRecord .step name = .ok recorded →
      StepPlan.ofRecord recorded config.semantics invocation.now = .attempt number →
      ∀ context, (body context).Still) :
    (invocation.step name config codec body).2.clock = invocation.clock := by
  have called : (invocation.callStep name config codec body).2.clock = invocation.clock := by
    unfold callStep
    split
    · rfl
    · dsimp only
      split
      · rfl
      · next recorded found =>
          exact (invocation.declare .step name).follow_clock _ name config codec _ fun number =>
            still recorded number found
  unfold step
  split
  · next after crashed =>
      rw [crashed] at called
      exact called
  · next outcome after returned =>
      rw [returned] at called
      exact (after.settle_clock outcome).trans called

theorem step_clock (name : String) (config : StepConfig) (codec : Codec V) {body : StepBody V}
    (still : ∀ context, (body context).Still) :
    (invocation.step name config codec body).2.clock = invocation.clock :=
  invocation.step_clock_of_planned name config codec fun _ _ _ _ => still

private theorem followWait_clock (ordinal : Nat) (name : String) (duration : Duration)
    (plan : WaitPlan) :
    (invocation.followWait ordinal name duration plan).2.clock = invocation.clock := by
  cases plan with
  | pass => rfl
  | fail error => rfl
  | start =>
      simp only [followWait, startTimer]
      split
      · split
        · rfl
        · exact invocation.write_clock _
      · unfold Invocation.record
        split <;> next written =>
          exact (congrArg (·.2.clock) written).symm.trans (invocation.write_clock _)
  | elapse timer =>
      simp only [followWait, elapseTimer, Invocation.update]
      split <;> next written =>
        exact (congrArg (·.2.clock) written).symm.trans (invocation.write_clock _)

theorem wait_clock (name : String) (duration : Duration) :
    (invocation.wait name duration).2.clock = invocation.clock := by
  have called : (invocation.callWait name duration).2.clock = invocation.clock := by
    unfold callWait
    split
    · rfl
    · dsimp only
      split
      · rfl
      · exact (invocation.declare .timer name).followWait_clock _ name duration _
  unfold wait
  exact (settle_clock _ _).trans called

end Invocation

theorem Workflow.Still.run_clock {workflow : Workflow V O} (still : workflow.Still)
    (invocation : Invocation V) : (workflow.run invocation).2.clock = invocation.clock := by
  induction workflow generalizing invocation with
  | done outcome => rfl
  | step name config codec body next induction =>
      have stepped := invocation.step_clock name config codec still.1
      simp only [run]
      split
      · next after crashed =>
          rw [crashed] at stepped
          exact stepped
      · next outcome after returned =>
          rw [returned] at stepped
          exact (induction outcome (still.2 outcome) after).trans stepped
  | wait name duration next induction =>
      exact (induction _ (still _) _).trans (invocation.wait_clock name duration)
  | log level message next induction =>
      exact (induction still _).trans (invocation.logCall_clock level message)
  | observe next induction => exact induction invocation.observation (still _) _
  | advance duration next induction => exact still.elim

theorem Visit.answer_clock {visit : Visit V O} (still : visit.workflow.Still)
    (executionId : String) (store : Store) :
    (visit.answer executionId store).clock = visit.clock := by
  have finished : ∀ (outcome : Except DurableError O) (final : Invocation V),
      (Execution.finish executionId outcome final).clock = final.clock := by
    intro outcome final
    have complained : ∀ diagnostic : Option Diagnostic,
        (final.close.2.diagnose? diagnostic).clock = final.clock := by
      intro diagnostic
      cases diagnostic <;> rfl
    unfold Execution.finish
    dsimp only
    split <;> exact complained _
  simp only [answer, Execution.invoke]
  split
  · rfl
  · next log after loaded =>
      have ran := still.run_clock ((Execution.mk executionId visit.suppressReplayLogs).begin log
        after visit.clock)
      split
      · next final crashed =>
          rw [crashed] at ran
          exact ran
      · next outcome final returned =>
          rw [returned] at ran
          exact (finished outcome final).trans ran

end Durable
