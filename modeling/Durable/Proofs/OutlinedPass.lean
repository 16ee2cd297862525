import Durable.Proofs.Halting
import Durable.Proofs.Outline

/-!
# Passes along an outline

A pass over the records that an execution has left along its outline recalls those that
close their operations, in order, and carries out the first call that is open.  At its end
the records are again such as an execution leaves along its outline.
-/

namespace Durable

variable {V O : Type}

open Occurrence

theorem Medium.givesBack_memory (kept : List (String × Operation)) (record : Operation) :
    (memory kept).GivesBack record record := by
  refine ⟨record.result, record.readyAt, rfl, ?_⟩
  cases record.result <;> rfl

theorem BodyOutcome.closing?_halts {ending : BodyOutcome V} {retry : RetryPolicy}
    {codec : Codec V} {name : String} {attempt : Nat} {now : Instant}
    {update : OperationUpdate} {seen : Except DurableError V}
    (closes : ending.closing? retry codec name attempt now = some (update, seen))
    (halts : Invocation.haltOf? seen ≠ none) :
    ∃ wake, update = .retryScheduled attempt wake ∧ seen = .error (.suspended wake) := by
  unfold closing? at closes
  split at closes
  · cases closes
  · split at closes <;> cases closes <;> exact absurd rfl halts
  · split at closes <;> cases closes
    · exact ⟨_, rfl, rfl⟩
    · exact absurd rfl halts

namespace Outline

theorem Closes.of_closing {call : StepCall V} {next : Except DurableError V → Outline V}
    {base : Operation} {ending : BodyOutcome V} {attempt : Nat} {now : Instant}
    {update : OperationUpdate} {outcome : Except DurableError V} (kind : base.kind = .step)
    (named : base.name = call.name) (decodes : call.Decodes (.memory []))
    (closes : ending.closing? call.config.retry call.codec call.name attempt now =
      some (update, outcome)) (goesOn : Invocation.haltOf? outcome = none) :
    (base.withState update).Past ∧
      (Outline.step call.name call.config.semantics call.codec next).Closes
        (base.withState update) (next outcome) := by
  obtain ⟨terminal, tells⟩ := BodyOutcome.closing?_tells closes goesOn
  have told := tells base named decodes _ (Medium.givesBack_memory [] _)
  have ended : (base.withState update).isTerminal = true := terminal
  refine ⟨Operation.past_of_isTerminal ended, .step kind named told goesOn ?_⟩
  intro started
  rw [Operation.isTerminal_of_status started] at ended
  cases ended

/-- The call has been closed, and the invocation stands behind its record. -/
inductive Advanced (outline following : Outline V) (done : List Operation)
    (after : Invocation V) : Prop where
  | intro (record : Operation) {rest : List Operation}
      (fresh : Plan.declaredAt? done record.name = none) (past : record.Past)
      (closes : outline.Closes record following) (stands : after.Stands (done ++ [record]) rest)
      (trails : following.Trails (done ++ [record]) rest) : Advanced outline following done after

/-- The call has halted the invocation. -/
inductive Stopped (outline : Outline V) (done : List Operation) (after : Invocation V) :
    Prop where
  | intro {rest : List Operation} {halt : Halt} (halted : after.halt = some halt)
      (holds : after.log.Holds (done ++ rest)) (trails : outline.Trails done rest)
      (remainder : Remainder rest (some halt)) : Stopped outline done after

/-- What a step call of the outline comes to. -/
inductive StepTaken (outline : Outline V) (next : Except DurableError V → Outline V)
    (done : List Operation) (after : Invocation V) : Reply V → Prop where
  | advanced {outcome : Except DurableError V} (goesOn : Invocation.haltOf? outcome = none)
      (advanced : outline.Advanced (next outcome) done after) :
      StepTaken outline next done after (.returned outcome)
  | stopped (outcome : Except DurableError V) (stopped : outline.Stopped done after) :
      StepTaken outline next done after (.returned outcome)
  | crashed {rest : List Operation} (holds : after.log.Holds (done ++ rest))
      (trails : outline.Trails done rest) : StepTaken outline next done after .crashed

/-- What a wait call of the outline comes to. -/
inductive WaitTaken (outline next : Outline V) (done : List Operation)
    (after : Invocation V) : Except DurableError Unit → Prop where
  | advanced (advanced : outline.Advanced next done after) :
      WaitTaken outline next done after (.ok ())
  | stopped (outcome : Except DurableError Unit) (stopped : outline.Stopped done after) :
      WaitTaken outline next done after outcome

end Outline

namespace Invocation.Stands

variable {before after : Invocation V} {done rest : List Operation}

theorem refuse {outline : Outline V} {kind : OperationKind} {name : String}
    {emitted : List (Occurrence V)} {error : DurableError}
    (stands : before.Stands done rest) (trails : outline.Trails done rest)
    (named : ∀ record, rest.head? = some record → record.name = name) {first : Nat}
    (known : Plan.declaredAt? done name = some first)
    (called : Called before after kind name emitted (some (.fatal error)))
    (silent : records emitted = []) : outline.Stopped done after := by
  have holds := stands.unwritten called silent
  cases rest with
  | nil => exact .intro called.halt holds trails (.refused (List.forall_mem_nil _) error)
  | cons record rest =>
      have fresh := trails.fresh
      rw [named record rfl, known] at fresh
      cases fresh

section Steps

variable {call : StepCall V} {next : Except DurableError V → Outline V} {reply : Reply V}
  {middle : List (Occurrence V)}

theorem replay {record : Operation} {following : Outline V}
    (stands : before.Stands done (record :: rest))
    (fresh : Plan.declaredAt? done record.name = none)
    (closes : (Outline.step call.name call.config.semantics call.codec next).Closes record
      following)
    (course : StepCourse before call reply middle)
    (called : Called before after .step call.name
      (middle ++ reply.returning call.name after) reply.halt?) :
    Quiet middle ∧ ∃ outcome, reply = .returned outcome ∧ haltOf? outcome = none ∧
      following = next outcome ∧ after.Stands (done ++ [record]) rest := by
  obtain ⟨isQuiet, recalls⟩ := course.of_settled stands.found closes.settled rfl
  refine ⟨isQuiet, ?_⟩
  cases closes with
  | @step _ _ _ _ _ outcome kind named told goesOn guarded =>
      rw [named, ← stands.names] at fresh
      obtain ⟨seen, rfl, tells⟩ := recalls fresh kind named
      cases tells.symm.trans told
      have silent := ((Reply.returned outcome).returning_quiet call.name after).records_append
        middle
      have holds := stands.unwritten called (silent.trans isQuiet.records)
      rw [← named] at called
      simp only [Reply.halt?, goesOn] at called
      exact ⟨outcome, rfl, goesOn, rfl, stands.proceed called holds⟩

theorem attempted (stands : before.Stands done rest)
    (trails : (Outline.step call.name call.config.semantics call.codec next).Trails done rest)
    (fresh : Plan.declaredAt? done call.name = none) :
    (call.base before).ordinal = before.nextOrdinal ∧ (call.base before).kind = .step ∧
      (call.base before).name = call.name ∧
      ∀ update, Plan.declaredAt? done ((call.base before).withState update).name = none := by
  obtain ⟨ordinal, kind, named⟩ : (call.base before).ordinal = before.nextOrdinal ∧
      (call.base before).kind = .step ∧ (call.base before).name = call.name := by
    apply StepCall.base_fits
    rw [stands.found]
    exact trails.fits_step
  rw [← named] at fresh
  exact ⟨ordinal, kind, named, fun _ => fresh⟩

theorem unended {number : Nat} {emitted : List (Occurrence V)} {halt : Option Halt}
    (stands : before.Stands done rest)
    (trails : (Outline.step call.name call.config.semantics call.codec next).Trails done rest)
    (last : rest.length ≤ 1) (fresh : Plan.declaredAt? done call.name = none)
    (called : Called before after .step call.name emitted halt)
    (opened : records emitted = records (call.opening before number)) :
    ∃ left, after.log.Holds (done ++ left) ∧
      (Outline.step call.name call.config.semantics call.codec next).Trails done left := by
  obtain ⟨ordinal, kind, named, unused⟩ := stands.attempted trails fresh
  rw [call.opening_records] at opened
  cases semantics : call.config.semantics with
  | atLeastOnce =>
      rw [semantics] at opened trails
      exact ⟨rest, stands.unwritten called opened, trails⟩
  | atMostOnce =>
      rw [semantics] at opened
      refine ⟨[(call.base before).withState (.started number)], ?_, ?_⟩
      · exact stands.wroteOne last called opened ordinal
      · exact .opened (unused _) (.begun kind named rfl rfl rfl)

/-- An attempt at the last position of the log. -/
theorem attempt {number : Nat}
    (stands : before.Stands done rest)
    (trails : (Outline.step call.name call.config.semantics call.codec next).Trails done rest)
    (last : rest.length ≤ 1) (fresh : Plan.declaredAt? done call.name = none)
    (decodes : call.Decodes (.memory []))
    (course : AttemptCourse before call number reply middle)
    (called : Called before after .step call.name
      (middle ++ reply.returning call.name after) reply.halt?) :
    (Outline.step call.name call.config.semantics call.codec next).StepTaken next done after
      reply := by
  have returning := (reply.returning_quiet call.name after).records_append middle
  obtain ⟨ordinal, kind, named, unused⟩ := stands.attempted trails fresh
  have own : ∀ record ∈ records (middle ++ reply.returning call.name after),
      record.ordinal = before.nextOrdinal := by
    intro record member
    rw [returning] at member
    obtain ⟨state, rfl⟩ := course.states record member
    exact ordinal
  cases course with
  | unmarked error guarded faulty =>
      have holds := stands.unwritten called rfl
      exact .stopped _ (.intro called.halt holds trails (.aborted _ error))
  | crashed chatter logs dies =>
      obtain ⟨left, holds, trailsLeft⟩ := stands.unended trails last fresh called
        (returning.trans (logs.quiet.records_append _))
      exact .crashed holds trailsLeft
  | lost chatter logs reading update outcome closes error faulty =>
      obtain ⟨left, holds, trailsLeft⟩ := stands.unended trails last fresh called
        (returning.trans ((logs.quiet.append ⟨rfl, rfl⟩).records_append _))
      exact .stopped _ (.intro called.halt holds trailsLeft (.aborted _ error))
  | closed chatter logs reading update outcome closes diagnostic =>
      have latest := call.latest?_closing before number logs reading update diagnostic
      rw [← returning] at latest
      have holds := stands.wrote last called own latest
      cases goesOn : haltOf? outcome with
      | none =>
          obtain ⟨past, closesStep⟩ := Outline.Closes.of_closing kind named decodes closes goesOn
          simp only [Reply.halt?, goesOn] at called
          rw [← named] at called
          exact .advanced goesOn (.intro _ (unused update) past closesStep
            (stands.proceed called holds) (.ahead _ _))
      | some halt =>
          obtain ⟨wake, rfl, rfl⟩ := BodyOutcome.closing?_halts closes (by simp [goesOn])
          exact .stopped _ (.intro called.halt holds
            (.opened (unused _) (.retrying kind named ⟨rfl, rfl⟩)) (.of_waits ⟨rfl, rfl⟩))

/-- A step call of the outline, whatever it finds at its position. -/
theorem stepTaken (stands : before.Stands done rest)
    (trails : (Outline.step call.name call.config.semantics call.codec next).Trails done rest)
    (decodes : call.Decodes (.memory []))
    (course : StepCourse before call reply middle)
    (called : Called before after .step call.name
      (middle ++ reply.returning call.name after) reply.halt?) :
    (Outline.step call.name call.config.semantics call.codec next).StepTaken next done after
      reply := by
  have returning := (reply.returning_quiet call.name after).records_append middle
  have fits := trails.fits_step
  rcases stands.step course fits with ⟨first, known, rfl, rfl⟩ | ⟨fresh, planned⟩
  · have named := fun record found => (fits record found).2
    exact .stopped _ (stands.refuse trails named known called returning)
  · cases trails with
    | ahead =>
        cases planned with
        | attempted number unfinished notDecreasing course =>
            exact stands.attempt (.ahead _ _) (Nat.zero_le 1) fresh decodes course called
    | closed new past closes trails =>
        obtain ⟨_, outcome, rfl, goesOn, rfl, standsAfter⟩ :=
          stands.replay new closes course called
        exact .advanced goesOn (.intro _ new past closes standsAfter trails)
    | @opened _ _ record new leftOpen =>
        have trails := Outline.Trails.opened new leftOpen
        cases leftOpen with
        | @retrying _ _ _ _ _ wake kind named waits =>
            rw [List.head?_cons, waits.stepPlan] at planned
            split at planned
            · cases planned with
              | attempted number unfinished notDecreasing course =>
                  exact stands.attempt trails (Nat.le_refl 1) fresh decodes course called
            · cases planned
              have holds := stands.unwritten called rfl
              exact .stopped _ (.intro called.halt holds trails (.of_waits waits))
        | begun kind named started unnoted guarded =>
            rw [List.head?_cons] at planned
            simp only [StepPlan.ofRecord, started, guarded] at planned
            cases planned with
            | reported operation noted => exact absurd unnoted noted
            | unannotated operation _ error faulty =>
                have holds := stands.unwritten called returning
                exact .stopped _ (.intro called.halt holds trails (.aborted _ error))
            | annotated operation _ =>
                have own : record.ordinal = before.nextOrdinal :=
                  OperationLog.lookup?_ordinal stands.found
                have holds : after.log.Holds (done ++ [record.annotated]) :=
                  stands.wroteOne (Nat.le_refl 1) called returning own
                rw [← named] at called
                have closes : (Outline.step call.name call.config.semantics call.codec next).Closes
                    record.annotated
                    (next (.error (.stepInterrupted record.name record.attempt))) :=
                  .step kind named rfl rfl fun _ => guarded
                have past : record.annotated.Past := by
                  constructor
                  · intro pending
                    cases pending
                  · rfl
                exact .advanced rfl (.intro record.annotated new past closes
                  (stands.proceed called holds) (.ahead _ _))

end Steps

section Waits

variable {call : WaitCall} {next : Outline V} {outcome : Except DurableError Unit}
  {middle : List (Occurrence V)}

theorem replayWait {record : Operation} {following : Outline V}
    (stands : before.Stands done (record :: rest))
    (fresh : Plan.declaredAt? done record.name = none)
    (closes : (Outline.wait call.name next).Closes record following)
    (course : WaitCourse before call outcome middle)
    (called : Called before after .timer call.name
      (middle ++ [⟨after.now, .waitReturned call.name outcome after.isReplaying⟩])
      (haltOf? outcome)) :
    Quiet middle ∧ outcome = .ok () ∧ following = next ∧
      after.Stands (done ++ [record]) rest := by
  cases closes with
  | wait kind named ended =>
      have settled : record.Settled fun _ => .atMostOnce :=
        .inl (Operation.isTerminal_of_status ended)
      obtain ⟨isQuiet, recalls⟩ := course.of_settled stands.found settled
      rw [named, ← stands.names] at fresh
      have told : record.elapse? = some (.ok ()) := by
        simp only [Operation.elapse?, ended]
      obtain rfl := recalls fresh kind named (.ok ()) told
      have silent := (emit_quiet after (.waitReturned call.name (.ok ()) after.isReplaying) rfl
        rfl).records_append middle
      have holds := stands.unwritten called (silent.trans isQuiet.records)
      rw [← named] at called
      exact ⟨isQuiet, rfl, rfl, stands.proceed called holds⟩

/-- A wait call of the outline, whatever it finds at its position. -/
theorem waitTaken (stands : before.Stands done rest)
    (trails : (Outline.wait call.name next).Trails done rest)
    (course : WaitCourse before call outcome middle)
    (called : Called before after .timer call.name
      (middle ++ [⟨after.now, .waitReturned call.name outcome after.isReplaying⟩])
      (haltOf? outcome)) :
    (Outline.wait call.name next).WaitTaken next done after outcome := by
  have fits := trails.fits_wait
  rcases stands.wait course fits with ⟨first, known, rfl, rfl⟩ | ⟨fresh, planned⟩
  · have named := fun record found => (fits record found).2
    exact .stopped _ (stands.refuse trails named known called rfl)
  · cases trails with
    | ahead =>
        cases planned with
        | lost written error faulty =>
            have holds := stands.unwritten called rfl
            exact .stopped _ (.intro called.halt holds (.ahead _ _) (.aborted _ error))
        | passed due =>
            have holds : after.log.Holds (done ++ [(call.timer before).elapsed]) :=
              stands.wroteOne (Nat.zero_le 1) called rfl rfl
            exact .advanced (.intro (call.timer before).elapsed fresh
              (Operation.past_of_isTerminal rfl) (.wait rfl rfl rfl)
              (stands.proceed called holds) (.ahead _ _))
        | started notDue diagnostic =>
            have holds : after.log.Holds (done ++ [call.timer before]) :=
              stands.wroteOne (Nat.zero_le 1) called rfl rfl
            have waits : (call.timer before).Waits (before.now.add call.duration) := ⟨rfl, rfl⟩
            have trails : (Outline.wait call.name next).Trails done [call.timer before] :=
              .opened fresh (.running rfl rfl waits)
            exact .stopped _ (.intro called.halt holds trails (.of_waits waits))
    | closed new past closes trails =>
        obtain ⟨_, rfl, rfl, standsAfter⟩ := stands.replayWait new closes course called
        exact .advanced (.intro _ new past closes standsAfter trails)
    | @opened _ _ record new leftOpen =>
        have trails := Outline.Trails.opened new leftOpen
        cases leftOpen with
        | running kind named waits =>
            rw [List.head?_cons, waits.waitPlan] at planned
            split at planned
            · cases planned with
              | unelapsed timer error faulty =>
                  have holds := stands.unwritten called rfl
                  exact .stopped _ (.intro called.halt holds trails (.aborted _ error))
              | elapsed timer diagnostic =>
                  have own : record.ordinal = before.nextOrdinal :=
                    OperationLog.lookup?_ordinal stands.found
                  have holds : after.log.Holds (done ++ [record.elapsed]) :=
                    stands.wroteOne (Nat.le_refl 1) called rfl own
                  rw [← named] at called
                  exact .advanced (.intro record.elapsed new (Operation.past_of_isTerminal rfl)
                    (.wait kind named rfl) (stands.proceed called holds) (.ahead _ _))
            · cases planned
              have holds := stands.unwritten called rfl
              exact .stopped _ (.intro called.halt holds trails (.of_waits waits))

end Waits

end Invocation.Stands

namespace Outline

/-- What a pass along the outline comes to, behind the operations that were passed. -/
inductive Passed (outline : Outline V) (done : List Operation) (final : Invocation V) :
    PassEnd O → Prop where
  | returned (outcome : Except DurableError O) {rest : List Operation}
      (holds : final.log.Holds (done ++ rest)) (trails : outline.Trails done rest)
      (remainder : Remainder rest final.halt) : Passed outline done final (.returned outcome)
  | crashed {rest : List Operation} (holds : final.log.Holds (done ++ rest))
      (trails : outline.Trails done rest) : Passed outline done final .crashed

theorem Stopped.run {outline : Outline V} {done : List Operation} {before : Invocation V}
    (stopped : outline.Stopped done before) (workflow : Workflow V O) :
    outline.Passed done (workflow.run before).2 (workflow.run before).1 := by
  obtain ⟨halted, holds, trails, remainder⟩ := stopped
  obtain ⟨outcome, after, ran, haltedAfter, log⟩ := workflow.run_halted halted
  rw [ran]
  rw [← log] at holds
  rw [← haltedAfter] at remainder
  exact .returned outcome holds trails remainder

theorem Passed.behind {outline following : Outline V} {done : List Operation}
    {record : Operation} {final : Invocation V} {ending : PassEnd O}
    (passed : following.Passed (done ++ [record]) final ending)
    (fresh : Plan.declaredAt? done record.name = none) (past : record.Past)
    (closes : outline.Closes record following) : outline.Passed done final ending := by
  cases passed with
  | returned outcome holds trails remainder =>
      rw [List.append_assoc, List.singleton_append] at holds
      exact .returned outcome holds (.closed fresh past closes trails) (remainder.cons past)
  | crashed holds trails =>
      rw [List.append_assoc, List.singleton_append] at holds
      exact .crashed holds (.closed fresh past closes trails)

end Outline

/-- A pass of a workflow along the rest of its outline. -/
theorem Workflow.Realizes.run {workflow : Workflow V O} {outline : Outline V}
    (realizes : workflow.Realizes outline)
    (decodes : workflow.EveryStep (StepCall.Decodes (.memory []))) {done rest : List Operation}
    {before : Invocation V} (stands : before.Stands done rest)
    (trails : outline.Trails done rest) :
    outline.Passed done (workflow.run before).2 (workflow.run before).1 := by
  induction realizes generalizing before done rest with
  | done outcome =>
      cases trails with
      | ahead =>
          have whole : Remainder [] before.halt := by
            rw [stands.free]
            exact .whole (List.forall_mem_nil _)
          exact .returned outcome stands.holds (.ahead _ _) whole
      | closed fresh past closes trails => cases closes
      | opened fresh leftOpen => cases leftOpen
  | @step name config codec body next following realizes induction =>
      let call : StepCall V := ⟨name, config, codec, body⟩
      cases stepped : before.step name config codec body with
      | mk reply after =>
          obtain ⟨middle, course, called⟩ := Invocation.step_course stands.free call stepped
          have taken := stands.stepTaken trails decodes.1 course called
          simp only [Workflow.run, stepped]
          cases taken with
          | crashed holds trails => exact .crashed holds trails
          | stopped outcome stopped => exact stopped.run (next outcome)
          | advanced goesOn advanced =>
              obtain ⟨record, fresh, past, closes, standsAfter, trailsAfter⟩ := advanced
              exact (induction _ goesOn (decodes.2 _) standsAfter trailsAfter).behind fresh past
                closes
  | @wait name duration next following realizes induction =>
      let call : WaitCall := ⟨name, duration⟩
      cases waited : before.wait name duration with
      | mk outcome after =>
          obtain ⟨middle, course, called⟩ := Invocation.wait_course stands.free call waited
          have taken := stands.waitTaken trails course called
          simp only [Workflow.run, waited]
          cases taken with
          | stopped _ stopped => exact stopped.run (next outcome)
          | advanced advanced =>
              obtain ⟨record, fresh, past, closes, standsAfter, trailsAfter⟩ := advanced
              exact (induction (decodes _) standsAfter trailsAfter).behind fresh past closes
  | log realizes induction => exact induction decodes (stands.logCall _ _) trails
  | observe realizes induction => exact induction _ (decodes _) stands.observe trails
  | advance realizes induction => exact induction decodes (stands.advance _) trails

end Durable
