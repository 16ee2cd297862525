import Durable.Proofs.NarratedCalls
import Durable.Proofs.Recall

/-!
# Passes that follow a narrative

A pass over the records that an execution has left along its narrative goes on with the
reference log where the earlier passes have stopped: it tells it to its end, or it is
suspended at an operation behind which nothing has been logged.
-/

namespace Durable

variable {V O : Type}

open Occurrence

/-- What is left of a pass after it was halted forwards what the narrative logs when every
call returns the error of the halt. -/
theorem Workflow.Narrates.run_halted {workflow : Workflow V O} {narrative : Narrative V O}
    (narrates : workflow.Narrates narrative) {before : Invocation V} {halt : Halt}
    (halted : before.halt = some halt) (attuned : before.Attuned) :
    ∃ outcome final, workflow.run before = (.returned outcome, final) ∧
      Invocation.Idle before final ∧
      logEntries final.occurrences = logEntries before.occurrences ++
        if before.log.contains before.nextOrdinal then []
        else (narrative.remarksAfter halt.toError).map (.ofRemark before.executionId none) := by
  induction narrates generalizing before with
  | done outcome => exact ⟨outcome, before, rfl, .refl before, by simp [Narrative.remarksAfter]⟩
  | @step name config codec body next task following carries speaks narrates induction =>
      obtain ⟨middle, stepped, idle⟩ :=
        Invocation.step_stays_halted halted ⟨name, config, codec, body⟩
      obtain ⟨stillAttuned, heard⟩ := attuned.step _ stepped
      obtain ⟨outcome, final, ran, rest, entries⟩ :=
        induction (.error halt.toError) (idle.place.halt.trans halted) stillAttuned
      refine ⟨outcome, final, by simp only [Workflow.run, stepped, ran], idle.trans rest, ?_⟩
      rw [entries, heard.silent idle.bodies, idle.log, idle.place.nextOrdinal,
        heard.executionId]
      rfl
  | @wait name duration next following narrates induction =>
      obtain ⟨middle, waited, idle⟩ := Invocation.wait_stays_halted halted ⟨name, duration⟩
      obtain ⟨stillAttuned, heard⟩ := attuned.wait _ waited
      obtain ⟨outcome, final, ran, rest, entries⟩ :=
        induction (.error halt.toError) (idle.place.halt.trans halted) stillAttuned
      refine ⟨outcome, final, by simp only [Workflow.run, waited, ran], idle.trans rest, ?_⟩
      have silent := (heard fun _ => ⟨[], .crash⟩).silent idle.bodies
      rw [entries, silent, idle.log, idle.place.nextOrdinal,
        (heard fun _ => ⟨[], .crash⟩).executionId]
      rfl
  | @log level message next following narrates induction =>
      have idle := Invocation.logCall_idle before level message
      obtain ⟨stillAttuned, here⟩ := attuned.logCall level message
      obtain ⟨outcome, final, ran, rest, entries⟩ :=
        induction (idle.place.halt.trans halted) stillAttuned
      refine ⟨outcome, final, ran, idle.trans rest, ?_⟩
      have executionId : (before.logCall level message).executionId = before.executionId :=
        congrArg OperationLog.executionId idle.log
      rw [entries, here, idle.log, idle.place.nextOrdinal, executionId]
      split <;> simp [Narrative.remarksAfter]
  | observe narrates induction =>
      have idle := Invocation.emit_idle before (.observed before.observation) rfl rfl
      obtain ⟨outcome, final, ran, rest, entries⟩ :=
        induction before.observation (idle.place.halt.trans halted) attuned.observe
      rw [before.observe_entries] at entries
      exact ⟨outcome, final, ran, idle.trans rest, entries⟩
  | @advance duration next following narrates induction =>
      have idle := Invocation.advance_idle before duration
      obtain ⟨outcome, final, ran, rest, entries⟩ :=
        induction (idle.place.halt.trans halted) (attuned.advance duration)
      exact ⟨outcome, final, ran, idle.trans rest, entries⟩

theorem Workflow.Carries.returns {call : StepCall V} {task : Task V}
    (carries : Workflow.Carries False call task) {before : Invocation V} {reply : Reply V}
    {middle : List (Occurrence V)} (course : StepCourse before call reply middle) :
    ∃ outcome, reply = .returned outcome := by
  cases course with
  | duplicate first known => exact ⟨_, rfl⟩
  | mismatched operation fresh found other => exact ⟨_, rfl⟩
  | planned recorded fresh found same course =>
      generalize StepPlan.ofRecord recorded call.config.semantics before.now = plan at course
      cases course with
      | attempted number unfinished notDecreasing course =>
          cases course with
          | crashed chatter logs dies => exact (carries.mayDie_of_crash dies).elim
          | unmarked | lost | closed => exact ⟨_, rfl⟩
      | replay | fail | reported | annotated | unannotated => exact ⟨_, rfl⟩

namespace Narrative

variable {executionId : String} {earlier told : List LogEntry}
  {narrative current following : Narrative V O} {done rest : List Operation}
  {before : Invocation V}

/-- The invocation at the end of a pass along the narrative: it has told the reference log to
its end, or it was suspended on the way. -/
inductive PassRecited (executionId : String) (earlier : List LogEntry)
    (narrative : Narrative V O) (final : Invocation V) : PassEnd O → Prop where
  | told (outcome : Except DurableError O) (lasts : Lasts final.halt)
      (tells : narrative.Tells executionId [] (earlier ++ logEntries final.occurrences)) :
      PassRecited executionId earlier narrative final (.returned outcome)
  | interrupted (outcome : Except DurableError O) {wake : Instant}
      (interrupted : narrative.Interrupted executionId earlier wake final) :
      PassRecited executionId earlier narrative final (.returned outcome)

section Halted

variable {workflow : Workflow V O} (narrates : workflow.Narrates following)
  (attuned : before.Attuned)

include narrates attuned

theorem Interrupted.run {wake : Instant}
    (interrupted : narrative.Interrupted executionId earlier wake before)
    (hushed : following.remarksAfter (.suspended wake) = []) :
    narrative.PassRecited executionId earlier (workflow.run before).2
      (workflow.run before).1 := by
  obtain ⟨outcome, final, ran, idle, entries⟩ := narrates.run_halted interrupted.halted attuned
  obtain ⟨operations, views, recited⟩ := interrupted.recited
  have silent : logEntries final.occurrences = logEntries before.occurrences := by
    rw [entries, Halt.toError, hushed]
    simp
  rw [← idle.log] at views
  rw [← silent] at recited
  rw [ran]
  exact .interrupted outcome
    ⟨idle.place.halt.trans interrupted.halted, operations, views, recited⟩

theorem Refused.run {error : DurableError}
    (refused : Refused executionId earlier told error before)
    (tells : narrative.Tells executionId []
      (told ++ (following.remarksAfter error).map (.ofRemark executionId none))) :
    narrative.PassRecited executionId earlier (workflow.run before).2
      (workflow.run before).1 := by
  obtain ⟨outcome, final, ran, idle, entries⟩ := narrates.run_halted refused.halted attuned
  rw [refused.live, refused.execution] at entries
  rw [ran]
  refine .told outcome ?_ ?_
  · rw [idle.place.halt, refused.halted]
    exact .fatal error
  · rw [entries, ← List.append_assoc, refused.forwarded]
    exact tells

end Halted

/-- A pass along what is left of the narrative. -/
theorem Reciting.run {workflow : Workflow V O} (narrates : workflow.Narrates current)
    {medium : Medium} (discreet : current.Discreet) (lossless : current.plan.Lossless medium)
    (reliable : before.store.faults = .none)
    (reciting : narrative.Reciting executionId earlier current done rest told before) :
    narrative.PassRecited executionId earlier (workflow.run before).2
      (workflow.run before).1 := by
  induction narrates generalizing before done rest told with
  | done outcome =>
      have none : rest = [] := by
        cases reciting.aligned.trails
        rfl
      obtain ⟨log, recited, forwarded⟩ := reciting.forwarded
      rw [none] at recited
      obtain rfl := recited.of_nothing
      have tells := reciting.reference _ (.done outcome done)
      refine .told outcome ?_ ?_
      · rw [Workflow.run, reciting.aligned.free]
        exact .none
      · rw [← forwarded] at tells
        exact tells
  | @step name config codec body next task following carries speaks narrates induction =>
      let call : StepCall V := ⟨name, config, codec, body⟩
      cases stepped : before.step name config codec body with
      | mk reply after =>
          obtain ⟨middle, course, called⟩ :=
            Invocation.step_course reciting.aligned.free call stepped
          obtain ⟨outcome, rfl⟩ := carries.returns course
          obtain ⟨attuned, heard⟩ := reciting.attuned.step call stepped
          have recited := reciting.step carries called attuned heard speaks
            (fun value payload encoded => (lossless.1 value payload encoded).2) reliable course
          simp only [Workflow.run, stepped]
          cases recited with
          | goesOn closure reciting =>
              have goesOn := Plan.Aligned.haltOf?_closure closure
              exact induction _ (discreet.2 _ goesOn) (lossless.2 _)
                (called.extension.faults.trans reliable) reciting
          | interrupted interrupted => exact interrupted.run (narrates _) attuned (discreet.1 _)
          | refused known refused =>
              exact refused.run (narrates _) attuned (reciting.reference _ (.stepTwice known))
  | @wait name duration next following narrates induction =>
      let call : WaitCall := ⟨name, duration⟩
      cases waited : before.wait name duration with
      | mk outcome after =>
          obtain ⟨middle, course, called⟩ :=
            Invocation.wait_course reciting.aligned.free call waited
          obtain ⟨attuned, heard⟩ := reciting.attuned.wait call waited
          have recited := reciting.wait rfl called attuned (heard fun _ => ⟨[], .crash⟩) reliable
            course
          simp only [Workflow.run, waited]
          cases recited with
          | goesOn reciting =>
              exact induction _ (discreet.2 _ rfl) (lossless _)
                (called.extension.faults.trans reliable) reciting
          | interrupted interrupted => exact interrupted.run (narrates _) attuned (discreet.1 _)
          | refused known refused =>
              exact refused.run (narrates _) attuned (reciting.reference _ (.waitTwice known))
  | @log level message next following narrates induction =>
      have store := (Invocation.logCall_idle before level message).store
      exact induction discreet lossless (by rw [store]; exact reliable) reciting.logCall
  | observe narrates induction =>
      exact induction before.observation discreet lossless reliable
        (reciting.aside reciting.aligned.observe reciting.attuned.observe rfl
          before.observe_entries)
  | @advance duration next following narrates induction =>
      exact induction discreet lossless reliable
        (reciting.aside (reciting.aligned.advance duration) (reciting.attuned.advance duration)
          rfl rfl)

end Narrative

end Durable
