import Durable.Proofs.CallTraces
import Durable.Proofs.OutlinedPass
import Durable.Proofs.StillClock

/-!
# Operations that wait

A pass over a log whose last operation waits recalls the operations before it, and comes to
it without recording or running anything.  A call that comes too early suspends the
invocation until the same time; one that comes in time takes the operation up again.
-/

namespace Durable

variable {V O : Type}

open Occurrence

namespace Workflow

/-- The code between the calls takes no time: only bodies move the clock. -/
def Prompt : Workflow V O → Prop
  | .done _ => True
  | .step _ _ _ _ next => ∀ outcome, (next outcome).Prompt
  | .wait _ _ next => ∀ outcome, (next outcome).Prompt
  | .log _ _ next => next.Prompt
  | .observe next => ∀ observation, (next observation).Prompt
  | .advance _ _ => False

end Workflow

theorem Invocation.step_clock_of_settled {before : Invocation V} {call : StepCall V}
    {record : Operation} (found : before.log.lookup? before.nextOrdinal = some record)
    (settled : record.Settled fun _ => call.config.semantics) :
    (before.step call.name call.config call.codec call.body).2.clock = before.clock := by
  apply before.step_clock_of_planned
  intro recorded number admitted planned
  exfalso
  rcases before.findRecord_cases .step call.name with
    ⟨first, known, refused⟩ | ⟨fresh, ⟨operation, foundHere, other, refused⟩ |
      ⟨sameRecord, foundHere, same, admittedHere⟩⟩
  · cases refused.symm.trans admitted
  · cases refused.symm.trans admitted
  · cases admittedHere.symm.trans admitted
    rw [found] at foundHere
    rcases StepPlan.ofRecord_eq_attempt planned with
      ⟨rfl, _⟩ | ⟨operation, rfl, ⟨pending, _⟩ | ⟨started, unguarded, _⟩⟩
    · cases foundHere
    · cases foundHere
      rcases settled with terminal | ⟨started, _⟩
      · rw [Operation.isTerminal_of_status pending] at terminal
        cases terminal
      · cases pending.symm.trans started
    · cases foundHere
      rcases settled with terminal | ⟨_, _, guarded⟩
      · rw [Operation.isTerminal_of_status started] at terminal
        cases terminal
      · cases unguarded.symm.trans guarded

namespace MadeCall

/-- The call has come to the last operation of its log, which is its own, and nothing was
recorded or run on the way. -/
structure Meets (made : MadeCall V) (front : List Operation) (last : Operation) : Prop where
  stands : made.before.Stands front [last]
  kind : last.kind = made.declaration.kind
  name : last.name = made.declaration.name
  fresh : Plan.declaredAt? front last.name = none
  isQuiet : Quiet made.before.occurrences

end MadeCall

namespace Invocation.Stands

variable {before after : Invocation V} {done rest : List Operation} {record : Operation}
  {following : Outline V}

/-- A step call that finds its record recalls the outcome: it takes no time, and records and
runs nothing. -/
theorem recallStep (stands : before.Stands done (record :: rest)) (call : StepCall V)
    {next : Except DurableError V → Outline V} {reply : Reply V}
    (fresh : Plan.declaredAt? done record.name = none)
    (closes : (Outline.step call.name call.config.semantics call.codec next).Closes record
      following)
    (stepped : before.step call.name call.config call.codec call.body = (reply, after))
    (isQuiet : Quiet before.occurrences) :
    ∃ outcome, reply = .returned outcome ∧ haltOf? outcome = none ∧ following = next outcome ∧
      after.Stands (done ++ [record]) rest ∧ Quiet after.occurrences ∧
      after.clock = before.clock := by
  obtain ⟨middle, course, called⟩ := step_course stands.free call stepped
  obtain ⟨middleQuiet, outcome, rfl, goesOn, same, standsAfter⟩ :=
    stands.replay fresh closes course called
  have sameClock := step_clock_of_settled stands.found closes.settled
  rw [stepped] at sameClock
  have quietAfter := called.quiet isQuiet
    (middleQuiet.append (Reply.returning_quiet _ call.name after))
  exact ⟨outcome, rfl, goesOn, same, standsAfter, quietAfter, sameClock⟩

theorem recallWait (stands : before.Stands done (record :: rest)) (call : WaitCall)
    {next : Outline V} {outcome : Except DurableError Unit}
    (fresh : Plan.declaredAt? done record.name = none)
    (closes : (Outline.wait call.name next).Closes record following)
    (waited : before.wait call.name call.duration = (outcome, after))
    (isQuiet : Quiet before.occurrences) :
    outcome = .ok () ∧ following = next ∧ after.Stands (done ++ [record]) rest ∧
      Quiet after.occurrences ∧ after.clock = before.clock := by
  obtain ⟨middle, course, called⟩ := wait_course stands.free call waited
  obtain ⟨middleQuiet, rfl, same, standsAfter⟩ := stands.replayWait fresh closes course called
  have sameClock := before.wait_clock call.name call.duration
  rw [waited] at sameClock
  have quietAfter := called.quiet isQuiet
    (middleQuiet.append (emit_quiet after (.waitReturned call.name (.ok ()) _) rfl rfl))
  exact ⟨rfl, same, standsAfter, quietAfter, sameClock⟩

end Invocation.Stands

/-- A pass over the records of an earlier one comes to the last of them. -/
theorem Workflow.Realizes.meets {workflow : Workflow V O} {outline : Outline V}
    (realizes : workflow.Realizes outline) {done front : List Operation} {last : Operation}
    {before : Invocation V} (stands : before.Stands done (front ++ [last]))
    (trails : outline.Trails done (front ++ [last])) (isQuiet : Quiet before.occurrences) :
    ∃ made ∈ workflow.calls before, made.Meets (done ++ front) last ∧
      (workflow.Prompt → made.before.clock = before.clock) := by
  induction realizes generalizing before done front with
  | done outcome =>
      generalize ahead : front ++ [last] = rest at trails
      cases trails with
      | ahead => simp at ahead
      | closed fresh past closes trails => cases closes
      | opened fresh leftOpen => cases leftOpen
  | @step name config codec body next following realizes induction =>
      let call : StepCall V := ⟨name, config, codec, body⟩
      cases front with
      | nil =>
          obtain ⟨kind, named⟩ := trails.fits_step last rfl
          refine ⟨⟨before, .step call⟩, by simp [calls, call], ?_, fun _ => rfl⟩
          rw [List.append_nil]
          exact ⟨stands, kind, named, trails.fresh, isQuiet⟩
      | cons record front =>
          obtain ⟨_, fresh, closes, trailsAfter⟩ := trails.closes (by simp)
          cases stepped : before.step name config codec body with
          | mk reply after =>
              obtain ⟨outcome, rfl, goesOn, rfl, standsAfter, quietAfter, sameClock⟩ :=
                stands.recallStep call fresh closes stepped isQuiet
              obtain ⟨made, member, meets, onTime⟩ :=
                induction outcome goesOn standsAfter trailsAfter quietAfter
              rw [List.append_assoc, List.singleton_append] at meets
              refine ⟨made, ?_, meets, ?_⟩
              · simp only [calls, stepped]
                exact List.mem_cons_of_mem _ member
              · intro prompt
                exact (onTime (prompt outcome)).trans sameClock
  | @wait name duration next following realizes induction =>
      let call : WaitCall := ⟨name, duration⟩
      cases front with
      | nil =>
          obtain ⟨kind, named⟩ := trails.fits_wait last rfl
          refine ⟨⟨before, .wait call⟩, by simp [calls, call], ?_, fun _ => rfl⟩
          rw [List.append_nil]
          exact ⟨stands, kind, named, trails.fresh, isQuiet⟩
      | cons record front =>
          obtain ⟨_, fresh, closes, trailsAfter⟩ := trails.closes (by simp)
          cases waited : before.wait name duration with
          | mk outcome after =>
              obtain ⟨rfl, rfl, standsAfter, quietAfter, sameClock⟩ :=
                stands.recallWait call fresh closes waited isQuiet
              obtain ⟨made, member, meets, onTime⟩ := induction standsAfter trailsAfter quietAfter
              rw [List.append_assoc, List.singleton_append] at meets
              refine ⟨made, ?_, meets, ?_⟩
              · simp only [calls, waited]
                exact List.mem_cons_of_mem _ member
              · intro prompt
                exact (onTime (prompt (.ok ()))).trans sameClock
  | @log level message next outline realizes induction =>
      obtain ⟨chatter, logs, extension, _⟩ := Invocation.logCall_course before level message
      have sameClock := before.logCall_clock level message
      have quietAfter : Quiet (before.logCall level message).occurrences := by
        rw [extension.occurrences]
        exact isQuiet.append logs.quiet
      obtain ⟨made, member, meets, onTime⟩ :=
        induction (stands.logCall level message) trails quietAfter
      exact ⟨made, member, meets, fun prompt => (onTime prompt).trans sameClock⟩
  | @observe next outline realizes induction =>
      have quietAfter : Quiet (before.emit (.observed before.observation)).occurrences :=
        isQuiet.append (Invocation.emit_quiet before (.observed before.observation) rfl rfl)
      obtain ⟨made, member, meets, onTime⟩ :=
        induction before.observation stands.observe trails quietAfter
      exact ⟨made, member, meets, fun prompt => onTime (prompt before.observation)⟩
  | @advance duration next outline realizes induction =>
      obtain ⟨made, member, meets, _⟩ := induction (stands.advance duration) trails isQuiet
      exact ⟨made, member, meets, fun prompt => prompt.elim⟩

namespace MadeCall

/-- A call that comes in time appends a record of the operation, which is not put off again
without a further attempt, unless the append fails or the process dies in that attempt. -/
inductive TakesUp (made : MadeCall V) (last : Operation) : Prop where
  | recorded (record : Operation) (returns : made.reply ≠ .crashed)
      (latest : History.latest? (records made.emitted) last.ordinal = some record)
      (behind : last.ordinal < made.after.nextOrdinal)
      (further : record.status = .pending → last.attempt < record.attempt)
  | failed {reading : Instant} {record : Operation} {error : StoreError}
      (lost : ⟨reading, .appendFailed record error⟩ ∈ made.emitted)
  | crashed {reading : Instant} {semantics : StepSemantics} {context : StepContext}
      {replaying : Bool} (crashes : made.reply = .crashed)
      (begun : ⟨reading, .bodyBegun last.ordinal semantics context replaying⟩ ∈ made.emitted)
      (further : last.attempt < context.attempt)

namespace Meets

variable {made : MadeCall V} {front : List Operation} {last : Operation} {wake : Instant}
  (meets : made.Meets front last)

include meets

theorem step {call : StepCall V} (declared : made.declaration = .step call) :
    ∃ reply middle, (made.reply = .crashed ↔ reply = .crashed) ∧
      PlanCourse made.before call
        (.ofRecord (some last) call.config.semantics made.before.now) reply middle ∧
      Invocation.Called made.before made.after .step call.name
        (middle ++ reply.returning call.name made.after) reply.halt? := by
  obtain ⟨reply, middle, course, called, replied⟩ := step_called meets.stands.free declared
  have kind := meets.kind
  have name := meets.name
  rw [declared] at kind name
  have fits : ∀ record, [last].head? = some record →
      record.kind = .step ∧ record.name = call.name := by
    intro record found
    cases found
    exact ⟨kind, name⟩
  rcases meets.stands.step course fits with ⟨first, known, _⟩ | ⟨_, planned⟩
  · have fresh := meets.fresh
    rw [name] at fresh
    cases fresh.symm.trans known
  · exact ⟨reply, middle, by rw [replied, Reply.map_eq_crashed], planned, called⟩

theorem wait {call : WaitCall} (declared : made.declaration = .wait call) :
    ∃ outcome middle, made.reply ≠ .crashed ∧
      TimerCourse made.before call (.ofRecord (some last) made.before.now) outcome middle ∧
      Invocation.Called made.before made.after .timer call.name
        (middle ++ [⟨made.after.now, .waitReturned call.name outcome made.after.isReplaying⟩])
        (Invocation.haltOf? outcome) := by
  obtain ⟨outcome, middle, course, called, replied⟩ := wait_called meets.stands.free declared
  have kind := meets.kind
  have name := meets.name
  rw [declared] at kind name
  have fits : ∀ record, [last].head? = some record →
      record.kind = .timer ∧ record.name = call.name := by
    intro record found
    cases found
    exact ⟨kind, name⟩
  rcases meets.stands.wait course fits with ⟨first, known, _⟩ | ⟨_, planned⟩
  · have fresh := meets.fresh
    rw [name] at fresh
    cases fresh.symm.trans known
  · exact ⟨outcome, middle, by simp [replied], planned, called⟩

theorem ordinal : last.ordinal = made.before.nextOrdinal :=
  OperationLog.lookup?_ordinal meets.stands.found

theorem early (waits : last.Waits wake) (notDue : ¬wake ≤ made.before.now) :
    made.reply ≠ .crashed ∧ made.after.halt = some (.suspended wake) ∧
      made.after.log.Holds (front ++ [last]) ∧ Quiet made.after.occurrences := by
  cases declared : made.declaration with
  | step call =>
      obtain ⟨reply, middle, crashes, planned, called⟩ := meets.step declared
      rw [waits.stepPlan, if_neg notDue] at planned
      cases planned
      refine ⟨?_, called.halt, meets.stands.unwritten called rfl, ?_⟩
      · rw [ne_eq, crashes]
        simp
      · exact called.quiet meets.isQuiet ⟨rfl, rfl⟩
  | wait call =>
      obtain ⟨outcome, middle, returns, planned, called⟩ := meets.wait declared
      rw [waits.waitPlan, if_neg notDue] at planned
      cases planned
      refine ⟨returns, called.halt, meets.stands.unwritten called rfl, ?_⟩
      exact called.quiet meets.isQuiet ⟨rfl, rfl⟩

/-- A call that comes in time takes the operation up. -/
theorem due (waits : last.Waits wake) (isDue : wake ≤ made.before.now) : made.TakesUp last := by
  cases declared : made.declaration with
  | wait call =>
      obtain ⟨outcome, middle, returns, planned, called⟩ := meets.wait declared
      have emitted := emitted_of_called called
      rw [waits.waitPlan, if_pos isDue] at planned
      cases planned with
      | unelapsed timer error faulty =>
          have lost : ⟨made.before.now, .appendFailed last.elapsed error⟩ ∈ made.emitted := by
            simp [emitted]
          exact .failed lost
      | elapsed timer diagnostic =>
          have only : records made.emitted = [last.elapsed] := by
            rw [emitted]
            rfl
          refine .recorded last.elapsed returns ?_ ?_ ?_
          · rw [only, ← List.nil_append [_], History.latest?_append_singleton]
            exact if_pos rfl
          · rw [called.nextOrdinal, meets.ordinal]
            exact Nat.lt_succ_self _
          · intro pending
            cases pending
  | step call =>
      obtain ⟨reply, middle, crashes, planned, called⟩ := meets.step declared
      have emitted := emitted_of_called called
      rw [waits.stepPlan, if_pos isDue] at planned
      cases planned with
      | attempted number unfinished notDecreasing course =>
          cases course with
          | unmarked error guarded faulty =>
              have lost : ⟨made.before.now, .appendFailed ((call.base made.before).withState
                  (.started (last.attempt + 1))) error⟩ ∈ made.emitted := by
                simp [emitted]
              exact .failed lost
          | lost chatter logs reading update outcome closes error faulty =>
              have lost : ⟨reading, .appendFailed ((call.base made.before).withState update)
                  error⟩ ∈ made.emitted := by
                simp [emitted]
              exact .failed lost
          | crashed chatter logs dies =>
              have begun : ⟨made.before.now, .bodyBegun last.ordinal call.config.semantics
                  (call.context made.before (last.attempt + 1)) false⟩ ∈ made.emitted := by
                simp [emitted, StepCall.opening, meets.ordinal]
              exact .crashed (crashes.mpr rfl) begun (Nat.lt_succ_self _)
          | closed chatter logs reading update outcome closes diagnostic =>
              have latest := call.latest?_closing made.before (last.attempt + 1) logs reading
                update diagnostic
              have returning := (Reply.returned outcome).returning_quiet call.name made.after
              refine .recorded ((call.base made.before).withState update) ?_ ?_ ?_ ?_
              · rw [ne_eq, crashes]
                simp
              · rw [emitted, meets.ordinal, records_cons, returning.records_append]
                exact latest
              · rw [called.nextOrdinal, meets.ordinal]
                exact Nat.lt_succ_self _
              · intro _
                have next : update.attempt = last.attempt + 1 :=
                  BodyOutcome.closing?_attempt closes
                exact Nat.lt_of_lt_of_eq (Nat.lt_succ_self _) next.symm

end Meets

end MadeCall

end Durable
