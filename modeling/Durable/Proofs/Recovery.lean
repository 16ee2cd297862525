import Durable.Proofs.Ledger
import Durable.Proofs.Transparency

/-!
# Crash recovery

When all steps of a deterministic workflow run at least once, failing appends and
reads, and crashes, cost nothing but repetition: the terminal results are those of
the reference evaluation, and an attempt whose outcome was not recorded is begun
again under its number.  The ledger counts the records of each ordinal: an operation
that is still open has as many of them as attempts.
-/

namespace Durable

variable {V O : Type}

namespace Occurrence

/-- How many records of the ordinal were appended. -/
def recordCount (trace : List (Occurrence V)) (ordinal : Nat) : Nat :=
  (records trace).countP (·.ordinal == ordinal)

theorem Quiet.recordCount {emitted : List (Occurrence V)} (isQuiet : Quiet emitted)
    (trace : List (Occurrence V)) (ordinal : Nat) :
    recordCount (trace ++ emitted) ordinal = recordCount trace ordinal := by
  simp [Occurrence.recordCount, isQuiet.records]

theorem recordCount_appended (trace : List (Occurrence V)) (reading : Instant)
    (operation : Operation) (ordinal : Nat) :
    recordCount (trace ++ [⟨reading, .appended operation⟩]) ordinal =
      recordCount trace ordinal + if operation.ordinal = ordinal then 1 else 0 := by
  simp [recordCount, Effect.record?, List.countP_append, List.countP_cons]

/-- A body begins under the number that follows the recorded attempts. -/
def Numbered (before : List (Occurrence V)) (occurrence : Occurrence V) : Prop :=
  ∀ ordinal attempt, occurrence.effect.begunAttempt? = some (ordinal, attempt) →
    attempt = recordCount before ordinal + 1

theorem numbered_of_not_isBody {before : List (Occurrence V)} {occurrence : Occurrence V}
    (idle : occurrence.effect.isBody = false) : Numbered before occurrence := by
  intro ordinal attempt begun
  simp [Effect.begunAttempt?_of_not_isBody idle] at begun

end Occurrence

open Occurrence

/-- What a trace of attempts without markers says about the latest records: an
operation without a record was never recorded, and one that is open has been attempted
as often as it was recorded. -/
structure Counted (trace : List (Occurrence V)) (latest : Nat → Option Operation) : Prop where
  numbered : Each Numbered trace
  absent : ∀ ordinal, latest ordinal = none → recordCount trace ordinal = 0
  unfinished : ∀ ordinal current, latest ordinal = some current →
    current.isTerminal = false →
    current.status = .pending ∧ current.attempt = recordCount trace ordinal

namespace Counted

variable {trace : List (Occurrence V)} {latest : Nat → Option Operation}

theorem reread {read : Nat → Option Operation} (counted : Counted trace latest)
    (same : ∀ ordinal, Option.Rel Operation.SameState (latest ordinal) (read ordinal)) :
    Counted trace read := by
  refine ⟨counted.numbered, ?_, ?_⟩
  · intro ordinal missing
    apply counted.absent
    have related := same ordinal
    rw [missing] at related
    generalize latest ordinal = current? at related ⊢
    cases related
    rfl
  · intro ordinal current found unclosed
    have related := same ordinal
    rw [found] at related
    cases written? : latest ordinal with
    | none =>
        rw [written?] at related
        cases related
    | some written =>
        rw [written?] at related
        cases related with
        | some state =>
            rw [Operation.isTerminal, state.2] at unclosed
            rw [state.1, state.2]
            exact counted.unfinished ordinal written written? unclosed

theorem quiet (counted : Counted trace latest) {emitted : List (Occurrence V)}
    (isQuiet : Quiet emitted) : Counted (trace ++ emitted) latest := by
  constructor
  · exact Each.append.mpr ⟨counted.numbered,
      .of_bodies isQuiet.bodies fun _ _ => numbered_of_not_isBody⟩
  · intro ordinal missing
    rw [isQuiet.recordCount]
    exact counted.absent ordinal missing
  · intro ordinal current found unclosed
    rw [isQuiet.recordCount]
    exact counted.unfinished ordinal current found unclosed

theorem diagnosed (counted : Counted trace latest) (reading : Instant)
    (diagnostic : Diagnostic) : Counted (trace ++ [⟨reading, .diagnosed diagnostic⟩]) latest :=
  counted.quiet ⟨rfl, rfl⟩

/-- A record that closes its operation, or that counts one attempt more. -/
theorem insert {log : OperationLog} (counted : Counted trace log.lookup?) (reading : Instant)
    {operation : Operation}
    (counts : operation.isTerminal = true ∨ (operation.status = .pending ∧
      operation.attempt = recordCount trace operation.ordinal + 1)) :
    Counted (trace ++ [⟨reading, .appended operation⟩]) (log.insert operation).lookup? := by
  constructor
  · exact Each.append.mpr ⟨counted.numbered,
      .of_bodies rfl fun _ _ => numbered_of_not_isBody⟩
  · intro ordinal missing
    rw [OperationLog.lookup?_insert] at missing
    rw [recordCount_appended]
    by_cases here : operation.ordinal = ordinal
    · simp [here] at missing
    · rw [if_neg here] at missing ⊢
      exact counted.absent ordinal missing
  · intro ordinal current found unclosed
    rw [OperationLog.lookup?_insert] at found
    rw [recordCount_appended]
    by_cases here : operation.ordinal = ordinal
    · rw [if_pos here, Option.some.injEq] at found
      subst found
      rcases counts with terminal | ⟨pending, attempt⟩
      · simp [terminal] at unclosed
      · rw [if_pos here, ← here]
        exact ⟨pending, attempt⟩
    · rw [if_neg here] at found ⊢
      exact counted.unfinished ordinal current found unclosed

theorem body (counted : Counted trace latest) (reading : Instant) {ordinal : Nat}
    {semantics : StepSemantics} {context : StepContext} {replaying : Bool}
    (next : context.attempt = recordCount trace ordinal + 1) :
    Counted (trace ++ [⟨reading, .bodyBegun ordinal semantics context replaying⟩]) latest := by
  have silent : ∀ other, recordCount
      (trace ++ [⟨reading, .bodyBegun ordinal semantics context replaying⟩]) other =
      recordCount trace other := by
    intro other
    simp [recordCount, Effect.record?]
  constructor
  · refine Each.append.mpr ⟨counted.numbered, Each.cons.mpr ⟨?_, .nil⟩⟩
    intro other attempt begun
    cases begun
    rw [List.append_nil]
    exact next
  · intro other missing
    rw [silent]
    exact counted.absent other missing
  · intro other current found unclosed
    rw [silent]
    exact counted.unfinished other current found unclosed

variable {invocation : Invocation V} {call : StepCall V}

theorem planned (counted : Counted trace invocation.log.lookup?) {number : Nat}
    (plans : StepPlan.ofRecord (invocation.log.lookup? invocation.nextOrdinal) .atLeastOnce
      invocation.now = .attempt number) :
    number = recordCount trace invocation.nextOrdinal + 1 := by
  rcases StepPlan.ofRecord_eq_attempt plans with ⟨absent, rfl⟩ |
    ⟨operation, found, ⟨pending, _, rfl⟩ | ⟨started, _, rfl⟩⟩
  · rw [counted.absent _ absent]
  · have unclosed : operation.isTerminal = false :=
      Operation.isTerminal_of_status pending
    rw [(counted.unfinished _ operation found unclosed).2]
  · have unclosed : operation.isTerminal = false :=
      Operation.isTerminal_of_status started
    have pending := (counted.unfinished _ operation found unclosed).1
    simp [started] at pending

theorem attempt (counted : Counted trace invocation.log.lookup?) {number : Nat}
    {reply : Reply V} {emitted : List (Occurrence V)}
    (unguarded : call.config.semantics = .atLeastOnce)
    (next : number = recordCount trace invocation.nextOrdinal + 1)
    (course : AttemptCourse invocation call number reply emitted) :
    Counted (trace ++ emitted) (invocation.log.insertAll (records emitted)).lookup? := by
  have opening : call.opening invocation number = [⟨invocation.now, .bodyBegun
      invocation.nextOrdinal .atLeastOnce (call.context invocation number) false⟩] := by
    simp [StepCall.opening, marker, unguarded]
  have opened : Counted (trace ++ call.opening invocation number) invocation.log.lookup? := by
    rw [opening]
    exact counted.body invocation.now next
  have noRecord := StepCall.opening_records_of_atLeastOnce unguarded invocation number
  cases course with
  | unmarked error guarded faulty => simp [unguarded] at guarded
  | crashed chatter logs dies =>
      rw [← List.append_assoc, records_append, noRecord, logs.records]
      exact opened.quiet ⟨logs.records, logs.bodies⟩
  | lost chatter logs reading update outcome closes error faulty =>
      have tail : Quiet (chatter ++ [(⟨reading, .appendFailed
          ((call.base invocation).withState update) error⟩ : Occurrence V)]) :=
        ⟨by simp [logs.records, Effect.record?], by simp [logs.bodies, Effect.isBody]⟩
      rw [← List.append_assoc, records_append, noRecord, tail.records]
      exact opened.quiet tail
  | closed chatter logs reading update outcome closes diagnostic =>
      have ordinal : ((call.base invocation).withState update).ordinal =
          invocation.nextOrdinal :=
        Invocation.current_ordinal invocation (.step invocation.nextOrdinal call.name)
      have spoken : Counted (trace ++ call.opening invocation number ++ chatter)
          invocation.log.lookup? := opened.quiet ⟨logs.records, logs.bodies⟩
      have sameCount : recordCount (trace ++ call.opening invocation number ++ chatter)
          invocation.nextOrdinal = recordCount trace invocation.nextOrdinal := by
        simp [recordCount, noRecord, logs.records]
      have counts : ((call.base invocation).withState update).isTerminal = true ∨
          (update.status = .pending ∧ update.attempt =
            recordCount (trace ++ call.opening invocation number ++ chatter)
              ((call.base invocation).withState update).ordinal + 1) := by
        rw [ordinal, sameCount, ← next]
        exact (BodyOutcome.closing?_status closes).imp id
          fun pending => ⟨pending, BodyOutcome.closing?_attempt closes⟩
      have diagnosed := (spoken.insert reading counts).diagnosed reading diagnostic
      simpa [noRecord, logs.records, Effect.record?] using diagnosed

theorem step (counted : Counted trace invocation.log.lookup?) {reply : Reply V}
    {middle : List (Occurrence V)} (unguarded : call.config.semantics = .atLeastOnce)
    (course : StepCourse invocation call reply middle) :
    Counted (trace ++ middle) (invocation.log.insertAll (records middle)).lookup? := by
  cases course with
  | duplicate first known => exact counted.quiet ⟨rfl, rfl⟩
  | mismatched operation fresh found other => exact counted.quiet ⟨rfl, rfl⟩
  | planned recorded fresh found same course =>
      rw [← found, unguarded] at course
      generalize plans : StepPlan.ofRecord _ _ _ = plan at course
      cases course with
      | replay operation => exact counted.quiet ⟨rfl, rfl⟩
      | fail error => exact counted.quiet ⟨rfl, rfl⟩
      | reported operation noted => exact counted.quiet ⟨rfl, rfl⟩
      | annotated operation unnoted =>
          have guarded := (StepPlan.ofRecord_eq_interrupt plans).2.2
          simp at guarded
      | unannotated operation unnoted error faulty => exact counted.quiet ⟨rfl, rfl⟩
      | attempted number unfinished notDecreasing course =>
          exact counted.attempt unguarded (counted.planned plans) course

/-- Every course of a wait call: a timer is recorded for the first time as pending. -/
theorem wait (counted : Counted trace invocation.log.lookup?) {wait : WaitCall}
    {outcome : Except DurableError Unit} {middle : List (Occurrence V)}
    (course : WaitCourse invocation wait outcome middle) :
    Counted (trace ++ middle) (invocation.log.insertAll (records middle)).lookup? := by
  cases course with
  | duplicate first known => exact counted.quiet ⟨rfl, rfl⟩
  | mismatched operation fresh found other => exact counted.quiet ⟨rfl, rfl⟩
  | planned recorded fresh found same course =>
      generalize plans : WaitPlan.ofRecord recorded invocation.now = plan at course
      cases course with
      | pass => exact counted.quiet ⟨rfl, rfl⟩
      | fail error => exact counted.quiet ⟨rfl, rfl⟩
      | unelapsed timer error faulty => exact counted.quiet ⟨rfl, rfl⟩
      | lost written error faulty => exact counted.quiet ⟨rfl, rfl⟩
      | elapsed timer diagnostic =>
          have written := counted.insert invocation.now (.inl (rfl : timer.elapsed.isTerminal = _))
          have diagnosed := written.diagnosed invocation.now diagnostic
          simpa [Effect.record?] using diagnosed
      | passed due =>
          have written := counted.insert invocation.now
            (.inl (rfl : (wait.timer invocation).elapsed.isTerminal = _))
          simpa [Effect.record?] using written
      | started notDue diagnostic =>
          have absent : invocation.log.lookup? invocation.nextOrdinal = none :=
            found.trans (WaitPlan.ofRecord_eq_start plans)
          have first : (wait.timer invocation).attempt =
              recordCount trace (wait.timer invocation).ordinal + 1 := by
            have unrecorded : recordCount trace (wait.timer invocation).ordinal = 0 :=
              counted.absent _ absent
            rw [unrecorded]
            rfl
          have written := counted.insert invocation.now (.inr ⟨rfl, first⟩)
          have diagnosed := written.diagnosed invocation.now diagnostic
          simpa [Effect.record?] using diagnosed

theorem ledger : Ledger (fun call : StepCall V => call.config.semantics = .atLeastOnce)
    Counted where
  quiet counted isQuiet := counted.quiet isQuiet
  step unguarded counted course := counted.step unguarded course
  wait counted course := counted.wait course
  reread counted same := counted.reread same

end Counted

/-- What a step call does when so many attempts of its operation have been recorded: it
begins the next one and records it under its number, if at all, unless its name was
declared before, its operation is closed, or the retry is not due yet. -/
inductive Resumes (before after : Invocation V) (call : StepCall V) (attempts : Nat) : Prop where
  | attempted (recorded : List Operation)
      (begins : bodies after.occurrences = bodies before.occurrences
        ++ [⟨before.now, .bodyBegun before.nextOrdinal call.config.semantics
          (call.context before (attempts + 1)) false⟩])
      (leaves : records after.occurrences = records before.occurrences ++ recorded)
      (counts : recorded = [] ∨ ∃ record, recorded = [record] ∧
        record.ordinal = before.nextOrdinal ∧ record.attempt = attempts + 1)
  | refused (idle : bodies after.occurrences = bodies before.occurrences) (first : Nat)
      (known : before.declaredAt? call.name = some first)
  | settled (idle : bodies after.occurrences = bodies before.occurrences)
      (operation : Operation) (found : before.log.lookup? before.nextOrdinal = some operation)
      (settles : operation.isTerminal = true ∨ operation.isReady before.now = false)

section

variable {before after : Invocation V} {call : StepCall V} {reply : Reply V}
  {middle : List (Occurrence V)}

theorem AttemptCourse.resumes {attempts : Nat}
    (course : AttemptCourse before call (attempts + 1) reply middle)
    (unguarded : call.config.semantics = .atLeastOnce)
    (begins : bodies after.occurrences = bodies before.occurrences ++ bodies middle)
    (leaves : records after.occurrences = records before.occurrences ++ records middle) :
    Resumes before after call attempts := by
  have noRecord := StepCall.opening_records_of_atLeastOnce unguarded before (attempts + 1)
  have oneBody : bodies (call.opening before (attempts + 1)) =
      [⟨before.now, .bodyBegun before.nextOrdinal call.config.semantics
        (call.context before (attempts + 1)) false⟩] := by
    simp [StepCall.opening, marker_bodies, Effect.isBody]
  cases course with
  | unmarked error guarded faulty => simp [unguarded] at guarded
  | crashed chatter logs dies =>
      refine .attempted _ ?_ leaves (.inl ?_)
      · simpa [oneBody, logs.bodies] using begins
      · simp [noRecord, logs.records]
  | lost chatter logs reading update outcome closes error faulty =>
      refine .attempted _ ?_ leaves (.inl ?_)
      · simpa [oneBody, logs.bodies, Effect.isBody] using begins
      · simp [noRecord, logs.records, Effect.record?]
  | closed chatter logs reading update outcome closes diagnostic =>
      refine .attempted _ ?_ leaves (.inr ⟨(call.base before).withState update, ?_, ?_, ?_⟩)
      · simpa [oneBody, logs.bodies, Effect.isBody] using begins
      · simp [noRecord, logs.records, Effect.record?]
      · exact Invocation.current_ordinal before (.step before.nextOrdinal call.name)
      · exact BodyOutcome.closing?_attempt closes

theorem StepCourse.resumes (course : StepCourse before call reply middle)
    (called : Invocation.Called before after .step call.name
      (middle ++ reply.returning call.name after) reply.halt?)
    (unguarded : call.config.semantics = .atLeastOnce)
    (fits : ∀ operation, before.log.lookup? before.nextOrdinal = some operation →
      operation.kind = .step ∧ operation.name = call.name)
    {trace : List (Occurrence V)} (counted : Counted trace before.log.lookup?) :
    Resumes before after call (recordCount trace before.nextOrdinal) := by
  have returning := reply.returning_quiet call.name after
  have begins : bodies after.occurrences = bodies before.occurrences ++ bodies middle := by
    rw [called.bodies, returning.bodies_append]
  have leaves : records after.occurrences = records before.occurrences ++ records middle := by
    rw [called.records, returning.records_append]
  have idle : bodies middle = [] → bodies after.occurrences = bodies before.occurrences := by
    intro none
    rw [begins, none, List.append_nil]
  cases course with
  | duplicate first known => exact .refused (idle rfl) first known
  | mismatched operation fresh found other => exact absurd (fits operation found) other
  | planned recorded fresh found same course =>
      rw [unguarded] at course
      generalize plans : StepPlan.ofRecord _ _ _ = plan at course
      cases course with
      | replay operation =>
          obtain ⟨rfl, succeeded⟩ := StepPlan.ofRecord_eq_replay plans
          refine .settled (idle rfl) operation found (.inl ?_)
          exact Operation.isTerminal_of_status succeeded
      | fail error =>
          obtain ⟨operation, rfl, ⟨failed, _⟩ | ⟨early, _⟩⟩ := StepPlan.ofRecord_eq_fail plans
          · refine .settled (idle rfl) operation found (.inl ?_)
            exact Operation.isTerminal_of_status failed
          · exact .settled (idle rfl) operation found (.inr early)
      | reported operation noted =>
          have guarded := (StepPlan.ofRecord_eq_interrupt plans).2.2
          simp at guarded
      | annotated operation unnoted =>
          have guarded := (StepPlan.ofRecord_eq_interrupt plans).2.2
          simp at guarded
      | unannotated operation unnoted error faulty =>
          have guarded := (StepPlan.ofRecord_eq_interrupt plans).2.2
          simp at guarded
      | attempted number unfinished notDecreasing course =>
          rw [← found] at plans
          obtain rfl := counted.planned plans
          exact course.resumes unguarded begins leaves

end

/-- Every step call that finds no halt stands at a step of the plan. -/
theorem Workflow.Follows.calls {mayDie : Prop} {workflow : Workflow V O} {current : Plan V O}
    (follows : workflow.Follows mayDie current) {plan : Plan V O} {medium : Medium}
    (lossless : current.Lossless medium) {done rest : List Operation} {before : Invocation V}
    (aligned : plan.Aligned current done rest before)
    (unguarded : workflow.EveryStep fun call => call.config.semantics = .atLeastOnce)
    {made : MadeCall V} (member : made ∈ workflow.calls before)
    (free : made.before.halt = none) {call : StepCall V}
    (declared : made.declaration = .step call) :
    ∃ task next done rest, plan.Aligned (.step task next) done rest made.before ∧
      call.name = task.name := by
  induction follows generalizing before done rest with
  | done outcome => simp [Workflow.calls] at member
  | @step name config codec body next task planNext carries follows induction =>
      simp only [Workflow.calls, List.mem_cons] at member
      rcases member with rfl | later
      · cases declared
        exact ⟨task, planNext, done, rest, aligned, carries.name⟩
      · cases stepped : before.step name config codec body with
        | mk reply after =>
            obtain ⟨middle, course, called⟩ :=
              Invocation.step_course aligned.free ⟨name, config, codec, body⟩ stepped
            have followed := aligned.step carries
              (fun value payload encoded => (lossless.1 value payload encoded).2)
              (.inr unguarded.1) course called
            rw [stepped] at later
            cases followed with
            | goesOn ends alignedAfter =>
                exact induction _ _ ends (lossless.2 _) alignedAfter (unguarded.2 _) later
            | stopped outcome stopped =>
                obtain ⟨halt, _, halted, _⟩ := stopped
                simp [Workflow.calls_halted halted later] at free
            | crashed dies views trails => simp at later
  | @wait name duration next planNext follows induction =>
      simp only [Workflow.calls, List.mem_cons] at member
      rcases member with rfl | later
      · cases declared
      · cases waited : before.wait name duration with
        | mk outcome after =>
            obtain ⟨middle, course, called⟩ :=
              Invocation.wait_course aligned.free ⟨name, duration⟩ waited
            have followed := aligned.wait rfl course called
            rw [waited] at later
            cases followed with
            | goesOn alignedAfter =>
                exact induction (lossless _) alignedAfter (unguarded _) later
            | stopped _ stopped =>
                obtain ⟨halt, _, halted, _⟩ := stopped
                simp [Workflow.calls_halted halted later] at free
  | log follows induction => exact induction lossless (aligned.logCall _ _) unguarded member
  | observe follows induction =>
      exact induction before.observation lossless aligned.observe
        (unguarded before.observation) member
  | advance follows induction => exact induction lossless (aligned.advance _) unguarded member

/-- The step calls of a visit resume the attempts that were recorded before them. -/
theorem TrailingSession.resumes {executionId : String} {initial : Medium} {plan : Plan V O}
    {mayDie : Prop} {trace : List (Occurrence V)} {store : Store} {visit : Visit V O}
    (session : TrailingSession executionId initial plan trace store)
    (counted : LedgerSession executionId initial Counted (fun _ => True) trace store.medium)
    (empty : initial.history executionId = .ok []) (lossless : plan.Lossless initial)
    (follows : visit.workflow.Follows mayDie plan)
    (unguarded : visit.workflow.EveryStep fun call => call.config.semantics = .atLeastOnce)
    {made : MadeCall V} (member : made ∈ visit.calls executionId store)
    (free : made.before.halt = none) {call : StepCall V}
    (declared : made.declaration = .step call) :
    Resumes made.before made.after call
      (recordCount (trace ++ made.before.occurrences) made.before.nextOrdinal) := by
  obtain ⟨log, after, loaded, inPass⟩ := Visit.mem_calls member
  obtain ⟨operations, _, aligned⟩ := session.aligned empty lossless loaded visit
  obtain ⟨task, next, done, rest, alignedHere, name⟩ :=
    follows.calls lossless aligned unguarded inPass free declared
  obtain ⟨countedHere, allowed⟩ := (Counted.ledger.preserved trace).calls unguarded
    (Counted.ledger.begun counted loaded visit) inPass
  obtain ⟨reply, middle, course, called, _⟩ := MadeCall.step_called free declared
  refine course.resumes called (allowed call declared) ?_ countedHere
  intro operation found
  rw [name]
  exact alignedHere.fits found

/-- Crash recovery.  When all steps of a deterministic workflow run at least once, then
over a store that held nothing of the execution, whatever appends and reads fail and
wherever the process dies: every invocation fails with an error of the store, or dies,
or stays pending, or ends as the one reference evaluation of the plan.  A body always
begins under the number after the recorded attempts of its operation, and a step call
that is not halted begins that attempt, so one that was lost is made again. -/
theorem crashes_only_repeat_attempts {mayDie : Prop} {plan : Plan V O} {executionId : String}
    {store : Store} {visits : List (Visit V O)}
    (empty : store.medium.history executionId = .ok [])
    (lossless : plan.Lossless store.medium)
    (follows : ∀ visit ∈ visits, visit.workflow.Follows mayDie plan)
    (unguarded : ∀ visit ∈ visits,
      visit.workflow.EveryStep fun call => call.config.semantics = .atLeastOnce) :
    (∀ answer ∈ Session.answers executionId store visits,
      plan.Judges mayDie answer.verdict ∧
        ∀ result, answer.verdict = .finished result → result.isTerminal = true →
          ∀ evaluation, plan.Evaluates evaluation → evaluation = result.evaluation) ∧
      Each Numbered (Session.occurrences executionId store visits) ∧
      ∀ earlier visit later, visits = earlier ++ visit :: later →
        ∀ made ∈ visit.calls executionId (Session.storeAfter executionId store earlier),
          made.before.halt = none → ∀ call, made.declaration = .step call →
            Resumes made.before made.after call
              (recordCount (Session.occurrences executionId store earlier
                ++ made.before.occurrences) made.before.nextOrdinal) := by
  have initially : ∀ history, store.medium.history executionId = .ok history →
      Counted ([] : List (Occurrence V)) (History.latest? history) := by
    intro history read
    obtain rfl : [] = history := Except.ok.inj (empty.symm.trans read)
    exact ⟨.nil, fun _ _ => rfl, fun _ _ found => by simp at found⟩
  refine ⟨?_, ?_, ?_⟩
  · intro answer member
    have judges := TrailingSession.judges empty lossless follows
      (fun visit inside => .inr (unguarded visit inside)) answer member
    refine ⟨judges, ?_⟩
    intro result finished terminal evaluation evaluates
    rw [finished] at judges
    exact (judges.evaluates terminal).unique evaluates
  · exact (Counted.ledger.session Counted.numbered visits .nil initially unguarded).concluded
  · rintro earlier visit later rfl made member free call declared
    have here : visit ∈ earlier ++ visit :: later := by simp
    have before : ∀ visited ∈ earlier, visited ∈ earlier ++ visit :: later :=
      fun _ => List.mem_append_left _
    have trailing := TrailingSession.after empty lossless
      (fun visited inside => follows visited (before visited inside))
      fun visited inside => .inr (unguarded visited (before visited inside))
    have counted := Counted.ledger.session (fun _ => trivial) earlier trivial initially
      fun visited inside => unguarded visited (before visited inside)
    exact trailing.resumes counted empty lossless (follows visit here) (unguarded visit here)
      member free declared

/-- A store that loses the first record. -/
def Store.losingOnce : Store :=
  .ofMedium (.memory []) (.listed [1] [] default)

theorem lost_attempt_is_repeated :
    (Session.occurrences "run" Store.losingOnce
        [.ofTwoAttempts 0, .ofTwoAttempts 0, .ofTwoAttempts 1]).filterMap
        (·.effect.begunAttempt?) = [(0, 1), (0, 1), (0, 2)] ∧
      ∀ answer ∈ Session.answers "run" Store.losingOnce
          [.ofTwoAttempts 0, .ofTwoAttempts 0, .ofTwoAttempts 1],
        Plan.ofTwoAttempts.Judges False answer.verdict := by
  have lossless : Plan.ofTwoAttempts.Lossless Store.losingOnce.medium :=
    ⟨fun value payload encoded => ⟨rfl, rfl⟩, fun outcome => trivial⟩
  have follows : ∀ visit ∈ [Visit.ofTwoAttempts 0, .ofTwoAttempts 0, .ofTwoAttempts 1],
      visit.workflow.Follows False Plan.ofTwoAttempts := by
    intro visit member
    simp only [List.mem_cons, List.not_mem_nil, or_false] at member
    rcases member with rfl | rfl | rfl <;> exact Visit.ofTwoAttempts_follows False _
  have unguarded : ∀ visit ∈ [Visit.ofTwoAttempts 0, .ofTwoAttempts 0, .ofTwoAttempts 1],
      visit.workflow.EveryStep fun call => call.config.semantics = .atLeastOnce := by
    intro visit member
    simp only [List.mem_cons, List.not_mem_nil, or_false] at member
    rcases member with rfl | rfl | rfl <;> exact ⟨rfl, fun _ => trivial⟩
  constructor
  · rfl
  · intro answer member
    exact ((crashes_only_repeat_attempts rfl lossless follows unguarded).1 answer member).1

end Durable
