import Durable.Proofs.Narrative
import Durable.Proofs.PlanReplay

/-!
# Calls along a narrative

While records lie ahead of a pass, its log calls are dropped: they were forwarded when the
records were not there yet.  Where the records end, the pass goes on with what has not been
forwarded.  So what all passes together have forwarded is, at every point of a pass, what the
narrative logs up to there, and beyond it what the records ahead are evidence of.
-/

namespace Durable

variable {V O : Type}

open Occurrence

theorem StepCall.bodies_closing (call : StepCall V) (invocation : Invocation V) (number : Nat)
    {chatter : List (Occurrence V)} (logs : Chatter chatter) (reading : Instant)
    (operation : Operation) (diagnostic : Diagnostic) :
    bodies (call.opening invocation number ++ (chatter
        ++ [⟨reading, .appended operation⟩, ⟨reading, .diagnosed diagnostic⟩])) =
      [⟨invocation.now, .bodyBegun invocation.nextOrdinal call.config.semantics
        (call.context invocation number) false⟩] := by
  simp [opening, marker_bodies, logs.bodies, Effect.isBody]

namespace Invocation

variable {before after : Invocation V} {body : StepBody V}

theorem Heard.called (heard : Heard body before after) (attuned : before.Attuned)
    {kind : OperationKind} {name : String} {emitted : List (Occurrence V)} {halt : Option Halt}
    (called : Called before after kind name emitted halt) :
    logEntries after.occurrences = logEntries before.occurrences ++
      (bodies emitted).flatMap (spoken before.executionId body) := by
  rw [heard.entries called.extension.occurrences, attuned.executionId]
  simp [Effect.isBody]

theorem Heard.silent (heard : Heard body before after)
    (same : bodies after.occurrences = bodies before.occurrences) :
    logEntries after.occurrences = logEntries before.occurrences := by
  obtain ⟨emitted, occurrences, entries⟩ := heard.forwarded
  have noBodies : bodies emitted = [] := by
    rw [occurrences, bodies_append] at same
    exact List.append_right_eq_self.mp same
  rw [occurrences, logEntries_append, entries, noBodies]
  exact List.append_nil _

theorem Heard.quiet (heard : Heard body before after) {kind : OperationKind} {name : String}
    {emitted : List (Occurrence V)} {halt : Option Halt}
    (called : Called before after kind name emitted halt) (isQuiet : Quiet emitted) :
    logEntries after.occurrences = logEntries before.occurrences := by
  apply heard.silent
  rw [called.bodies, isQuiet.bodies, List.append_nil]

end Invocation

theorem Occurrence.Quiet.returning {middle : List (Occurrence V)} (isQuiet : Quiet middle)
    (reply : Reply V) (name : String) (after : Invocation V) :
    Quiet (middle ++ reply.returning name after) :=
  isQuiet.append (reply.returning_quiet name after)

namespace Narrative

/-- An invocation on its way along the narrative.  The narrative logs `told` up to here, and
what was forwarded, earlier and by this invocation, is that and what the records `rest` are
evidence of. -/
structure Reciting (executionId : String) (earlier : List LogEntry)
    (narrative current : Narrative V O) (done rest : List Operation) (told : List LogEntry)
    (invocation : Invocation V) : Prop where
  aligned : narrative.plan.Aligned current.plan done rest invocation
  attuned : invocation.Attuned
  execution : invocation.executionId = executionId
  forwarded : ∃ log, current.Recited executionId done.length rest log ∧
    earlier ++ logEntries invocation.occurrences = told ++ log
  whole : ∀ rest log, rest ≠ [] → current.Recited executionId done.length rest log →
    narrative.Recited executionId 0 (done ++ rest) (told ++ log)
  reference : ∀ log, current.Tells executionId done log →
    narrative.Tells executionId [] (told ++ log)

/-- An invocation that was suspended on its way along the narrative. -/
structure Interrupted (executionId : String) (earlier : List LogEntry)
    (narrative : Narrative V O) (wake : Instant) (invocation : Invocation V) : Prop where
  halted : invocation.halt = some (.suspended wake)
  recited : ∃ operations, invocation.log.Views operations ∧
    narrative.Recited executionId 0 operations (earlier ++ logEntries invocation.occurrences)

/-- An invocation that was refused a declaration, with no record ahead of it. -/
structure Refused (executionId : String) (earlier : List LogEntry) (told : List LogEntry)
    (error : DurableError) (invocation : Invocation V) : Prop where
  halted : invocation.halt = some (.fatal error)
  execution : invocation.executionId = executionId
  live : invocation.log.contains invocation.nextOrdinal = false
  forwarded : earlier ++ logEntries invocation.occurrences = told

variable {executionId : String} {earlier told : List LogEntry}
  {narrative current following : Narrative V O} {done rest : List Operation}
  {before after : Invocation V}

namespace Reciting

theorem contains (reciting : narrative.Reciting executionId earlier current done rest told before) :
    before.log.contains before.nextOrdinal = rest.head?.isSome := by
  rw [reciting.aligned.ordinal, ← reciting.aligned.views.next, Option.isSome_map]
  rfl

theorem aside (reciting : narrative.Reciting executionId earlier current done rest told before)
    (aligned : narrative.plan.Aligned current.plan done rest after) (attuned : after.Attuned)
    (execution : after.executionId = before.executionId)
    (silent : logEntries after.occurrences = logEntries before.occurrences) :
    narrative.Reciting executionId earlier current done rest told after := by
  refine ⟨aligned, attuned, execution.trans reciting.execution, ?_, reciting.whole,
    reciting.reference⟩
  rw [silent]
  exact reciting.forwarded

theorem logCall {level : LogLevel} {message : String}
    (reciting : narrative.Reciting executionId earlier (.log level message current) done rest
      told before) :
    narrative.Reciting executionId earlier current done rest
      (told ++ [.ofRemark executionId none (level, message)])
      (before.logCall level message) := by
  obtain ⟨attuned, entries⟩ := reciting.attuned.logCall level message
  have execution : (before.logCall level message).executionId = before.executionId :=
    congrArg OperationLog.executionId (Invocation.logCall_idle before level message).log
  refine ⟨reciting.aligned.logCall level message, attuned, execution.trans reciting.execution,
    ?_, ?_, ?_⟩
  · obtain ⟨log, recited, forwarded⟩ := reciting.forwarded
    rw [reciting.contains] at entries
    -- With a record ahead the call is dropped, and its entry is the first one the records tell.
    cases rest with
    | nil =>
        obtain rfl := recited.of_nothing
        rw [reciting.execution] at entries
        refine ⟨[], .silent _ _, ?_⟩
        rw [entries, ← List.append_assoc, forwarded]
        simp
    | cons record later =>
        cases recited with
        | log more recited =>
            refine ⟨_, recited, ?_⟩
            rw [entries, List.append_assoc, List.singleton_append, ← forwarded]
            simp
  · intro rest log more recited
    have onward := reciting.whole rest _ more (.log more recited)
    rwa [List.append_assoc, List.singleton_append]
  · intro log tells
    have onward := reciting.reference _ (.log tells)
    rwa [List.append_assoc, List.singleton_append]

theorem proceed (reciting : narrative.Reciting executionId earlier current done rest told before)
    {record : Operation} {later : List Operation} {said : List LogEntry}
    (aligned : narrative.plan.Aligned following.plan (done ++ [record]) later after)
    (attuned : after.Attuned) (execution : after.executionId = before.executionId)
    (forwarded : ∃ log, following.Recited executionId (done.length + 1) later log ∧
      earlier ++ logEntries after.occurrences = told ++ said ++ log)
    (further : ∀ later log, later ≠ [] → following.Recited executionId (done.length + 1) later log →
      current.Recited executionId done.length (record :: later) (said ++ log))
    (onward : ∀ log, following.Tells executionId (done ++ [record]) log →
      current.Tells executionId done (said ++ log)) :
    narrative.Reciting executionId earlier following (done ++ [record]) later (told ++ said)
      after := by
  have length : (done ++ [record]).length = done.length + 1 := by simp
  refine ⟨aligned, attuned, execution.trans reciting.execution, ?_, ?_, ?_⟩
  · rw [length]
    exact forwarded
  · intro later log more recited
    rw [length] at recited
    have whole := reciting.whole _ _ (List.cons_ne_nil record later)
      (further later log more recited)
    rwa [List.append_assoc, List.append_assoc, List.singleton_append]
  · intro log tells
    have reference := reciting.reference _ (onward log tells)
    rwa [List.append_assoc]

theorem interrupt (reciting : narrative.Reciting executionId earlier current done rest told before)
    {record : Operation} {wake : Instant} {log : List LogEntry}
    (halted : after.halt = some (.suspended wake))
    (views : after.log.Views (done ++ [record]))
    (recited : current.Recited executionId done.length [record] log)
    (forwarded : earlier ++ logEntries after.occurrences = told ++ log) :
    narrative.Interrupted executionId earlier wake after := by
  refine ⟨halted, done ++ [record], views, ?_⟩
  rw [forwarded]
  exact reciting.whole _ _ (List.cons_ne_nil record []) recited

theorem refuse
    (reciting : narrative.Reciting executionId earlier current done [] told before)
    {kind : OperationKind} {name : String} {emitted : List (Occurrence V)} {error : DurableError}
    (called : Invocation.Called before after kind name emitted (some (.fatal error)))
    (isQuiet : Quiet emitted) (execution : after.executionId = before.executionId)
    (silent : logEntries after.occurrences = logEntries before.occurrences) :
    Refused executionId earlier told error after := by
  have views := reciting.aligned.unwritten called isQuiet.records
  refine ⟨called.halt, execution.trans reciting.execution, ?_, ?_⟩
  · rw [called.nextOrdinal, reciting.aligned.ordinal]
    have beyond := views (done.length + 1)
    rw [List.append_nil, List.getElem?_eq_none (Nat.le_succ _), Option.map_eq_none_iff] at beyond
    rw [OperationLog.contains, beyond]
    rfl
  · obtain ⟨log, recited, forwarded⟩ := reciting.forwarded
    obtain rfl := recited.of_nothing
    rw [silent, forwarded, List.append_nil]

end Reciting

/-- The invocation after a step call of the narrative. -/
inductive StepRecited (executionId : String) (earlier : List LogEntry)
    (narrative : Narrative V O) (task : LoggedTask V)
    (next : Except DurableError V → Narrative V O) (done : List Operation)
    (told : List LogEntry) (after : Invocation V) : Reply V → Prop where
  | goesOn {update : OperationUpdate} {outcome : Except DurableError V} {rest : List Operation}
      (closure : task.Closure update outcome)
      (reciting : narrative.Reciting executionId earlier (next outcome)
        (done ++ [(Operation.step done.length task.name).withState update]) rest
        (told ++ task.entriesUpTo executionId done.length update.attempt) after) :
      StepRecited executionId earlier narrative task next done told after (.returned outcome)
  | interrupted {wake : Instant}
      (interrupted : narrative.Interrupted executionId earlier wake after) :
      StepRecited executionId earlier narrative task next done told after
        (.returned (.error (.suspended wake)))
  | refused {first : Nat} (known : Plan.declaredAt? done task.name = some first)
      (refused : Refused executionId earlier told (.duplicateOperationName task.name first)
        after) :
      StepRecited executionId earlier narrative task next done told after
        (.returned (.error (.duplicateOperationName task.name first)))

section Step

open Workflow (Carries)

variable {task : LoggedTask V} {next : Except DurableError V → Narrative V O}
  {call : StepCall V} {reply : Reply V} {middle : List (Occurrence V)}
  (reciting : narrative.Reciting executionId earlier (.step task next) done rest told before)
  (carries : Carries False call task.toTask)
  (called : Invocation.Called before after .step call.name
    (middle ++ reply.returning call.name after) reply.halt?)
  (attuned : after.Attuned) (heard : Invocation.Heard call.body before after)

include reciting carries called attuned heard

theorem Reciting.close (fresh : Plan.declaredAt? done task.name = none)
    {update : OperationUpdate} {outcome : Except DurableError V} {later : List Operation}
    (ends : task.Ends 1 update outcome) (returned : reply = .returned outcome)
    (views : after.log.Views
      (done ++ (Operation.step done.length task.name).withState update :: later))
    (trails : (next outcome).plan.Trails
      (done ++ [(Operation.step done.length task.name).withState update]) later)
    (forwarded : ∃ log, (next outcome).Recited executionId (done.length + 1) later log ∧
      earlier ++ logEntries after.occurrences =
        told ++ task.entriesUpTo executionId done.length update.attempt ++ log) :
    narrative.StepRecited executionId earlier task next done told after reply := by
  subst returned
  have free : Reply.halt? (.returned outcome) = none := Plan.Aligned.haltOf?_closure ends.closure
  rw [free, carries.name] at called
  have aligned : narrative.plan.Aligned (next outcome).plan _ later after :=
    reciting.aligned.proceed called views trails (fun _ trails => .step fresh ends trails)
      fun _ walks => .step fresh ends walks
  refine .goesOn ends.closure (reciting.proceed aligned attuned heard.executionId forwarded ?_ ?_)
  · intro later log more recited
    exact .step ends more recited
  · intro log tells
    exact .step fresh ends tells

/-- An attempt that is made forwards what it logs. -/
theorem Reciting.attempt
    (speaks : ∀ context, context.name = task.name →
      (call.body context).remarks = task.remarks context.attempt)
    (fresh : Plan.declaredAt? done task.name = none) {attempts : Nat}
    (retried : task.Retried attempts) (last : rest.length ≤ 1)
    (sofar : earlier ++ logEntries before.occurrences =
      told ++ task.entriesUpTo executionId done.length attempts)
    (base : ∀ update, (call.base before).withState update =
      (Operation.step done.length task.name).withState update)
    (reliable : before.store.faults = .none)
    (course : AttemptCourse before call (attempts + 1) reply middle) :
    narrative.StepRecited executionId earlier task next done told after reply := by
  have made := course
  cases course with
  | unmarked error guarded faulty => exact absurd reliable faulty
  | crashed chatter logs dies => exact (carries.mayDie_of_crash dies).elim
  | lost chatter logs reading update outcome closes error faulty => exact absurd reliable faulty
  | closed chatter logs reading update outcome closes diagnostic =>
      have latest :=
        call.latest?_closing before (attempts + 1) logs reading update diagnostic
      have views := reciting.aligned.attempted last base made latest called
      have forwarded : earlier ++ logEntries after.occurrences =
          told ++ task.entriesUpTo executionId done.length (attempts + 1) := by
        have said : (call.body (call.context before (attempts + 1))).remarks =
            task.remarks (attempts + 1) := speaks _ carries.name
        have scope : (call.context before (attempts + 1)).scope =
            ⟨operationId done.length, task.name, attempts + 1⟩ := by
          rw [StepContext.scope, StepCall.context, reciting.aligned.ordinal, carries.name]
        rw [heard.called reciting.attuned called, bodies_append,
          call.bodies_closing before (attempts + 1) logs,
          (Reply.returning_quiet _ call.name after).bodies, ← List.append_assoc, sofar,
          LoggedTask.entriesUpTo_succ, List.append_assoc]
        simp [spoken, said, scope, LoggedTask.entries, reciting.execution]
      have number : update.attempt = attempts + 1 := BodyOutcome.closing?_attempt closes
      rcases carries.closing? closes with closes | ⟨granted, readyAt, rfl, rfl⟩
      · rw [(Task.close?_closure closes).timeless] at views
        refine reciting.close carries called attuned heard fresh (retried.ends closes) rfl views
          (.start _ _) ⟨[], .silent _ _, ?_⟩
        rw [forwarded, number, List.append_nil]
      · exact .interrupted (reciting.interrupt called.halt views
          (.retrying (retried.succ granted)) forwarded)

theorem Reciting.recall
    (decodes : ∀ value payload, task.codec.encode value = .ok payload →
      task.codec.decode payload = .ok value)
    (fresh : Plan.declaredAt? done task.name = none) {update : OperationUpdate}
    {outcome : Except DurableError V} {later : List Operation} {log : List LogEntry}
    {recorded : Operation} (ends : task.Ends 1 update outcome) (more : later ≠ [])
    (ahead : rest = (Operation.step done.length task.name).withState update :: later)
    (recited : (next outcome).Recited executionId (done.length + 1) later log)
    (sofar : earlier ++ logEntries before.occurrences =
      told ++ (task.entriesUpTo executionId done.length update.attempt ++ log))
    (same : recorded.timeless = (Operation.step done.length task.name).withState update)
    (course : PlanCourse before call
      (.ofRecord (some recorded) call.config.semantics before.now) reply middle) :
    narrative.StepRecited executionId earlier task next done told after reply := by
  subst ahead
  obtain ⟨rfl, isQuiet⟩ := carries.replayed decodes ends same course
  have views := reciting.aligned.unwritten called (isQuiet.returning _ _ _).records
  have trails := reciting.aligned.trails.behind_step more ends
  refine reciting.close carries called attuned heard fresh ends rfl views trails ⟨_, recited, ?_⟩
  rw [heard.quiet called (isQuiet.returning _ _ _), sofar, List.append_assoc]

/-- A step that waits for a retry makes the next attempt, or is interrupted again. -/
theorem Reciting.retry
    (speaks : ∀ context, context.name = task.name →
      (call.body context).remarks = task.remarks context.attempt)
    (reliable : before.store.faults = .none)
    (fresh : Plan.declaredAt? done task.name = none) {attempts : Nat} {recorded : Operation}
    (retried : task.Retried attempts)
    (ahead : rest = [Operation.retrying done.length task.name attempts])
    (sofar : earlier ++ logEntries before.occurrences =
      told ++ task.entriesUpTo executionId done.length attempts)
    (found : before.log.lookup? before.nextOrdinal = some recorded)
    (same : recorded.timeless = Operation.retrying done.length task.name attempts)
    (course : PlanCourse before call
      (.ofRecord (some recorded) call.config.semantics before.now) reply middle) :
    narrative.StepRecited executionId earlier task next done told after reply := by
  subst ahead
  have pending : recorded.status = .pending := congrArg Operation.status same
  have attempted : recorded.attempt = attempts := congrArg Operation.attempt same
  simp only [StepPlan.ofRecord, pending] at course
  split at course
  · cases course with
    | attempted number unfinished notDecreasing course =>
        rw [attempted] at course
        exact reciting.attempt carries called attuned heard speaks fresh retried (Nat.le_refl 1)
          sofar (call.base_of_retrying found same) reliable course
  · cases course with
    | fail error =>
        have isQuiet : Quiet ([] : List (Occurrence V)) := ⟨rfl, rfl⟩
        have views := reciting.aligned.unwritten called (isQuiet.returning _ _ _).records
        rw [← heard.quiet called (isQuiet.returning _ _ _)] at sofar
        exact .interrupted (reciting.interrupt called.halt views (.retrying retried) sofar)

/-- A step call is refused, or it goes on where the earlier invocations have stopped. -/
theorem Reciting.step
    (speaks : ∀ context, context.name = task.name →
      (call.body context).remarks = task.remarks context.attempt)
    (decodes : ∀ value payload, task.codec.encode value = .ok payload →
      task.codec.decode payload = .ok value)
    (reliable : before.store.faults = .none) (course : StepCourse before call reply middle) :
    narrative.StepRecited executionId earlier task next done told after reply := by
  have names : before.declaredAt? call.name = Plan.declaredAt? done task.name := by
    rw [reciting.aligned.names, carries.name]
  have head := reciting.aligned.views.next
  rw [← reciting.aligned.ordinal] at head
  obtain ⟨log, recited, sofar⟩ := reciting.forwarded
  cases course with
  | duplicate first known =>
      rw [names] at known
      obtain rfl := reciting.aligned.trails.nothing_of_stepTwice known
      have isQuiet : Quiet ([] : List (Occurrence V)) := ⟨rfl, rfl⟩
      have silent := heard.quiet called (isQuiet.returning _ _ _)
      rw [carries.name] at called ⊢
      exact .refused known (reciting.refuse called (isQuiet.returning _ _ _)
        heard.executionId silent)
  | mismatched operation fresh found other =>
      have fits := reciting.aligned.fits found
      rw [← carries.name] at fits
      exact absurd fits other
  | planned recorded fresh found same course =>
      rw [names] at fresh
      rw [found] at head
      -- What the records ahead tell says which record the call finds.
      cases recited with
      | silent =>
          obtain rfl : recorded = none := Option.map_eq_none_iff.mp head
          have base : call.base before = .step done.length task.name := by
            rw [← reciting.aligned.ordinal, ← carries.name]
            exact Invocation.current_of_none found
          have retried : task.Retried 0 := fun attempt positive le => by omega
          cases course with
          | attempted number unfinished notDecreasing course =>
              exact reciting.attempt carries called attuned heard speaks fresh retried
                (Nat.zero_le 1) sofar (fun update => by rw [base]) reliable course
      | step ends more recited =>
          obtain ⟨operation, rfl, sameRecord⟩ := Option.map_eq_some_iff.mp head
          exact reciting.recall carries called attuned heard decodes fresh ends more rfl recited
            sofar sameRecord course
      | retrying retried =>
          obtain ⟨operation, rfl, sameRecord⟩ := Option.map_eq_some_iff.mp head
          exact reciting.retry carries called attuned heard speaks reliable fresh retried rfl
            sofar found sameRecord course

end Step

/-- The invocation after a wait call of the narrative. -/
inductive WaitRecited (executionId : String) (earlier : List LogEntry)
    (narrative : Narrative V O) (name : String)
    (next : Except DurableError Unit → Narrative V O) (done : List Operation)
    (told : List LogEntry) (after : Invocation V) : Except DurableError Unit → Prop where
  | goesOn {rest : List Operation}
      (reciting : narrative.Reciting executionId earlier (next (.ok ()))
        (done ++ [Operation.passed done.length name]) rest told after) :
      WaitRecited executionId earlier narrative name next done told after (.ok ())
  | interrupted {wake : Instant}
      (interrupted : narrative.Interrupted executionId earlier wake after) :
      WaitRecited executionId earlier narrative name next done told after
        (.error (.suspended wake))
  | refused {first : Nat} (known : Plan.declaredAt? done name = some first)
      (refused : Refused executionId earlier told (.duplicateOperationName name first) after) :
      WaitRecited executionId earlier narrative name next done told after
        (.error (.duplicateOperationName name first))

section Wait

variable {name : String} {next : Except DurableError Unit → Narrative V O} {call : WaitCall}
  {outcome : Except DurableError Unit} {middle : List (Occurrence V)} {body : StepBody V}
  (reciting : narrative.Reciting executionId earlier (.wait name next) done rest told before)
  (sameName : call.name = name)
  (called : Invocation.Called before after .timer call.name
    (middle ++ [⟨after.now, .waitReturned call.name outcome after.isReplaying⟩])
    (Invocation.haltOf? outcome))
  (attuned : after.Attuned) (heard : Invocation.Heard body before after)

include reciting sameName called attuned heard

theorem Reciting.pass (fresh : Plan.declaredAt? done name = none) {later : List Operation}
    (isOver : outcome = .ok ())
    (views : after.log.Views (done ++ Operation.passed done.length name :: later))
    (trails : (next (.ok ())).plan.Trails (done ++ [Operation.passed done.length name]) later)
    (forwarded : ∃ log, (next (.ok ())).Recited executionId (done.length + 1) later log ∧
      earlier ++ logEntries after.occurrences = told ++ log) :
    narrative.WaitRecited executionId earlier name next done told after outcome := by
  subst isOver
  rw [sameName] at called
  have aligned : narrative.plan.Aligned (next (.ok ())).plan _ later after :=
    reciting.aligned.proceed called views trails (fun _ trails => .wait fresh trails)
      fun _ walks => .wait fresh walks
  rw [← List.append_nil told] at forwarded
  have onward := reciting.proceed aligned attuned heard.executionId forwarded
    (fun _ _ more recited => .wait more recited) fun _ tells => .wait fresh tells
  rw [List.append_nil] at onward
  exact .goesOn onward

theorem Reciting.startWait (reliable : before.store.faults = .none)
    (fresh : Plan.declaredAt? done name = none) (nothing : rest = [])
    (sofar : earlier ++ logEntries after.occurrences = told ++ [])
    (course : TimerCourse before call .start outcome middle) :
    narrative.WaitRecited executionId earlier name next done told after outcome := by
  subst nothing
  cases course with
  | passed due =>
      exact reciting.pass sameName called attuned heard fresh rfl
        (reciting.aligned.passed sameName called rfl) (.start _ _) ⟨[], .silent _ _, sofar⟩
  | started notDue diagnostic =>
      exact .interrupted (reciting.interrupt called.halt
        (reciting.aligned.started sameName called rfl) .waiting sofar)
  | lost written error faulty => exact absurd reliable faulty

theorem Reciting.resumeWait (reliable : before.store.faults = .none)
    (fresh : Plan.declaredAt? done name = none) {timer : Operation}
    (ahead : rest = [Operation.waiting done.length name])
    (sofar : earlier ++ logEntries after.occurrences = told ++ [])
    (same : timer.timeless = Operation.waiting done.length name)
    (course : TimerCourse before call (.ofRecord (some timer) before.now) outcome middle) :
    narrative.WaitRecited executionId earlier name next done told after outcome := by
  subst ahead
  have pending : timer.status = .pending := congrArg Operation.status same
  simp only [WaitPlan.ofRecord, pending] at course
  split at course
  · cases course with
    | elapsed _ diagnostic =>
        exact reciting.pass sameName called attuned heard fresh rfl
          (reciting.aligned.elapsed same called rfl) (.start _ _) ⟨[], .silent _ _, sofar⟩
    | unelapsed _ error faulty => exact absurd reliable faulty
  · cases course with
    | fail error =>
        exact .interrupted (reciting.interrupt called.halt
          (reciting.aligned.unwritten called rfl) .waiting sofar)

/-- A wait call is refused, or it goes on where the earlier invocations have stopped. -/
theorem Reciting.wait (reliable : before.store.faults = .none)
    (course : WaitCourse before call outcome middle) :
    narrative.WaitRecited executionId earlier name next done told after outcome := by
  have names : before.declaredAt? call.name = Plan.declaredAt? done name := by
    rw [reciting.aligned.names, sameName]
  have head := reciting.aligned.views.next
  rw [← reciting.aligned.ordinal] at head
  have silent : logEntries after.occurrences = logEntries before.occurrences := by
    apply heard.silent
    rw [called.bodies, bodies_append, course.bodies]
    exact List.append_nil _
  obtain ⟨log, recited, sofar⟩ := reciting.forwarded
  rw [← silent] at sofar
  cases course with
  | duplicate first known =>
      rw [names] at known
      obtain rfl := reciting.aligned.trails.nothing_of_waitTwice known
      have isQuiet := Invocation.emit_quiet after
        (.waitReturned call.name (.error (.duplicateOperationName call.name first))
          after.isReplaying) rfl rfl
      rw [sameName] at called isQuiet ⊢
      exact .refused known (reciting.refuse called isQuiet heard.executionId silent)
  | mismatched operation fresh found other =>
      have fits := reciting.aligned.fitsWait found
      rw [← sameName] at fits
      exact absurd fits other
  | planned recorded fresh found same course =>
      rw [names] at fresh
      rw [found] at head
      cases recited with
      | silent =>
          obtain rfl : recorded = none := Option.map_eq_none_iff.mp head
          exact reciting.startWait sameName called attuned heard reliable fresh rfl sofar course
      | wait more recited =>
          obtain ⟨timer, rfl, sameRecord⟩ := Option.map_eq_some_iff.mp head
          have succeeded : timer.status = .succeeded := congrArg Operation.status sameRecord
          simp only [WaitPlan.ofRecord, succeeded] at course
          cases course
          exact reciting.pass sameName called attuned heard fresh rfl
            (reciting.aligned.unwritten called rfl) reciting.aligned.trails.behind_wait
            ⟨_, recited, sofar⟩
      | waiting =>
          obtain ⟨timer, rfl, sameRecord⟩ := Option.map_eq_some_iff.mp head
          exact reciting.resumeWait sameName called attuned heard reliable fresh rfl sofar
            sameRecord course

end Wait

end Narrative

end Durable
