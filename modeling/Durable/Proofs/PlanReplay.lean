import Durable.Proofs.Halting
import Durable.Proofs.Plan

/-!
# Passes that follow a plan

A pass over the records that an execution has left along its plan stays in step with the
plan: what a call replays, or carries out and records, is what the reference evaluation
has at its place.  The records at the end of the pass are again such as an execution
leaves along its plan, wherever the pass was stopped.
-/

namespace Durable

variable {V O : Type}

open Workflow

/-- The log holds these operations at their ordinals, the ready times aside. -/
def OperationLog.Views (log : OperationLog) (operations : List Operation) : Prop :=
  ∀ ordinal, (log.lookup? ordinal).map Operation.timeless = operations[ordinal]?

namespace OperationLog.Views

variable {log : OperationLog} {done rest : List Operation}

theorem next (views : log.Views (done ++ rest)) :
    (log.lookup? done.length).map Operation.timeless = rest.head? := by
  rw [views, List.getElem?_append_right (Nat.le_refl _), Nat.sub_self, List.head?_eq_getElem?]

theorem unique {operations again : List Operation} (views : log.Views operations)
    (viewsAgain : log.Views again) : again = operations :=
  List.ext_getElem? fun ordinal => (viewsAgain ordinal).symm.trans (views ordinal)

theorem put (views : log.Views (done ++ rest)) (last : rest.length ≤ 1)
    {records : List Operation} {record : Operation}
    (own : ∀ operation ∈ records, operation.ordinal = done.length)
    (latest : History.latest? records done.length = some record) :
    (log.insertAll records).Views (done ++ [record.timeless]) := by
  intro ordinal
  rw [lookup?_insertAll]
  by_cases here : ordinal = done.length
  · rw [here, latest]
    simp
  · have untouched : History.latest? records ordinal = none := by
      apply History.latest?_eq_none
      intro operation member same
      exact here (same.symm.trans (own operation member))
    rw [untouched, Option.none_or, views]
    by_cases below : ordinal < done.length
    · rw [List.getElem?_append_left below, List.getElem?_append_left below]
    · rw [List.getElem?_eq_none (by simp; omega), List.getElem?_eq_none (by simp; omega)]

end OperationLog.Views

/-- How a halt stands to the reference evaluation. -/
inductive Plan.Halts (plan : Plan V O) (operations : List Operation) : Halt → Prop where
  | suspended (wake : Instant) : Halts plan operations (.suspended wake)
  | store (error : StoreError) : Halts plan operations (.store error)
  | fatal (error : DurableError)
      (evaluates : plan.Evaluates (.ofOutcome (.error error) operations)) :
      Halts plan operations (.fatal error)

/-- An invocation that was halted on its way along the plan. -/
def Plan.Stopped (plan : Plan V O) (invocation : Invocation V) : Prop :=
  ∃ halt operations, invocation.halt = some halt ∧ invocation.log.Views operations ∧
    plan.Trails [] operations ∧ plan.Halts operations halt

/-- An invocation on its way along the plan: it has passed the operations `done`, and
the log holds the operations `rest` of an earlier pass beyond them. -/
structure Plan.Aligned (plan current : Plan V O) (done rest : List Operation)
    (invocation : Invocation V) : Prop where
  free : invocation.halt = none
  views : invocation.log.Views (done ++ rest)
  trails : current.Trails done rest
  ordinal : invocation.nextOrdinal = done.length
  names : ∀ name, invocation.declaredAt? name = Plan.declaredAt? done name
  whole : ∀ rest, current.Trails done rest → plan.Trails [] (done ++ rest)
  reference : ∀ evaluation, current.Walks done evaluation → plan.Walks [] evaluation

namespace Plan.Aligned

variable {plan current : Plan V O} {done rest : List Operation}
  {before after : Invocation V}

theorem quiet (aligned : plan.Aligned current done rest before)
    {emitted : List (Occurrence V)} (extension : Invocation.Extends before after emitted)
    (isQuiet : Occurrence.Quiet emitted) (place : Invocation.SamePlace before after) :
    plan.Aligned current done rest after := by
  have sameLog : after.log = before.log := by
    rw [extension.log, isQuiet.records, OperationLog.insertAll_nil]
  refine ⟨place.halt.trans aligned.free, ?_, aligned.trails,
    place.nextOrdinal.trans aligned.ordinal, ?_, aligned.whole, aligned.reference⟩
  · rw [sameLog]
    exact aligned.views
  · intro name
    rw [← aligned.names, Invocation.declaredAt?, place.names, ← Invocation.declaredAt?]

theorem logCall (aligned : plan.Aligned current done rest before) (level : LogLevel)
    (message : String) : plan.Aligned current done rest (before.logCall level message) := by
  obtain ⟨chatter, logs, extension, place⟩ := Invocation.logCall_course before level message
  exact aligned.quiet extension ⟨logs.records, logs.bodies⟩ place

theorem observe (aligned : plan.Aligned current done rest before) :
    plan.Aligned current done rest (before.emit (.observed before.observation)) :=
  aligned.quiet (.emit before _ rfl) (Invocation.emit_quiet before _ rfl rfl) ⟨rfl, rfl, rfl⟩

theorem advance (aligned : plan.Aligned current done rest before) (duration : Duration) :
    plan.Aligned current done rest (before.advance duration) :=
  aligned.quiet (Invocation.advance_extends before duration) ⟨rfl, rfl⟩ ⟨rfl, rfl, rfl⟩

theorem proceed (aligned : plan.Aligned current done rest before) {following : Plan V O}
    {record : Operation} {later : List Operation} {kind : OperationKind}
    {emitted : List (Occurrence V)}
    (called : Invocation.Called before after kind record.name emitted none)
    (views : after.log.Views (done ++ record :: later))
    (trails : following.Trails (done ++ [record]) later)
    (further : ∀ later, following.Trails (done ++ [record]) later →
      current.Trails done (record :: later))
    (onward : ∀ evaluation, following.Walks (done ++ [record]) evaluation →
      current.Walks done evaluation) :
    plan.Aligned following (done ++ [record]) later after := by
  refine ⟨called.halt, ?_, trails, ?_, ?_, ?_, ?_⟩
  · rw [List.append_assoc, List.singleton_append]
    exact views
  · rw [called.nextOrdinal, aligned.ordinal, List.length_append, List.length_singleton]
  · intro name
    have names : after.declaredAt? name =
        (before.declare kind record.name).declaredAt? name := by
      rw [Invocation.declaredAt?, called.names, ← Invocation.declaredAt?]
    rw [names, Invocation.declaredAt?_declare, aligned.names, aligned.ordinal,
      Plan.declaredAt?, Plan.declaredAt?, List.findIdx?_append]
    by_cases here : record.name = name <;> simp [here]
  · intro later trails
    rw [List.append_assoc, List.singleton_append]
    exact aligned.whole _ (further later trails)
  · intro evaluation walks
    exact aligned.reference evaluation (onward evaluation walks)

theorem unwritten (aligned : plan.Aligned current done rest before) {kind : OperationKind}
    {name : String} {emitted : List (Occurrence V)} {halt : Option Halt}
    (called : Invocation.Called before after kind name emitted halt)
    (silent : Occurrence.records emitted = []) : after.log.Views (done ++ rest) := by
  rw [called.log, silent, OperationLog.insertAll_nil]
  exact aligned.views

theorem stop (aligned : plan.Aligned current done rest before) {later : List Operation}
    {halt : Halt} (halted : after.halt = some halt) (views : after.log.Views (done ++ later))
    (trails : current.Trails done later) (halts : plan.Halts (done ++ later) halt) :
    plan.Stopped after :=
  ⟨halt, done ++ later, halted, views, aligned.whole later trails, halts⟩

end Plan.Aligned

/-- An attempt is recorded as the task says: it closes the step, or it waits for the next
one. -/
theorem Workflow.Carries.closing? {mayDie : Prop} {call : StepCall V} {task : Task V}
    (carries : Carries mayDie call task) {invocation : Invocation V} {attempt : Nat}
    {reading : Instant} {update : OperationUpdate} {outcome : Except DurableError V}
    (closes : call.closing? invocation attempt reading = some (update, outcome)) :
    task.close? attempt = some (update, outcome) ∨
      (task.close? attempt = none ∧ ∃ readyAt, update = .retryScheduled attempt readyAt ∧
        outcome = .error (.suspended readyAt)) := by
  rcases carries.body (call.context invocation attempt) carries.name with ends | ⟨_, dies⟩
  · have sameAttempt : (call.context invocation attempt).attempt = attempt := rfl
    rw [sameAttempt] at ends
    rw [StepCall.closing?, carries.codec, carries.name] at closes
    cases body : task.body attempt with
    | ok value =>
        rw [body] at ends
        left
        simp only [BodyOutcome.closing?, ends] at closes
        simp only [Task.close?, body]
        exact closes
    | error error =>
        rw [body] at ends
        have granted := carries.retries attempt error
        simp only [BodyOutcome.closing?, ends] at closes
        simp only [Task.close?, body, ← granted]
        cases delay : call.config.retry attempt error with
        | some delay =>
            rw [delay] at closes
            cases closes
            exact .inr ⟨by simp, _, rfl, rfl⟩
        | none =>
            rw [delay] at closes
            cases closes
            exact .inl (by simp)
  · simp only [StepCall.closing?, dies, BodyOutcome.closing?] at closes
    simp at closes

theorem StepCall.base_of_retrying (call : StepCall V) {before : Invocation V}
    {recorded : Operation} {position attempts : Nat} {name : String}
    (found : before.log.lookup? before.nextOrdinal = some recorded)
    (same : recorded.timeless = Operation.retrying position name attempts)
    (update : OperationUpdate) :
    (call.base before).withState update = (Operation.step position name).withState update := by
  have current : call.base before = recorded := Invocation.current_of_some found
  have sameIdentity : recorded.timeless.withState update =
      (Operation.retrying position name attempts).withState update := by
    rw [same]
  rw [current]
  exact sameIdentity

theorem Workflow.Carries.mayDie_of_crash {mayDie : Prop} {call : StepCall V} {task : Task V}
    (carries : Carries mayDie call task) {invocation : Invocation V} {attempt : Nat}
    (dies : (call.body (call.context invocation attempt)).outcome = .crash) : mayDie := by
  rcases carries.body (call.context invocation attempt) carries.name with ends | ⟨died, _⟩
  · rw [dies] at ends
    split at ends <;> simp at ends
  · exact died

/-- A step that finds its record closed returns the outcome that the record tells, and does
nothing. -/
theorem Workflow.Carries.replayed {mayDie : Prop} {call : StepCall V} {task : Task V}
    (carries : Carries mayDie call task)
    (decodes : ∀ value payload, task.codec.encode value = .ok payload →
      task.codec.decode payload = .ok value)
    {before : Invocation V} {recorded : Operation} {position : Nat} {update : OperationUpdate}
    {outcome : Except DurableError V} {reply : Reply V} {middle : List (Occurrence V)}
    (ends : task.Ends 1 update outcome)
    (found : recorded.timeless = (Operation.step position task.name).withState update)
    (course : PlanCourse before call
      (.ofRecord (some recorded) call.config.semantics before.now) reply middle) :
    reply = .returned outcome ∧ Occurrence.Quiet middle := by
  have status : recorded.status = update.status := congrArg Operation.status found
  have result : recorded.result = update.result := congrArg Operation.result found
  have error : recorded.error = update.error := congrArg Operation.error found
  have name : recorded.name = task.name := congrArg Operation.name found
  cases ends.closure with
  | succeeded attempt value payload encoded =>
      have succeeded : recorded.status = .succeeded := status
      have payloadRecorded : recorded.result = some payload := result
      simp only [StepPlan.ofRecord, succeeded] at course
      cases course
      refine ⟨?_, rfl, rfl⟩
      simp [Operation.replay, payloadRecorded, carries.codec, decodes value payload encoded,
        Except.mapError]
  | failed attempt failure =>
      have failed : recorded.status = .failed := status
      have failureRecorded : recorded.error = some failure := error
      simp only [StepPlan.ofRecord, failed] at course
      cases course
      exact ⟨by rw [failureRecorded, name, Option.getD_some], rfl, rfl⟩

/-- The invocation after a step call of the plan. -/
inductive Plan.StepFollowed (plan : Plan V O) (task : Task V)
    (next : Except DurableError V → Plan V O) (done : List Operation) (mayDie : Prop)
    (after : Invocation V) : Reply V → Prop where
  | goesOn {update : OperationUpdate} {outcome : Except DurableError V} {rest : List Operation}
      (ends : task.Ends 1 update outcome)
      (aligned : plan.Aligned (next outcome)
        (done ++ [(Operation.step done.length task.name).withState update]) rest after) :
      StepFollowed plan task next done mayDie after (.returned outcome)
  | stopped (outcome : Except DurableError V) (stopped : plan.Stopped after) :
      StepFollowed plan task next done mayDie after (.returned outcome)
  | crashed {operations : List Operation} (dies : mayDie)
      (views : after.log.Views operations) (trails : plan.Trails [] operations) :
      StepFollowed plan task next done mayDie after .crashed

namespace Plan.Aligned

variable {plan : Plan V O} {task : Task V} {next : Except DurableError V → Plan V O}
  {done rest : List Operation} {before after : Invocation V} {mayDie : Prop}
  {call : StepCall V} {reply : Reply V} {middle : List (Occurrence V)}

theorem haltOf?_closure {update : OperationUpdate} {outcome : Except DurableError V}
    (closure : task.Closure update outcome) : Invocation.haltOf? outcome = none := by
  cases closure <;> rfl

theorem close (aligned : plan.Aligned (.step task next) done rest before)
    (carries : Carries mayDie call task) (fresh : declaredAt? done task.name = none)
    {update : OperationUpdate} {outcome : Except DurableError V} {later : List Operation}
    {emitted : List (Occurrence V)} (ends : task.Ends 1 update outcome)
    (called : Invocation.Called before after .step call.name emitted
      (Invocation.haltOf? outcome))
    (views : after.log.Views
      (done ++ (Operation.step done.length task.name).withState update :: later))
    (trails : (next outcome).Trails
      (done ++ [(Operation.step done.length task.name).withState update]) later) :
    plan.StepFollowed task next done mayDie after (.returned outcome) := by
  rw [haltOf?_closure ends.closure, carries.name] at called
  have proceeded : plan.Aligned (next outcome) _ later after :=
    aligned.proceed called views trails (fun _ trails => .step fresh ends trails)
      fun _ walks => .step fresh ends walks
  exact .goesOn ends proceeded

theorem attempted (aligned : plan.Aligned (.step task next) done rest before)
    (last : rest.length ≤ 1)
    (base : ∀ update, (call.base before).withState update =
      (Operation.step done.length task.name).withState update)
    {number : Nat} (course : AttemptCourse before call number reply middle)
    {update : OperationUpdate}
    (latest : History.latest? (Occurrence.records middle) before.nextOrdinal =
      some ((call.base before).withState update))
    (called : Invocation.Called before after .step call.name
      (middle ++ reply.returning call.name after) reply.halt?) :
    after.log.Views
      (done ++ [((Operation.step done.length task.name).withState update).timeless]) := by
  have own : ∀ operation ∈ Occurrence.records middle, operation.ordinal = done.length := by
    intro operation member
    obtain ⟨state, rfl⟩ := course.states operation member
    rw [base]
    rfl
  rw [aligned.ordinal] at latest
  have views := aligned.views.put last own latest
  rwa [← (reply.returning_quiet call.name after).records_append, ← called.log, base] at views

theorem attempt (aligned : plan.Aligned (.step task next) done rest before)
    (carries : Carries mayDie call task) (fresh : declaredAt? done task.name = none)
    {attempts : Nat} (retried : task.Retried attempts) (last : rest.length ≤ 1)
    (base : ∀ update, (call.base before).withState update =
      (Operation.step done.length task.name).withState update)
    (careful : (before.store.faults = .none ∧ ¬mayDie) ∨ call.config.semantics = .atLeastOnce)
    (course : AttemptCourse before call (attempts + 1) reply middle)
    (called : Invocation.Called before after .step call.name
      (middle ++ reply.returning call.name after) reply.halt?) :
    plan.StepFollowed task next done mayDie after reply := by
  have returning := (reply.returning_quiet call.name after).records_append middle
  have made := course
  -- An attempt that is not recorded leaves the log as it was, unless it was marked.
  have unrecorded : call.config.semantics = .atLeastOnce → ∀ chatter,
      Occurrence.records chatter = [] →
      Occurrence.records (call.opening before (attempts + 1) ++ chatter) = [] := by
    intro unguarded chatter silent
    rw [Occurrence.records_append, StepCall.opening_records_of_atLeastOnce unguarded, silent]
    rfl
  cases course with
  | unmarked error guarded faulty =>
      rcases careful with ⟨reliable, _⟩ | unguarded
      · exact absurd reliable faulty
      · rw [guarded] at unguarded
        simp at unguarded
  | crashed chatter logs dies =>
      have died := carries.mayDie_of_crash dies
      rcases careful with ⟨_, immortal⟩ | unguarded
      · exact absurd died immortal
      · have views := aligned.unwritten called
          (returning.trans (unrecorded unguarded chatter logs.records))
        exact .crashed died views (aligned.whole _ aligned.trails)
  | lost chatter logs reading update outcome closes error faulty =>
      rcases careful with ⟨reliable, _⟩ | unguarded
      · exact absurd reliable faulty
      · have views := aligned.unwritten called (returning.trans
          (unrecorded unguarded _ (by simp [logs.records, Effect.record?])))
        exact .stopped _ (aligned.stop called.halt views aligned.trails (.store error))
  | closed chatter logs reading update outcome closes diagnostic =>
      have latest :=
        call.latest?_closing before (attempts + 1) logs reading update diagnostic
      have views := aligned.attempted last base made latest called
      rcases carries.closing? closes with closes | ⟨granted, readyAt, rfl, rfl⟩
      · rw [(Task.close?_closure closes).timeless] at views
        exact aligned.close carries fresh (retried.ends closes) called views (.start _ _)
      · exact .stopped _ (aligned.stop called.halt views
          (.retrying fresh (retried.succ granted)) (.suspended readyAt))

theorem replay (aligned : plan.Aligned (.step task next) done rest before)
    (carries : Carries mayDie call task)
    (decodes : ∀ value payload, task.codec.encode value = .ok payload →
      task.codec.decode payload = .ok value)
    (fresh : declaredAt? done task.name = none) {update : OperationUpdate}
    {outcome : Except DurableError V} {later : List Operation} {recorded : Operation}
    (ends : task.Ends 1 update outcome)
    (settled : rest = (Operation.step done.length task.name).withState update :: later)
    (trails : (next outcome).Trails
      (done ++ [(Operation.step done.length task.name).withState update]) later)
    (found : recorded.timeless = (Operation.step done.length task.name).withState update)
    (course : PlanCourse before call
      (.ofRecord (some recorded) call.config.semantics before.now) reply middle)
    (called : Invocation.Called before after .step call.name
      (middle ++ reply.returning call.name after) reply.halt?) :
    plan.StepFollowed task next done mayDie after reply := by
  obtain ⟨rfl, isQuiet⟩ := carries.replayed decodes ends found course
  have views := aligned.unwritten called
    (((Reply.returning_quiet _ call.name after).records_append middle).trans isQuiet.records)
  rw [settled] at views
  exact aligned.close carries fresh ends called views trails

theorem retry {attempts : Nat}
    (aligned : plan.Aligned (.step task next) done
      [Operation.retrying done.length task.name attempts] before)
    (carries : Carries mayDie call task) (fresh : declaredAt? done task.name = none)
    (retried : task.Retried attempts) {recorded : Operation}
    (found : before.log.lookup? before.nextOrdinal = some recorded)
    (same : recorded.timeless = Operation.retrying done.length task.name attempts)
    (careful : (before.store.faults = .none ∧ ¬mayDie) ∨ call.config.semantics = .atLeastOnce)
    (course : PlanCourse before call
      (.ofRecord (some recorded) call.config.semantics before.now) reply middle)
    (called : Invocation.Called before after .step call.name
      (middle ++ reply.returning call.name after) reply.halt?) :
    plan.StepFollowed task next done mayDie after reply := by
  have pending : recorded.status = .pending := congrArg Operation.status same
  have attempted : recorded.attempt = attempts := congrArg Operation.attempt same
  have base := call.base_of_retrying found same
  simp only [StepPlan.ofRecord, pending] at course
  split at course
  · cases course with
    | attempted number unfinished notDecreasing course =>
        rw [attempted] at course
        exact aligned.attempt carries fresh retried (Nat.le_refl 1) base careful course called
  · cases course with
    | fail error =>
        exact .stopped _ (aligned.stop called.halt (aligned.unwritten called rfl)
          aligned.trails (.suspended _))

theorem fits (aligned : plan.Aligned (.step task next) done rest before) {operation : Operation}
    (found : before.log.lookup? before.nextOrdinal = some operation) :
    operation.kind = .step ∧ operation.name = task.name := by
  have next := aligned.views.next
  rw [← aligned.ordinal, found, Option.map_some] at next
  cases aligned.trails with
  | start => simp at next
  | step fresh ends trails =>
      have same := Option.some.inj next
      exact ⟨congrArg Operation.kind same, congrArg Operation.name same⟩
  | retrying fresh retried =>
      have same := Option.some.inj next
      exact ⟨congrArg Operation.kind same, congrArg Operation.name same⟩

theorem step (aligned : plan.Aligned (.step task next) done rest before)
    (carries : Carries mayDie call task)
    (decodes : ∀ value payload, task.codec.encode value = .ok payload →
      task.codec.decode payload = .ok value)
    (careful : (before.store.faults = .none ∧ ¬mayDie) ∨ call.config.semantics = .atLeastOnce)
    (course : StepCourse before call reply middle)
    (called : Invocation.Called before after .step call.name
      (middle ++ reply.returning call.name after) reply.halt?) :
    plan.StepFollowed task next done mayDie after reply := by
  have names : before.declaredAt? call.name = declaredAt? done task.name := by
    rw [aligned.names, carries.name]
  have next := aligned.views.next
  rw [← aligned.ordinal] at next
  cases course with
  | duplicate first known =>
      rw [names] at known
      have none := aligned.trails.nothing_of_stepTwice known
      have views := aligned.unwritten called rfl
      refine .stopped _ (aligned.stop called.halt views aligned.trails (.fatal _ ?_))
      rw [none, List.append_nil, carries.name]
      exact aligned.reference _ (.stepTwice known)
  | mismatched operation fresh found other =>
      have fits := aligned.fits found
      rw [← carries.name] at fits
      exact absurd fits other
  | planned recorded fresh found same course =>
      rw [names] at fresh
      rw [found] at next
      cases aligned.trails with
      | start =>
          have absent : recorded = none := Option.map_eq_none_iff.mp next
          subst absent
          have base : call.base before = .step done.length task.name := by
            rw [← aligned.ordinal, ← carries.name]
            exact Invocation.current_of_none found
          have retried : task.Retried 0 := fun attempt positive le => by omega
          cases course with
          | attempted number unfinished notDecreasing course =>
              exact aligned.attempt carries fresh retried (Nat.zero_le 1)
                (fun update => by rw [base]) careful course called
      | step _ ends trails =>
          obtain ⟨operation, rfl, recordedFound⟩ := Option.map_eq_some_iff.mp next
          exact aligned.replay carries decodes fresh ends rfl trails recordedFound course called
      | @retrying _ _ _ attempts _ retried =>
          obtain ⟨operation, rfl, recordedFound⟩ := Option.map_eq_some_iff.mp next
          exact aligned.retry carries fresh retried found recordedFound careful course called

end Plan.Aligned

/-- The invocation after a wait call of the plan. -/
inductive Plan.WaitFollowed (plan : Plan V O) (name : String)
    (next : Except DurableError Unit → Plan V O) (done : List Operation)
    (after : Invocation V) : Except DurableError Unit → Prop where
  | goesOn {rest : List Operation}
      (aligned : plan.Aligned (next (.ok ())) (done ++ [Operation.passed done.length name]) rest
        after) :
      WaitFollowed plan name next done after (.ok ())
  | stopped (outcome : Except DurableError Unit) (stopped : plan.Stopped after) :
      WaitFollowed plan name next done after outcome

namespace Plan.Aligned

variable {plan : Plan V O} {name : String} {next : Except DurableError Unit → Plan V O}
  {done rest : List Operation} {before after : Invocation V}
  {call : WaitCall} {outcome : Except DurableError Unit} {middle : List (Occurrence V)}

theorem pass (aligned : plan.Aligned (.wait name next) done rest before)
    (fresh : declaredAt? done name = none) {later : List Operation}
    {emitted : List (Occurrence V)}
    (called : Invocation.Called before after .timer name emitted none)
    (views : after.log.Views (done ++ Operation.passed done.length name :: later))
    (trails : (next (.ok ())).Trails (done ++ [Operation.passed done.length name]) later) :
    plan.WaitFollowed name next done after (.ok ()) := by
  have proceeded : plan.Aligned (next (.ok ())) _ later after :=
    aligned.proceed called views trails (fun _ trails => .wait fresh trails)
      fun _ walks => .wait fresh walks
  exact .goesOn proceeded

theorem wrote (aligned : plan.Aligned (.wait name next) done rest before)
    (last : rest.length ≤ 1) {record : Operation} (ordinal : record.ordinal = done.length)
    {emitted : List (Occurrence V)} {halt : Option Halt}
    (called : Invocation.Called before after .timer call.name emitted halt)
    (records : Occurrence.records emitted = [record]) :
    after.log.Views (done ++ [record.timeless]) := by
  rw [called.log, records]
  apply aligned.views.put last (by simp [ordinal])
  rw [← List.nil_append [record], History.latest?_append_singleton, if_pos ordinal]

theorem started (aligned : plan.Aligned (.wait name next) done [] before)
    (sameName : call.name = name) {emitted : List (Occurrence V)} {halt : Option Halt}
    (called : Invocation.Called before after .timer call.name emitted halt)
    (records : Occurrence.records emitted = [call.timer before]) :
    after.log.Views (done ++ [Operation.waiting done.length name]) := by
  have waiting : (call.timer before).timeless = Operation.waiting done.length name := by
    rw [← aligned.ordinal, ← sameName]
    rfl
  rw [← waiting]
  exact aligned.wrote (Nat.zero_le 1) aligned.ordinal called records

theorem passed (aligned : plan.Aligned (.wait name next) done [] before)
    (sameName : call.name = name) {emitted : List (Occurrence V)} {halt : Option Halt}
    (called : Invocation.Called before after .timer call.name emitted halt)
    (records : Occurrence.records emitted = [(call.timer before).elapsed]) :
    after.log.Views (done ++ [Operation.passed done.length name]) := by
  have elapsed : (call.timer before).elapsed.timeless = Operation.passed done.length name := by
    rw [← aligned.ordinal, ← sameName]
    rfl
  rw [← elapsed]
  exact aligned.wrote (Nat.zero_le 1) aligned.ordinal called records

theorem elapsed
    (aligned : plan.Aligned (.wait name next) done [Operation.waiting done.length name] before)
    {timer : Operation} (found : timer.timeless = Operation.waiting done.length name)
    {emitted : List (Occurrence V)} {halt : Option Halt}
    (called : Invocation.Called before after .timer call.name emitted halt)
    (records : Occurrence.records emitted = [timer.elapsed]) :
    after.log.Views (done ++ [Operation.passed done.length name]) := by
  have ordinal : timer.elapsed.ordinal = done.length := congrArg Operation.ordinal found
  have elapsed : timer.elapsed.timeless = Operation.passed done.length name := by
    have early : timer.elapsed.timeless = timer.timeless.elapsed := rfl
    rw [early, found]
    rfl
  rw [← elapsed]
  exact aligned.wrote (Nat.le_refl 1) ordinal called records

theorem startWait (aligned : plan.Aligned (.wait name next) done [] before)
    (sameName : call.name = name) (fresh : declaredAt? done name = none)
    (course : TimerCourse before call .start outcome middle)
    (called : Invocation.Called before after .timer call.name
      (middle ++ [⟨after.now, .waitReturned call.name outcome after.isReplaying⟩])
      (Invocation.haltOf? outcome)) :
    plan.WaitFollowed name next done after outcome := by
  cases course with
  | passed due =>
      have views := aligned.passed sameName called rfl
      rw [sameName] at called
      exact aligned.pass fresh called views (.start _ _)
  | started notDue diagnostic =>
      have views := aligned.started sameName called rfl
      exact .stopped _ (aligned.stop called.halt views (.waiting fresh) (.suspended _))
  | lost written error faulty =>
      exact .stopped _ (aligned.stop called.halt (aligned.unwritten called rfl) aligned.trails
        (.store error))

theorem resumeWait
    (aligned : plan.Aligned (.wait name next) done [Operation.waiting done.length name] before)
    (sameName : call.name = name) (fresh : declaredAt? done name = none) {timer : Operation}
    (found : timer.timeless = Operation.waiting done.length name)
    (course : TimerCourse before call (.ofRecord (some timer) before.now) outcome middle)
    (called : Invocation.Called before after .timer call.name
      (middle ++ [⟨after.now, .waitReturned call.name outcome after.isReplaying⟩])
      (Invocation.haltOf? outcome)) :
    plan.WaitFollowed name next done after outcome := by
  have pending : timer.status = .pending := congrArg Operation.status found
  simp only [WaitPlan.ofRecord, pending] at course
  split at course
  · cases course with
    | elapsed _ diagnostic =>
        have views := aligned.elapsed found called rfl
        rw [sameName] at called
        exact aligned.pass fresh called views (.start _ _)
    | unelapsed _ error faulty =>
        exact .stopped _ (aligned.stop called.halt (aligned.unwritten called rfl)
          aligned.trails (.store error))
  · cases course with
    | fail error =>
        exact .stopped _ (aligned.stop called.halt (aligned.unwritten called rfl)
          aligned.trails (.suspended _))

theorem fitsWait (aligned : plan.Aligned (.wait name next) done rest before)
    {operation : Operation}
    (found : before.log.lookup? before.nextOrdinal = some operation) :
    operation.kind = .timer ∧ operation.name = name := by
  have next := aligned.views.next
  rw [← aligned.ordinal, found, Option.map_some] at next
  cases aligned.trails with
  | start => simp at next
  | wait fresh trails =>
      have same := Option.some.inj next
      exact ⟨congrArg Operation.kind same, congrArg Operation.name same⟩
  | waiting fresh =>
      have same := Option.some.inj next
      exact ⟨congrArg Operation.kind same, congrArg Operation.name same⟩

theorem wait (aligned : plan.Aligned (.wait name next) done rest before)
    (sameName : call.name = name) (course : WaitCourse before call outcome middle)
    (called : Invocation.Called before after .timer call.name
      (middle ++ [⟨after.now, .waitReturned call.name outcome after.isReplaying⟩])
      (Invocation.haltOf? outcome)) :
    plan.WaitFollowed name next done after outcome := by
  have names : before.declaredAt? call.name = declaredAt? done name := by
    rw [aligned.names, sameName]
  have next := aligned.views.next
  rw [← aligned.ordinal] at next
  cases course with
  | duplicate first known =>
      rw [names] at known
      have none := aligned.trails.nothing_of_waitTwice known
      have views := aligned.unwritten called rfl
      refine .stopped _ (aligned.stop called.halt views aligned.trails (.fatal _ ?_))
      rw [none, List.append_nil, sameName]
      exact aligned.reference _ (.waitTwice known)
  | mismatched operation fresh found other =>
      have fits := aligned.fitsWait found
      rw [← sameName] at fits
      exact absurd fits other
  | planned recorded fresh found same course =>
      rw [names] at fresh
      rw [found] at next
      cases aligned.trails with
      | start =>
          obtain rfl : recorded = none := Option.map_eq_none_iff.mp next
          exact aligned.startWait sameName fresh course called
      | wait _ trails =>
          obtain ⟨timer, rfl, recordedFound⟩ := Option.map_eq_some_iff.mp next
          have succeeded : timer.status = .succeeded := congrArg Operation.status recordedFound
          simp only [WaitPlan.ofRecord, succeeded] at course
          cases course
          have views := aligned.unwritten called rfl
          rw [sameName] at called
          exact aligned.pass fresh called views trails
      | waiting _ =>
          obtain ⟨timer, rfl, recordedFound⟩ := Option.map_eq_some_iff.mp next
          exact aligned.resumeWait sameName fresh recordedFound course called

end Plan.Aligned

/-- The invocation at the end of a pass that followed the plan. -/
inductive Plan.PassFollowed (plan : Plan V O) (mayDie : Prop) (final : Invocation V) :
    PassEnd O → Prop where
  | finished {outcome : Except DurableError O} {operations : List Operation}
      (free : final.halt = none) (views : final.log.Views operations)
      (trails : plan.Trails [] operations)
      (evaluates : plan.Evaluates (.ofOutcome outcome operations)) :
      PassFollowed plan mayDie final (.returned outcome)
  | stopped (outcome : Except DurableError O) (stopped : plan.Stopped final) :
      PassFollowed plan mayDie final (.returned outcome)
  | crashed {operations : List Operation} (dies : mayDie)
      (views : final.log.Views operations) (trails : plan.Trails [] operations) :
      PassFollowed plan mayDie final .crashed

/-- Either nothing can go wrong, or every step of the workflow may be repeated. -/
def Workflow.Careful (faults : FaultPlan) (mayDie : Prop) (workflow : Workflow V O) : Prop :=
  (faults = .none ∧ ¬mayDie) ∨
    workflow.EveryStep fun call => call.config.semantics = .atLeastOnce

theorem Plan.Stopped.run {plan : Plan V O} {mayDie : Prop} {before : Invocation V}
    (stopped : plan.Stopped before) (workflow : Workflow V O) :
    plan.PassFollowed mayDie (workflow.run before).2 (workflow.run before).1 := by
  obtain ⟨halt, operations, halted, views, trails, halts⟩ := stopped
  obtain ⟨outcome, after, ran, haltedAfter, log⟩ := workflow.run_halted halted
  rw [ran]
  exact .stopped outcome ⟨halt, operations, haltedAfter, by rw [log]; exact views, trails, halts⟩

/-- A pass of a workflow that follows what is left of the plan. -/
theorem Workflow.Follows.run {mayDie : Prop} {workflow : Workflow V O} {current : Plan V O}
    (follows : workflow.Follows mayDie current) {plan : Plan V O} {medium : Medium}
    (lossless : current.Lossless medium) {done rest : List Operation} {before : Invocation V}
    (aligned : plan.Aligned current done rest before)
    (careful : workflow.Careful before.store.faults mayDie) :
    plan.PassFollowed mayDie (workflow.run before).2 (workflow.run before).1 := by
  induction follows generalizing before done rest with
  | done outcome =>
      have none : rest = [] := by
        cases aligned.trails
        rfl
      have views := aligned.views
      have trails := aligned.whole rest aligned.trails
      rw [none, List.append_nil] at views trails
      exact .finished aligned.free views trails (aligned.reference _ (.done outcome done))
  | @step name config codec body next task planNext carries follows induction =>
      let call : StepCall V := ⟨name, config, codec, body⟩
      cases stepped : before.step name config codec body with
      | mk reply after =>
          obtain ⟨middle, course, called⟩ :=
            Invocation.step_course aligned.free call stepped
          have followed := aligned.step carries
            (fun value payload encoded => (lossless.1 value payload encoded).2)
            (careful.imp id fun each => each.1) course called
          simp only [Workflow.run, stepped]
          cases followed with
          | goesOn ends alignedAfter =>
              apply induction _ _ ends (lossless.2 _) alignedAfter
              rw [called.extension.faults]
              exact careful.imp id fun each => each.2 _
          | stopped outcome stopped => exact stopped.run (next outcome)
          | crashed dies views trails => exact .crashed dies views trails
  | @wait name duration next planNext follows induction =>
      let call : WaitCall := ⟨name, duration⟩
      cases waited : before.wait name duration with
      | mk outcome after =>
          obtain ⟨middle, course, called⟩ :=
            Invocation.wait_course aligned.free call waited
          have followed := aligned.wait rfl course called
          simp only [Workflow.run, waited]
          cases followed with
          | goesOn alignedAfter =>
              apply induction (lossless _) alignedAfter
              rw [called.extension.faults]
              exact careful.imp id fun each => each _
          | stopped _ stopped => exact stopped.run (next outcome)
  | @log level message next plan' follows induction =>
      obtain ⟨chatter, _, extension, _⟩ := Invocation.logCall_course before level message
      apply induction lossless (aligned.logCall level message)
      rw [extension.faults]
      exact careful
  | observe follows induction =>
      exact induction before.observation lossless aligned.observe
        (careful.imp id fun each => each before.observation)
  | @advance duration next plan' follows induction =>
      exact induction lossless (aligned.advance duration) careful

end Durable
