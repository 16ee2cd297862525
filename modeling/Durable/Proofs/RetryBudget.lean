import Durable.Proofs.AttemptNumbers

/-!
# Retry budgets

A step whose attempts all fail is attempted under the numbers one, two and so on, each of
them once, until the strategy grants no retry, and then has failed with the error of its last
attempt.  Whatever else happens, no number goes beyond the budget of the strategy.
-/

namespace Durable

variable {V O : Type}

open Occurrence

namespace RetryStrategy

/-- The last attempt of a step whose attempts fail with these errors: the first one within
the limit whose error is refused, or else the limit, which allows one attempt at least. -/
def lastAttempt (strategy : RetryStrategy) (limit : Nat) (errors : Nat → ErrorObject) : Nat :=
  ((List.range' 1 (max 1 limit)).find? fun attempt => strategy.refuses (errors attempt)).getD
    (max 1 limit)

/-- The attempt that is not retried is the last one when the ones before it were. -/
theorem eq_lastAttempt {strategy : RetryStrategy} {limit attempt : Nat}
    {errors : Nat → ErrorObject} (counted : 0 < attempt) (within : attempt ≤ max 1 limit)
    (earlier : ∀ number, 0 < number → number < attempt →
      strategy.refuses (errors number) = false)
    (last : ¬(attempt < limit ∧ strategy.refuses (errors attempt) = false)) :
    attempt = strategy.lastAttempt limit errors := by
  unfold lastAttempt
  cases refused : strategy.refuses (errors attempt) with
  | true =>
      have first : (List.range' 1 (max 1 limit)).find?
          (fun number => strategy.refuses (errors number)) = some attempt := by
        refine List.find?_range'_eq_some.mpr ⟨refused, List.mem_range'_1.mpr (by omega), ?_⟩
        intro number positive below
        rw [earlier number positive below]
        rfl
      rw [first, Option.getD_some]
  | false =>
      -- The error is one that would be retried, so the attempt has reached the limit.
      obtain rfl : attempt = max 1 limit := by
        have reached : ¬attempt < limit := fun below => last ⟨below, refused⟩
        omega
      have none : (List.range' 1 (max 1 limit)).find?
          (fun number => strategy.refuses (errors number)) = none := by
        refine List.find?_range'_eq_none.mpr fun number positive below => ?_
        rcases Nat.lt_or_ge number (max 1 limit) with before | here
        · rw [earlier number positive before]
          rfl
        · obtain rfl : number = max 1 limit := by omega
          rw [refused]
          rfl
      rw [none, Option.getD_none]

theorem lastAttempt_eq_min {strategy : RetryStrategy} {errors : Nat → ErrorObject} {first : Nat}
    (counted : 0 < first) (refused : strategy.refuses (errors first) = true)
    (earlier : ∀ number, 0 < number → number < first → strategy.refuses (errors number) = false)
    (limit : Nat) : strategy.lastAttempt limit errors = min first (max 1 limit) := by
  refine (eq_lastAttempt (by omega) (Nat.min_le_right _ _)
    (fun number positive below => earlier number positive (by omega)) ?_).symm
  rintro ⟨below, granted⟩
  have same : min first (max 1 limit) = first := by omega
  rw [same, refused] at granted
  cases granted

example : (RetryStrategy.exponential { ExponentialBackoff.standard with nonRetryable := ["Gone"] }
    ).lastAttempt 6 (fun attempt => ⟨if attempt = 3 then "Gone" else "Busy", ""⟩) = 3 := by
  rfl

end RetryStrategy

/-- The number of the attempt, when the body of the operation begins. -/
def Effect.runOf? (ordinal : Nat) (name : String) : Effect V → Option Nat
  | .bodyBegun own _ context _ =>
    if own = ordinal ∧ context.name = name then some context.attempt else none
  | _ => none

namespace Occurrence

/-- The attempts for which the body of the operation was run, in order. -/
def runs (trace : List (Occurrence V)) (ordinal : Nat) (name : String) : List Nat :=
  trace.filterMap fun occurrence => occurrence.effect.runOf? ordinal name

@[simp] theorem runs_append (earlier later : List (Occurrence V)) (ordinal : Nat)
    (name : String) :
    runs (earlier ++ later) ordinal name = runs earlier ordinal name ++ runs later ordinal name := by
  simp [runs]

theorem runs_of_bodies {occurrences : List (Occurrence V)} (idle : bodies occurrences = [])
    (ordinal : Nat) (name : String) : runs occurrences ordinal name = [] := by
  refine List.filterMap_eq_nil_iff.mpr fun occurrence member => ?_
  have notBody := List.filter_eq_nil_iff.mp idle occurrence member
  cases effect : occurrence.effect <;> simp_all [Effect.runOf?, Effect.isBody]

theorem Quiet.runs {emitted : List (Occurrence V)} (isQuiet : Quiet emitted)
    (trace : List (Occurrence V)) (ordinal : Nat) (name : String) :
    Occurrence.runs (trace ++ emitted) ordinal name = Occurrence.runs trace ordinal name := by
  rw [runs_append, runs_of_bodies isQuiet.bodies, List.append_nil]

end Occurrence

namespace StepCall

theorem opening_runs (call : StepCall V) (invocation : Invocation V) (number ordinal : Nat)
    (name : String) :
    runs (call.opening invocation number) ordinal name =
      if invocation.nextOrdinal = ordinal ∧ call.name = name then [number] else [] := by
  rw [opening, runs_append, runs_of_bodies (marker_bodies _ _ _), List.nil_append]
  by_cases own : invocation.nextOrdinal = ordinal ∧ call.name = name <;>
    simp [runs, Effect.runOf?, context, own]

end StepCall

theorem AttemptCourse.runs_other {invocation : Invocation V} {call : StepCall V} {number : Nat}
    {reply : Reply V} {part : List (Occurrence V)}
    (course : AttemptCourse invocation call number reply part) {ordinal : Nat} {name : String}
    (other : ¬(invocation.nextOrdinal = ordinal ∧ call.name = name)) :
    runs part ordinal name = [] := by
  have opening : runs (call.opening invocation number) ordinal name = [] := by
    rw [call.opening_runs, if_neg other]
  cases course with
  | unmarked error guarded faulty => rfl
  | crashed chatter logs dies =>
      rw [runs_append, opening, runs_of_bodies logs.bodies, List.append_nil]
  | lost chatter logs reading update outcome closes error faulty timed =>
      rw [runs_append, opening, List.nil_append]
      exact runs_of_bodies (by simp [logs.bodies, Effect.isBody]) ordinal name
  | closed chatter logs reading update outcome closes diagnostic timed =>
      rw [runs_append, opening, List.nil_append]
      exact runs_of_bodies (by simp [logs.bodies, Effect.isBody]) ordinal name

theorem MadeCall.Engages.runs_other {made : MadeCall V} {part : List (Occurrence V)}
    (engages : made.Engages part) {ordinal : Nat} {name : String}
    (other : ¬(made.before.nextOrdinal = ordinal ∧ made.declaration.kind = .step ∧
      made.declaration.name = name)) :
    runs part ordinal name = [] := by
  cases engages with
  | idle => rfl
  | waited call declared course => exact runs_of_bodies course.bodies ordinal name
  | reported call declared operation found own started reading => rfl
  | attempted call declared number own planned course =>
      rw [declared] at other
      exact course.runs_other fun same => other ⟨same.1, rfl, same.2⟩

/-- Whenever the body begins, it fails with the error of the attempt. -/
def Occurrence.AllFail (body : StepBody V) (errors : Nat → ErrorObject)
    (occurrences : List (Occurrence V)) : Prop :=
  ∀ reading ordinal semantics context replaying,
    ⟨reading, .bodyBegun ordinal semantics context replaying⟩ ∈ occurrences →
      (body context).outcome = .failure (errors context.attempt)

/-- The attempts that the call makes all fail, with the error of their number. -/
def MadeCall.Fails (errors : Nat → ErrorObject) (made : MadeCall V) : Prop :=
  ∀ call, made.declaration = .step call → AllFail call.body errors made.emitted

/-- The record says that the step failed for good at the last attempt that the strategy
allows, with the error of that attempt. -/
structure Operation.Exhausts (record : Operation) (strategy : RetryStrategy) (limit : Nat)
    (errors : Nat → ErrorObject) : Prop where
  failed : record.status = .failed
  attempt : record.attempt = strategy.lastAttempt limit errors
  error : record.error = some (errors record.attempt)

/-- How far the attempts of a step have come when all of them have failed, given its latest
record and the runs of its body. -/
inductive Exhaustion (name : String) (strategy : RetryStrategy) (limit : Nat)
    (errors : Nat → ErrorObject) : Option Operation → List Nat → Prop where
  | untried : Exhaustion name strategy limit errors none []
  | foreign (record : Operation) (runs : List Nat)
      (other : ¬(record.kind = .step ∧ record.name = name)) :
      Exhaustion name strategy limit errors (some record) runs
  | waiting (record : Operation) (pending : record.status = .pending)
      (below : record.attempt < limit)
      (granted : ∀ number, 0 < number → number ≤ record.attempt →
        strategy.refuses (errors number) = false) :
      Exhaustion name strategy limit errors (some record) (List.range' 1 record.attempt)
  | exhausted (record : Operation) (exhausts : record.Exhausts strategy limit errors) :
      Exhaustion name strategy limit errors (some record) (List.range' 1 record.attempt)

theorem BodyOutcome.closing?_failure {error : ErrorObject} {retry : RetryPolicy}
    {codec : Codec V} {name : String} {attempt : Nat} {now : Instant}
    {update : OperationUpdate} {seen : Except DurableError V}
    (closes : (BodyOutcome.failure error : BodyOutcome V).closing? retry codec name attempt now =
      some (update, seen)) :
    ((retry attempt error).isSome = true ∧ update.status = .pending) ∨
      ((retry attempt error).isSome = false ∧ update = .failed attempt error) := by
  simp only [closing?] at closes
  split at closes
  · next granted =>
      cases closes
      exact .inl ⟨by rw [granted]; rfl, rfl⟩
  · next refused =>
      cases closes
      exact .inr ⟨by rw [refused]; rfl, rfl⟩

namespace Exhaustion

variable {name : String} {strategy : RetryStrategy} {limit ordinal : Nat}
  {errors : Nat → ErrorObject} {trace part : List (Occurrence V)}

theorem other (exhaustion : Exhaustion name strategy limit errors
      (History.latest? (records trace) ordinal) (runs trace ordinal name))
    (foreign : ∀ record ∈ records part, record.ordinal = ordinal →
      ¬(record.kind = .step ∧ record.name = name))
    (idle : runs part ordinal name = []) :
    Exhaustion name strategy limit errors
      (History.latest? (records (trace ++ part)) ordinal) (runs (trace ++ part) ordinal name) := by
  rw [runs_append, idle, List.append_nil, records_append, History.latest?_append]
  cases latest : History.latest? (records part) ordinal with
  | none =>
      rw [Option.none_or]
      exact exhaustion
  | some record =>
      obtain ⟨member, here⟩ := History.latest?_mem latest
      rw [Option.some_or]
      exact .foreign record _ (foreign record member here)

variable {invocation : Invocation V} {call : StepCall V} {number : Nat}

/-- The attempt that is planned is the first one that has not been made. -/
theorem next (exhaustion : Exhaustion call.name strategy limit errors
      (History.latest? (records trace) invocation.nextOrdinal)
      (runs trace invocation.nextOrdinal call.name))
    (follows : invocation.Follows trace)
    (own : ∀ operation, invocation.log.lookup? invocation.nextOrdinal = some operation →
      operation.kind = .step ∧ operation.name = call.name)
    (planned : StepPlan.ofRecord (invocation.log.lookup? invocation.nextOrdinal)
      call.config.semantics invocation.now = .attempt number) :
    ∃ passed, number = passed + 1 ∧ number ≤ max 1 limit ∧
      runs trace invocation.nextOrdinal call.name = List.range' 1 passed ∧
      ∀ earlier, 0 < earlier → earlier < number → strategy.refuses (errors earlier) = false := by
  rcases StepPlan.ofRecord_eq_attempt planned with ⟨absent, rfl⟩ | ⟨operation, found, due⟩
  · rw [follows.absent absent] at exhaustion
    generalize runs trace _ _ = passedRuns at exhaustion ⊢
    cases exhaustion
    exact ⟨0, rfl, Nat.le_max_left 1 limit, rfl, by omega⟩
  · obtain ⟨written, latest, same⟩ := follows.found found
    obtain ⟨kind, sameName, status, attempt, _⟩ := Operation.fields_of_lasting same
    obtain ⟨step, named⟩ := own operation found
    rw [latest] at exhaustion
    generalize runs trace _ _ = passedRuns at exhaustion ⊢
    cases exhaustion with
    | foreign record runs other =>
        exact absurd ⟨kind.symm.trans step, sameName.symm.trans named⟩ other
    | waiting record pending below granted =>
        rcases due with ⟨_, _, rfl⟩ | ⟨started, _⟩
        · exact ⟨written.attempt, by omega, by omega, rfl,
            fun earlier positive before => granted earlier positive (by omega)⟩
        · cases (pending.symm.trans status.symm).trans started
    | exhausted record exhausts =>
        have failed := status.trans exhausts.failed
        rcases due with ⟨pending, _⟩ | ⟨started, _⟩
        · cases failed.symm.trans pending
        · cases failed.symm.trans started

/-- An attempt that fails, and whose records are not lost, waits for the next one or is the
last. -/
theorem attempt {passed : Nat} (limited : strategy.maxAttempts? = some limit)
    (retried : call.RetriesBy call.name strategy)
    (next : number = passed + 1) (within : number ≤ max 1 limit)
    (ran : runs trace invocation.nextOrdinal call.name = List.range' 1 passed)
    (earlier : ∀ earlier, 0 < earlier → earlier < number →
      strategy.refuses (errors earlier) = false)
    {reply : Reply V} (course : AttemptCourse invocation call number reply part)
    (fails : AllFail call.body errors part) (kept : lost part = []) :
    Exhaustion call.name strategy limit errors
      (History.latest? (records (trace ++ part)) invocation.nextOrdinal)
      (runs (trace ++ part) invocation.nextOrdinal call.name) := by
  have begins : ⟨invocation.now, .bodyBegun invocation.nextOrdinal call.config.semantics
      (call.context invocation number) false⟩ ∈ call.opening invocation number :=
    List.mem_append_right _ (List.mem_singleton_self _)
  cases course with
  | unmarked error guarded faulty => cases kept
  | crashed chatter logs dies =>
      have failed := fails _ _ _ _ _ (List.mem_append_left _ begins)
      cases failed.symm.trans dies
  | lost chatter logs reading update outcome closes error faulty timed =>
      simp [Effect.lost?] at kept
  | closed chatter logs reading update outcome closes diagnostic timed =>
      let record := (call.base invocation).withState update
      have attempt : record.attempt = passed + 1 :=
        (BodyOutcome.closing?_attempt closes).trans next
      have idle : bodies (chatter ++ [(⟨reading, .appended record⟩ : Occurrence V),
          ⟨reading, .diagnosed diagnostic⟩]) = [] := by
        simp [logs.bodies, Effect.isBody]
      have ranNow : runs (trace ++ (call.opening invocation number ++ (chatter ++
          [⟨reading, .appended record⟩, ⟨reading, .diagnosed diagnostic⟩])))
          invocation.nextOrdinal call.name = List.range' 1 record.attempt := by
        rw [runs_append, runs_append, ran, call.opening_runs, if_pos ⟨rfl, rfl⟩,
          runs_of_bodies idle, List.append_nil, attempt, List.range'_1_concat, next,
          Nat.add_comm 1 passed]
      have latest := call.latest?_closing invocation number logs reading update diagnostic
      rw [ranNow, records_append, History.latest?_append, latest, Option.some_or]
      obtain ⟨sampler, policy⟩ := retried rfl
      have positive : 0 < number := by omega
      have grants := RetryStrategy.delay?_isSome limited positive sampler (errors number)
      have failed : (call.body (call.context invocation number)).outcome =
          .failure (errors number) := fails _ _ _ _ _ (List.mem_append_left _ begins)
      rw [StepCall.closing?, failed] at closes
      rcases BodyOutcome.closing?_failure closes with ⟨granted, pending⟩ | ⟨refused, rfl⟩
      · rw [policy, grants] at granted
        refine .waiting record pending (by omega) fun earlierNumber positive reached => ?_
        rcases Nat.lt_or_ge earlierNumber number with before | here
        · exact earlier earlierNumber positive before
        · obtain rfl : earlierNumber = number := by omega
          exact granted.2
      · rw [policy, Bool.eq_false_iff, ne_eq, grants] at refused
        refine .exhausted record ⟨rfl, ?_, ?_⟩
        · rw [attempt, ← next]
          exact RetryStrategy.eq_lastAttempt (by omega) within earlier refused
        · exact congrArg (fun number => some (errors number)) (attempt.trans next.symm).symm

theorem not_started {record : Operation} {runs : List Nat}
    (exhaustion : Exhaustion name strategy limit errors (some record) runs)
    (step : record.kind = .step) (named : record.name = name) : record.status ≠ .started := by
  intro started
  cases exhaustion with
  | foreign record runs other => exact other ⟨step, named⟩
  | waiting record pending below granted => cases pending.symm.trans started
  | exhausted record exhausts => cases exhausts.failed.symm.trans started

theorem terminal {written operation : Operation} {runs : List Nat}
    (exhaustion : Exhaustion name strategy limit errors (some written) runs)
    (same : written.lasting = operation.lasting) (step : operation.kind = .step)
    (named : operation.name = name) (ended : operation.isTerminal = true) :
    operation.Exhausts strategy limit errors ∧ runs = List.range' 1 operation.attempt := by
  obtain ⟨kind, sameName, status, attempt, error⟩ := Operation.fields_of_lasting same
  cases exhaustion with
  | foreign record runs other =>
      exact absurd ⟨kind.symm.trans step, sameName.symm.trans named⟩ other
  | waiting record pending below granted =>
      rw [Operation.isTerminal_of_status (status.trans pending)] at ended
      cases ended
  | exhausted record exhausts =>
      obtain ⟨failed, last, errored⟩ := exhausts
      rw [← status] at failed
      rw [← attempt] at last errored ⊢
      rw [← error] at errored
      exact ⟨⟨failed, last, errored⟩, rfl⟩

/-- Every call keeps the account of the attempts, as long as those of the operation fail and
nothing is lost. -/
theorem keeps (limited : strategy.maxAttempts? = some limit) :
    Session.Keeps (StepCall.RetriesBy (V := V) name strategy) fun calls trace =>
      (∀ made ∈ calls, made.before.nextOrdinal = ordinal → made.declaration.name = name →
        made.Fails errors) →
      lost trace = [] →
      Exhaustion name strategy limit errors (History.latest? (records trace) ordinal)
        (runs trace ordinal name) where
  quiet holds isQuiet failing kept := by
    rw [isQuiet.records_append, isQuiet.runs]
    rw [lost_append] at kept
    exact holds failing (List.append_eq_nil_iff.mp kept).1
  call := by
    intro calls trace part made retried follows inside engages holds failing kept
    rw [lost_append] at kept
    obtain ⟨keptBefore, keptNow⟩ := List.append_eq_nil_iff.mp kept
    have exhaustion := holds
      (fun earlier member => failing earlier (List.mem_append_left _ member)) keptBefore
    by_cases own : made.before.nextOrdinal = ordinal ∧ made.declaration.kind = .step ∧
        made.declaration.name = name
    · -- The call is one of the operation, so it goes on from what the account says.
      have fails := failing made (by simp) own.1 own.2.2
      cases engages with
      | idle => simpa using exhaustion
      | waited call declared course =>
          rw [declared] at own
          cases own.2.1
      | reported call declared operation found same started reading =>
          rw [declared] at own
          obtain ⟨rfl, _, rfl⟩ := own
          obtain ⟨written, latest, lasts⟩ := follows.found found
          obtain ⟨kind, sameName, status, _⟩ := Operation.fields_of_lasting lasts
          rw [latest] at exhaustion
          exact absurd (status.symm.trans started)
            (exhaustion.not_started (kind.symm.trans same.1) (sameName.symm.trans same.2))
      | attempted call declared number same planned course =>
          rw [declared] at own
          obtain ⟨rfl, _, rfl⟩ := own
          obtain ⟨passed, next, within, ran, earlier⟩ := exhaustion.next follows same planned
          exact attempt limited (retried call declared) next within ran earlier course
            (fun _ _ _ _ _ member => fails call declared _ _ _ _ _ (inside _ member)) keptNow
    · refine exhaustion.other ?_ (engages.runs_other own)
      rintro record member here ⟨step, named⟩
      obtain ⟨ordinal, kind, name⟩ := engages.records record member
      exact own ⟨ordinal.symm.trans here, kind.symm.trans step, name.symm.trans named⟩

end Exhaustion

/-- The operation is the latest record of its ordinal after a session, as it was written last
or as it is read back. -/
inductive Session.Leaves (executionId : String) (store : Store) (visits : List (Visit V O))
    (operation : Operation) : Prop where
  | written (latest : History.latest? (records (occurrences executionId store visits))
      operation.ordinal = some operation)
  | read (history : List Operation)
      (given : (storeAfter executionId store visits).medium.history executionId = .ok history)
      (latest : History.latest? history operation.ordinal = some operation)

/-- What is read back as the latest record has last been written, up to what a medium may
change. -/
theorem Session.Leaves.written_last {executionId : String} {store : Store}
    {visits : List (Visit V O)} {operation : Operation}
    (leaves : Leaves executionId store visits operation)
    (empty : store.medium.history executionId = .ok []) :
    ∃ written, History.latest? (records (occurrences executionId store visits))
        operation.ordinal = some written ∧ written.lasting = operation.lasting := by
  cases leaves with
  | written latest => exact ⟨operation, latest, rfl⟩
  | read history given latest =>
      rw [storeAfter_medium] at given
      have same := History.latest?_lasting history operation.ordinal
      rw [Medium.history_lasting empty given, History.latest?_lasting, latest] at same
      exact Option.map_eq_some_iff.mp same

/-- The retry budget is never exceeded.  Whatever the clocks, bodies, draws and failing
appends, every number under which the body of a step runs, or which is recorded for it,
follows the failures that were recorded for a retry before, so that an attempt without a
recorded outcome uses up no number; and the numbers of a step that one strategy retries do not
go beyond its limit, where one attempt is always allowed.  When nothing was lost and all
attempts of an operation failed, it is terminal only as failed: at the last attempt that the
strategy allows, with the error of that attempt, and after one run for each attempt up to it;
the first attempt whose error the strategy refuses is that one when the limit allows it. -/
theorem retry_budget_is_kept (strategy : RetryStrategy) (limit : Nat)
    (limited : strategy.maxAttempts? = some limit) (name executionId : String) (store : Store)
    (empty : store.medium.history executionId = .ok []) (visits : List (Visit V O))
    (retried : ∀ visit ∈ visits,
      visit.workflow.EveryStep (StepCall.RetriesBy name strategy)) :
    let trace := Session.occurrences executionId store visits
    Each InSequence trace ∧
      (∀ occurrence ∈ trace, ∀ ordinal number,
        occurrence.effect.numbering? = some (ordinal, name, number) → number ≤ max 1 limit) ∧
      (∀ history,
        (Session.storeAfter executionId store visits).medium.history executionId = .ok history →
        ∀ record ∈ history, record.kind = .step → record.name = name →
          record.attempt ≤ max 1 limit) ∧
      ∀ (errors : Nat → ErrorObject) (operation : Operation),
        lost trace = [] →
        (∀ made ∈ Session.calls executionId store visits,
          made.before.nextOrdinal = operation.ordinal → made.declaration.name = name →
            made.Fails errors) →
        Session.Leaves executionId store visits operation →
        operation.kind = .step → operation.name = name → operation.isTerminal = true →
        operation.Exhausts strategy limit errors ∧
          runs trace operation.ordinal name = List.range' 1 operation.attempt ∧
          ∀ first, 0 < first → strategy.refuses (errors first) = true →
            (∀ number, 0 < number → number < first →
              strategy.refuses (errors number) = false) →
            operation.attempt = min first (max 1 limit) := by
  intro trace
  have budgeted := (Budgeted.keeps limited).session empty retried .nil
  refine ⟨budgeted.sequence, budgeted.within, ?_, ?_⟩
  · intro history given record member step named
    rw [Session.storeAfter_medium] at given
    have written : record.lasting ∈ (records trace).map Operation.lasting := by
      rw [← Medium.history_lasting empty given]
      exact List.mem_map_of_mem member
    obtain ⟨original, recorded, same⟩ := List.mem_map.mp written
    obtain ⟨kind, sameName, _, attempt, _⟩ := Operation.fields_of_lasting same
    rw [attempt]
    exact budgeted.recorded recorded (kind.symm.trans step) (sameName.symm.trans named)
  · intro errors operation kept failing leaves step named ended
    have exhaustion := (Exhaustion.keeps limited).session empty retried
      (fun _ _ => .untried) failing kept
    obtain ⟨written, latest, same⟩ := leaves.written_last empty
    rw [latest] at exhaustion
    obtain ⟨exhausts, ran⟩ := exhaustion.terminal same step named ended
    refine ⟨exhausts, ran, ?_⟩
    intro first counted refused earlier
    exact exhausts.attempt.trans (RetryStrategy.lastAttempt_eq_min counted refused earlier limit)

/-- The error of an attempt to reach a service that is down. -/
def ErrorObject.ofAttempt (number : Nat) : ErrorObject :=
  ⟨"Down", "attempt " ++ toString number⟩

/-- A body that always fails. -/
def StepBody.failing : StepBody Unit :=
  fun context => ⟨[], .failure (.ofAttempt context.attempt)⟩

/-- A visit after so many seconds, whose step fails and is tried twice. -/
def Visit.ofFailingStep (seconds : Nat) : Visit Unit Unit where
  clock := ⟨⟨seconds, 0⟩⟩
  suppressReplayLogs := false
  workflow := .step "charge"
    ⟨(RetryStrategy.fixed 2 (.ofSeconds 1)).delay? (.proportional 1 2), .atMostOnce⟩
    ⟨fun _ => .ok .null, fun _ => .ok ()⟩ StepBody.failing fun outcome => .done outcome

theorem failing_step_is_run_twice :
    let visits := [0, 1, 5].map Visit.ofFailingStep
    ∃ operation, Session.Leaves "run" .empty visits operation ∧
      operation.status = .failed ∧ operation.attempt = 2 ∧
      operation.error = some (.ofAttempt 2) ∧
      runs (Session.occurrences "run" .empty visits) 0 "charge" = [1, 2] := by
  intro visits
  have retried : ∀ visit ∈ visits, visit.workflow.EveryStep
      (StepCall.RetriesBy "charge" (.fixed 2 (.ofSeconds 1))) :=
    List.forall_mem_map.mpr fun _ _ => ⟨fun _ => ⟨.proportional 1 2, rfl⟩, fun _ => trivial⟩
  have failing : ∀ made ∈ Session.calls "run" .empty visits, ∀ call,
      made.declaration = .step call → call.body = StepBody.failing :=
    (Session.Keeps.declared fun call => call.body = StepBody.failing).session rfl
      (List.forall_mem_map.mpr fun _ _ => ⟨rfl, fun _ => trivial⟩) (by simp)
  obtain ⟨_, _, _, exhausts⟩ := retry_budget_is_kept (.fixed 2 (.ofSeconds 1)) 2 rfl "charge"
    "run" .empty rfl visits retried
  let operation := (Operation.step 0 "charge").withState (.failed 2 (.ofAttempt 2))
  have leaves : Session.Leaves "run" .empty visits operation := .written rfl
  obtain ⟨⟨failed, attempt, error⟩, ran, -⟩ := exhausts .ofAttempt operation rfl
    (fun made member _ _ call declared _ _ _ _ _ _ => by
      rw [failing made member call declared]
      rfl)
    leaves rfl rfl rfl
  exact ⟨operation, leaves, failed, attempt, error, ran⟩

end Durable
