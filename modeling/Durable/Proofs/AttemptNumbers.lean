import Durable.Proofs.SessionCalls

/-!
# Attempt numbers

The attempts of a step are numbered without gaps: the number under which a body runs, and
which is recorded, follows the failures that have been recorded for a retry, so that an
attempt which left no outcome keeps its number.  A strategy with a limit schedules no retry
from the limit on, and therefore no number goes beyond it.
-/

namespace Durable

variable {V : Type}

open Occurrence

namespace RetryStrategy

/-- The most attempts that the strategy allows, if it is not a policy of its own. -/
def maxAttempts? : RetryStrategy → Option Nat
  | .never => some 1
  | .fixed maxAttempts _ => some maxAttempts
  | .exponential backoff => some backoff.maxAttempts
  | .custom _ => none

/-- The strategy does not retry after such an error, whatever the attempt. -/
def refuses (strategy : RetryStrategy) (error : ErrorObject) : Bool :=
  match strategy with
  | .exponential backoff => backoff.nonRetryable.contains error.errorType
  | _ => false

/-- A retry is granted below the limit, unless the error is refused. -/
theorem delay?_isSome {strategy : RetryStrategy} {limit attempt : Nat}
    (limited : strategy.maxAttempts? = some limit) (counted : 0 < attempt) (sampler : Sampler)
    (error : ErrorObject) :
    (strategy.delay? sampler attempt error).isSome = true ↔
      attempt < limit ∧ strategy.refuses error = false := by
  cases strategy with
  | never =>
      cases limited
      simp only [delay?, Option.isSome_none, Bool.false_eq_true, false_iff, not_and]
      omega
  | fixed maxAttempts delay =>
      cases limited
      by_cases granted : attempt < limit <;> simp [delay?, refuses, granted]
  | exponential backoff =>
      cases limited
      by_cases granted : attempt < backoff.maxAttempts <;>
        cases refused : backoff.nonRetryable.contains error.errorType <;>
        simp_all [delay?, refuses, ExponentialBackoff.delay?, ExponentialBackoff.isExhausted]
  | custom policy => cases limited

end RetryStrategy

/-- When the step has this name, it is retried by the strategy, with draws of its own. -/
def StepCall.RetriesBy (name : String) (strategy : RetryStrategy) (call : StepCall V) : Prop :=
  call.name = name → ∃ sampler, call.config.retry = strategy.delay? sampler

namespace Effect

/-- The number of an attempt that is passed to the body of a step or recorded for it, with
the ordinal and the name of the step. -/
def numbering? : Effect V → Option (Nat × String × Nat)
  | .bodyBegun ordinal _ context _ => some (ordinal, context.name, context.attempt)
  | .appended record =>
    if record.kind = .step then some (record.ordinal, record.name, record.attempt) else none
  | _ => none

theorem numbering?_of_still {effect : Effect V} (still : ¬effect.Stirs) :
    effect.numbering? = none := by
  cases effect <;> first | rfl | simp [Stirs, record?, isBody] at still

end Effect

namespace Occurrence

/-- The record says that a step failed and is to be tried again. -/
def retriesAt (ordinal : Nat) (record : Operation) : Bool :=
  record.ordinal == ordinal && record.kind == .step && record.status == .pending

/-- How many failures of the operation have been recorded for a retry. -/
def retries (trace : List (Occurrence V)) (ordinal : Nat) : Nat :=
  (records trace).countP (retriesAt ordinal)

theorem Quiet.retries {emitted : List (Occurrence V)} (isQuiet : Quiet emitted)
    (trace : List (Occurrence V)) (ordinal : Nat) :
    retries (trace ++ emitted) ordinal = retries trace ordinal := by
  simp [Occurrence.retries, isQuiet.records]

theorem retries_appended (trace : List (Occurrence V)) (reading : Instant)
    (record : Operation) (ordinal : Nat) :
    retries (trace ++ [⟨reading, .appended record⟩]) ordinal =
      retries trace ordinal + if retriesAt ordinal record then 1 else 0 := by
  simp [retries, Effect.record?, List.countP_append, List.countP_cons]

/-- The attempt follows the failures that were recorded for a retry. -/
def InSequence (before : List (Occurrence V)) (occurrence : Occurrence V) : Prop :=
  ∀ ordinal name number, occurrence.effect.numbering? = some (ordinal, name, number) →
    number = retries before ordinal + 1

theorem inSequence_of_still {before : List (Occurrence V)} {occurrence : Occurrence V}
    (still : ¬occurrence.effect.Stirs) : InSequence before occurrence := by
  intro ordinal name number numbered
  rw [Effect.numbering?_of_still still] at numbered
  cases numbered

end Occurrence

/-- The latest record of a step agrees with the number of failures: it closes the last of
them, or the attempt that follows is under way. -/
def Operation.Counts (record : Operation) (failures : Nat) : Prop :=
  record.kind = .step →
    (record.status = .pending → record.attempt = failures) ∧
      (record.status = .started → record.attempt = failures + 1)

theorem Operation.Counts.of_lasting {written read : Operation} {failures : Nat}
    (counts : written.Counts failures) (same : written.lasting = read.lasting) :
    read.Counts failures := by
  obtain ⟨kind, _, status, attempt, _⟩ := fields_of_lasting same
  rwa [Counts, kind, status, attempt]

/-- The numbers of a trace are in sequence, and those of the steps with the name do not go
beyond the limit, from which on none of these steps waits for a retry. -/
structure Budgeted (name : String) (limit : Nat) (trace : List (Occurrence V)) : Prop where
  sequence : Each InSequence trace
  within : ∀ occurrence ∈ trace, ∀ ordinal number,
    occurrence.effect.numbering? = some (ordinal, name, number) → number ≤ max 1 limit
  untried : ∀ ordinal, History.latest? (records trace) ordinal = none →
    retries trace ordinal = 0
  counts : ∀ ordinal record, History.latest? (records trace) ordinal = some record →
    record.Counts (retries trace ordinal)
  granted : ∀ record ∈ records trace, record.kind = .step → record.name = name →
    record.status = .pending → record.attempt < limit

namespace Budgeted

variable {name : String} {limit : Nat} {trace emitted part : List (Occurrence V)}

theorem nil : Budgeted name limit ([] : List (Occurrence V)) := by
  refine ⟨.nil, ?_, ?_, ?_, ?_⟩ <;> simp [retries]

theorem quiet (budgeted : Budgeted name limit trace) (isQuiet : Quiet emitted) :
    Budgeted name limit (trace ++ emitted) := by
  have silent : ∀ occurrence ∈ emitted, occurrence.effect.numbering? = none :=
    fun occurrence member => Effect.numbering?_of_still (isQuiet.still member)
  constructor
  · refine Each.append.mpr ⟨budgeted.sequence, ?_⟩
    intro before occurrence after split
    exact inSequence_of_still (isQuiet.still (by simp [split]))
  · intro occurrence member ordinal number numbered
    rcases List.mem_append.mp member with earlier | later
    · exact budgeted.within occurrence earlier ordinal number numbered
    · rw [silent occurrence later] at numbered
      cases numbered
  · intro ordinal absent
    rw [isQuiet.records_append] at absent
    rw [isQuiet.retries, budgeted.untried ordinal absent]
  · intro ordinal record latest
    rw [isQuiet.records_append] at latest
    rw [isQuiet.retries]
    exact budgeted.counts ordinal record latest
  · rw [isQuiet.records_append]
    exact budgeted.granted

theorem body (budgeted : Budgeted name limit trace) (reading : Instant) {ordinal : Nat}
    {semantics : StepSemantics} {context : StepContext} {replaying : Bool}
    (next : context.attempt = retries trace ordinal + 1)
    (within : context.name = name → context.attempt ≤ max 1 limit) :
    Budgeted name limit (trace ++ [⟨reading, .bodyBegun ordinal semantics context replaying⟩]) := by
  constructor
  · refine Each.append.mpr ⟨budgeted.sequence, Each.cons.mpr ⟨?_, .nil⟩⟩
    intro other own number numbered
    cases numbered
    rw [List.append_nil]
    exact next
  · intro occurrence member other number numbered
    rcases List.mem_append.mp member with earlier | last
    · exact budgeted.within occurrence earlier other number numbered
    · cases List.mem_singleton.mp last
      simp only [Effect.numbering?, Option.some.injEq, Prod.mk.injEq] at numbered
      obtain ⟨_, sameName, rfl⟩ := numbered
      exact within sameName
  · simpa [retries, Effect.record?] using budgeted.untried
  · simpa [retries, Effect.record?] using budgeted.counts
  · simpa [Effect.record?] using budgeted.granted

/-- A record of a step is appended under the next number, and waits for a retry only below
the limit. -/
theorem insert (budgeted : Budgeted name limit trace) (reading : Instant) {record : Operation}
    (next : record.kind = .step → record.attempt = retries trace record.ordinal + 1)
    (within : record.kind = .step → record.name = name → record.attempt ≤ max 1 limit)
    (granted : record.kind = .step → record.name = name → record.status = .pending →
      record.attempt < limit) :
    Budgeted name limit (trace ++ [⟨reading, .appended record⟩]) := by
  have recorded : records (trace ++ [(⟨reading, .appended record⟩ : Occurrence V)]) =
      records trace ++ [record] := by
    simp [Effect.record?]
  constructor
  · refine Each.append.mpr ⟨budgeted.sequence, Each.cons.mpr ⟨?_, .nil⟩⟩
    intro ordinal own number numbered
    simp only [Effect.numbering?] at numbered
    split at numbered
    · next step =>
        cases numbered
        rw [List.append_nil]
        exact next step
    · cases numbered
  · intro occurrence member ordinal number numbered
    rcases List.mem_append.mp member with earlier | last
    · exact budgeted.within occurrence earlier ordinal number numbered
    · cases List.mem_singleton.mp last
      simp only [Effect.numbering?] at numbered
      split at numbered
      · next step =>
          simp only [Option.some.injEq, Prod.mk.injEq] at numbered
          obtain ⟨_, sameName, rfl⟩ := numbered
          exact within step sameName
      · cases numbered
  · intro ordinal absent
    rw [recorded, History.latest?_append_singleton] at absent
    rw [retries_appended]
    by_cases here : record.ordinal = ordinal
    · simp [here] at absent
    · rw [if_neg here] at absent
      simp [retriesAt, here, budgeted.untried ordinal absent]
  · intro ordinal latest found
    rw [recorded, History.latest?_append_singleton] at found
    rw [retries_appended]
    by_cases here : record.ordinal = ordinal
    · rw [if_pos here, Option.some.injEq] at found
      subst found here
      intro step
      -- A pending record is one failure more, and a started one belongs to the next attempt.
      constructor
      · intro pending
        simp [retriesAt, step, pending, next step]
      · intro started
        simp [retriesAt, started, next step]
    · rw [if_neg here] at found
      simpa [retriesAt, here] using budgeted.counts ordinal latest found
  · intro other member step sameName pending
    rw [recorded, List.mem_append, List.mem_singleton] at member
    rcases member with earlier | rfl
    · exact budgeted.granted other earlier step sameName pending
    · exact granted step sameName pending

theorem timers (budgeted : Budgeted name limit trace) (idle : bodies part = [])
    (timer : ∀ record ∈ records part, record.kind = .timer) :
    Budgeted name limit (trace ++ part) := by
  induction part generalizing trace with
  | nil => simpa using budgeted
  | cons occurrence part induction =>
      obtain ⟨noBody, idle⟩ : bodies [occurrence] = [] ∧ bodies part = [] := by
        rw [← List.singleton_append, bodies_append] at idle
        exact List.append_eq_nil_iff.mp idle
      rw [List.append_cons]
      refine induction ?_ idle fun record member => timer record (by simp [member])
      obtain ⟨reading, effect⟩ := occurrence
      cases recorded : effect.record? with
      | none => exact budgeted.quiet ⟨by simp [recorded], noBody⟩
      | some record =>
          obtain rfl : effect = .appended record := by
            cases effect <;> simp_all [Effect.record?]
          have noStep : record.kind ≠ .step := by
            rw [timer record (by simp [Effect.record?])]
            decide
          exact budgeted.insert reading (fun step => absurd step noStep)
            (fun step => absurd step noStep) fun step => absurd step noStep

theorem recorded (budgeted : Budgeted name limit trace) {record : Operation}
    (member : record ∈ records trace) (step : record.kind = .step) (same : record.name = name) :
    record.attempt ≤ max 1 limit := by
  obtain ⟨⟨reading, effect⟩, inTrace, recorded⟩ := List.mem_filterMap.mp member
  refine budgeted.within _ inTrace record.ordinal record.attempt ?_
  cases effect <;> cases recorded
  simp [Effect.numbering?, step, same]

theorem report (budgeted : Budgeted name limit trace) (reading : Instant) {operation : Operation}
    (step : operation.kind = .step) (started : operation.status = .started)
    (counts : operation.Counts (retries trace operation.ordinal))
    (within : operation.name = name → operation.attempt ≤ max 1 limit) :
    Budgeted name limit (trace ++ [⟨reading, .appended operation.annotated⟩]) :=
  budgeted.insert reading (fun _ => (counts step).2 started) (fun _ named => within named)
    fun _ _ pending => by cases pending

variable {invocation : Invocation V} {call : StepCall V} {number : Nat}

section

variable (budgeted : Budgeted name limit trace) (follows : invocation.Follows trace)
  (own : ∀ operation, invocation.log.lookup? invocation.nextOrdinal = some operation →
    operation.kind = .step ∧ operation.name = call.name)
  (planned : StepPlan.ofRecord (invocation.log.lookup? invocation.nextOrdinal)
    call.config.semantics invocation.now = .attempt number)

include budgeted follows own planned

theorem next : number = retries trace invocation.nextOrdinal + 1 := by
  rcases StepPlan.ofRecord_eq_attempt planned with ⟨absent, rfl⟩ | ⟨operation, found, due⟩
  · rw [budgeted.untried _ (follows.absent absent)]
  · obtain ⟨written, latest, same⟩ := follows.found found
    obtain ⟨pendingCount, startedCount⟩ :=
      (budgeted.counts _ written latest).of_lasting same (own operation found).1
    rcases due with ⟨pending, _, rfl⟩ | ⟨started, _, rfl⟩
    · rw [pendingCount pending]
    · -- The attempt was begun before and has left no outcome: it is made again.
      have attempt := startedCount started
      omega

theorem next_within (named : call.name = name) : number ≤ max 1 limit := by
  rcases StepPlan.ofRecord_eq_attempt planned with ⟨_, rfl⟩ | ⟨operation, found, due⟩
  · exact Nat.le_max_left 1 limit
  · obtain ⟨written, latest, same⟩ := follows.found found
    obtain ⟨kind, sameName, status, attempt, _⟩ := Operation.fields_of_lasting same
    have member := (History.latest?_mem latest).1
    have step : written.kind = .step := kind.symm.trans (own operation found).1
    have writtenName : written.name = name :=
      (sameName.symm.trans (own operation found).2).trans named
    rcases due with ⟨pending, _, rfl⟩ | ⟨_, _, rfl⟩
    · have below := budgeted.granted written member step writtenName (status.symm.trans pending)
      omega
    · have within := budgeted.recorded member step writtenName
      omega

end

section

variable
  (base : (call.base invocation).ordinal = invocation.nextOrdinal ∧
    (call.base invocation).kind = .step ∧ (call.base invocation).name = call.name)
  (within : call.name = name → number ≤ max 1 limit)

include base within

theorem state (budgeted : Budgeted name limit trace)
    (next : number = retries trace invocation.nextOrdinal + 1) (reading : Instant)
    {update : OperationUpdate} (attempt : update.attempt = number)
    (granted : call.name = name → update.status = .pending → number < limit) :
    Budgeted name limit
      (trace ++ [⟨reading, .appended ((call.base invocation).withState update)⟩]) := by
  obtain ⟨ordinal, _, own⟩ := base
  have sameAttempt : ((call.base invocation).withState update).attempt = number := attempt
  have sameOrdinal : ((call.base invocation).withState update).ordinal =
      invocation.nextOrdinal := ordinal
  have sameName : ((call.base invocation).withState update).name = call.name := own
  apply budgeted.insert reading
  · intro _
    rw [sameAttempt, sameOrdinal, next]
  · intro _ named
    rw [sameAttempt]
    exact within (sameName.symm.trans named)
  · intro _ named pending
    rw [sameAttempt]
    exact granted (sameName.symm.trans named) pending

theorem opening (budgeted : Budgeted name limit trace)
    (next : number = retries trace invocation.nextOrdinal + 1) :
    Budgeted name limit (trace ++ call.opening invocation number) := by
  cases semantics : call.config.semantics with
  | atLeastOnce =>
      simp only [StepCall.opening, marker, semantics, List.nil_append]
      exact budgeted.body invocation.now next within
  | atMostOnce =>
      simp only [StepCall.opening, marker, semantics, List.singleton_append]
      rw [List.append_cons]
      have marked := budgeted.state base within next invocation.now
        (rfl : (OperationUpdate.started number).attempt = number)
        fun _ pending => by cases pending
      have sameCount : retries (trace ++ [(⟨invocation.now, .appended
          ((call.base invocation).withState (.started number))⟩ : Occurrence V)])
          invocation.nextOrdinal = retries trace invocation.nextOrdinal := by
        rw [retries_appended]
        simp [retriesAt, Operation.withState, OperationUpdate.started]
      exact marked.body invocation.now (next.trans (by rw [sameCount])) within

/-- An attempt under the next number, of a step that the strategy retries. -/
theorem attempt {strategy : RetryStrategy} (limited : strategy.maxAttempts? = some limit)
    (retried : call.RetriesBy name strategy) (budgeted : Budgeted name limit trace)
    (next : number = retries trace invocation.nextOrdinal + 1) {reply : Reply V}
    (course : AttemptCourse invocation call number reply part) :
    Budgeted name limit (trace ++ part) := by
  have opened := budgeted.opening base within next
  cases course with
  | unmarked error guarded faulty => exact budgeted.quiet ⟨rfl, rfl⟩
  | crashed chatter logs dies =>
      rw [← List.append_assoc]
      exact opened.quiet logs.quiet
  | lost chatter logs reading update outcome closes error faulty timed =>
      have tail : Quiet (chatter ++ [(⟨reading, .appendFailed
          ((call.base invocation).withState update) error⟩ : Occurrence V)]) :=
        logs.quiet.append ⟨rfl, rfl⟩
      rw [← List.append_assoc]
      exact opened.quiet tail
  | closed chatter logs reading update outcome closes diagnostic timed =>
      have sameCount : retries (trace ++ call.opening invocation number ++ chatter)
          invocation.nextOrdinal = retries trace invocation.nextOrdinal := by
        rw [logs.quiet.retries, retries, records_append, call.opening_records]
        cases call.config.semantics <;>
          simp [retries, retriesAt, Operation.withState, OperationUpdate.started]
      -- Only a granted retry leaves the operation pending, and none is granted at the limit.
      have granted : call.name = name → update.status = .pending → number < limit := by
        intro named pending
        obtain ⟨sampler, policy⟩ := retried named
        obtain ⟨error, delay, _, retriable, _⟩ := BodyOutcome.closing?_pending closes pending
        rw [policy] at retriable
        exact ((RetryStrategy.delay?_isSome limited (next ▸ Nat.succ_pos _) sampler error).mp
          (Option.isSome_of_eq_some retriable)).1
      have closed := (opened.quiet logs.quiet).state base within (next.trans (by rw [sameCount]))
        reading (BodyOutcome.closing?_attempt closes) granted
      have diagnosed := closed.quiet
        (⟨rfl, rfl⟩ : Quiet [(⟨reading, .diagnosed diagnostic⟩ : Occurrence V)])
      simpa using diagnosed

end

/-- Every call keeps the numbers in sequence and within the limit. -/
theorem keeps {strategy : RetryStrategy} (limited : strategy.maxAttempts? = some limit) :
    Session.Keeps (StepCall.RetriesBy (V := V) name strategy)
      fun _ trace => Budgeted name limit trace where
  quiet budgeted isQuiet := budgeted.quiet isQuiet
  call := by
    intro _ trace part made retried follows _ engages budgeted
    cases engages with
    | idle => simpa using budgeted
    | waited call declared course =>
        refine budgeted.timers course.bodies fun record member => ?_
        exact (course.ownRecords.own record member).2.1
    | reported call declared operation found own started reading =>
        obtain ⟨written, latest, same⟩ := follows.found found
        obtain ⟨kind, sameName, _, attempt, _⟩ := Operation.fields_of_lasting same
        have ordinal : operation.ordinal = made.before.nextOrdinal :=
          OperationLog.lookup?_ordinal found
        have counts := (budgeted.counts _ written latest).of_lasting same
        rw [← ordinal] at counts
        refine budgeted.report reading own.1 started counts fun named => ?_
        rw [attempt]
        exact budgeted.recorded (History.latest?_mem latest).1 (kind.symm.trans own.1)
          (sameName.symm.trans named)
    | attempted call declared number own planned course =>
        exact attempt (StepCall.base_fits own) (budgeted.next_within follows own planned) limited
          (retried call declared) budgeted (budgeted.next follows own planned) course

end Budgeted

end Durable
