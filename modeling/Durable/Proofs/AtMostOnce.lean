import Durable.Proofs.Ledger

/-!
# Bodies under at-most-once semantics

Over a whole session, whatever the store holds at its begin, no body that is
guarded by a marker runs twice for one ordinal and attempt, each such run comes
after its marker, and no body runs for an operation that has ended.  The invariant
ties the trace to the latest records: a guarded body never has a later attempt
than the latest record of its ordinal, and an operation that has ended stays so.
-/

namespace Durable

variable {V O : Type}

namespace Occurrence

/-- A body begins only while no record of its operation is terminal: neither the
latest one at the start nor one that was appended since. -/
def Unended (start : List Operation) (before : List (Occurrence V))
    (occurrence : Occurrence V) : Prop :=
  ∀ ordinal, occurrence.effect.bodyOrdinal? = some ordinal →
    (∀ operation, History.latest? start ordinal = some operation →
      operation.isTerminal = false) ∧
    ∀ operation ∈ records before, operation.ordinal = ordinal → operation.isTerminal = false

/-- A guarded body begins only after the marker of its attempt was appended. -/
def Marked (before : List (Occurrence V)) (occurrence : Occurrence V) : Prop :=
  ∀ ordinal attempt, occurrence.effect.guardedBody? = some (ordinal, attempt) →
    ∃ operation ∈ records before, operation.ordinal = ordinal ∧
      operation.status = .started ∧ operation.attempt = attempt

theorem unended_of_not_isBody {start : List Operation} {before : List (Occurrence V)}
    {occurrence : Occurrence V} (idle : occurrence.effect.isBody = false) :
    Unended start before occurrence := by
  intro ordinal begun
  simp [Effect.bodyOrdinal?_of_not_isBody idle] at begun

theorem marked_of_not_isBody {before : List (Occurrence V)} {occurrence : Occurrence V}
    (idle : occurrence.effect.isBody = false) : Marked before occurrence := by
  intro ordinal attempt begun
  simp [Effect.guardedBody?_of_not_isBody idle] at begun

end Occurrence

open Occurrence

/-- What a trace says about the latest records that it leaves, where `latest` finds
the latest record of an ordinal. -/
structure Guarded (start : List Operation) (trace : List (Occurrence V))
    (latest : Nat → Option Operation) : Prop where
  unended : Each (Unended start) trace
  once : (guardedBodies trace).Nodup
  bounded : ∀ ordinal attempt, (ordinal, attempt) ∈ guardedBodies trace →
    ∃ current, latest ordinal = some current ∧ attempt ≤ current.attempt
  ended : ∀ operation, operation ∈ records trace ∨
      History.latest? start operation.ordinal = some operation →
    operation.isTerminal = true →
    ∃ current, latest operation.ordinal = some current ∧ current.isTerminal = true

namespace Guarded

variable {start : List Operation} {trace : List (Occurrence V)}
  {latest : Nat → Option Operation}

/-- The property depends only on the attempts and the statuses of the latest
records. -/
theorem reread {read : Nat → Option Operation} (guarded : Guarded start trace latest)
    (same : ∀ ordinal, Option.Rel Operation.SameState (latest ordinal) (read ordinal)) :
    Guarded start trace read := by
  refine ⟨guarded.unended, guarded.once, ?_, ?_⟩
  · intro ordinal attempt member
    obtain ⟨current, found, bound⟩ := guarded.bounded ordinal attempt member
    have related := same ordinal
    rw [found] at related
    generalize read ordinal = current? at related ⊢
    cases related with
    | @some _ reread state => exact ⟨reread, rfl, Nat.le_trans bound (Nat.le_of_eq state.1.symm)⟩
  · intro operation member terminal
    obtain ⟨current, found, currentTerminal⟩ := guarded.ended operation member terminal
    have related := same operation.ordinal
    rw [found] at related
    generalize read operation.ordinal = current? at related ⊢
    cases related with
    | @some _ reread state =>
        refine ⟨reread, rfl, ?_⟩
        rw [Operation.isTerminal, state.2]
        exact currentTerminal

theorem quiet (guarded : Guarded start trace latest) {emitted : List (Occurrence V)}
    (isQuiet : Quiet emitted) : Guarded start (trace ++ emitted) latest := by
  have noBodies := guardedBodies_of_bodies isQuiet.bodies
  constructor
  · exact Each.append.mpr ⟨guarded.unended,
      .of_bodies isQuiet.bodies fun _ _ => unended_of_not_isBody⟩
  · simpa [noBodies] using guarded.once
  · simpa [noBodies] using guarded.bounded
  · simpa [isQuiet.records] using guarded.ended

theorem diagnosed (guarded : Guarded start trace latest) (reading : Instant)
    (diagnostic : Diagnostic) :
    Guarded start (trace ++ [⟨reading, .diagnosed diagnostic⟩]) latest :=
  guarded.quiet ⟨rfl, rfl⟩

/-- A record that follows one that is not terminal, without going back to an
earlier attempt. -/
theorem append (guarded : Guarded start trace latest) (reading : Instant)
    {operation : Operation}
    (follows : ∀ current, latest operation.ordinal = some current →
      current.isTerminal = false ∧ current.attempt ≤ operation.attempt) :
    Guarded start (trace ++ [⟨reading, .appended operation⟩]) fun ordinal =>
      if operation.ordinal = ordinal then some operation else latest ordinal := by
  constructor
  · exact Each.append.mpr ⟨guarded.unended,
      .of_bodies rfl fun _ _ => unended_of_not_isBody⟩
  · simpa [Effect.guardedBody?] using guarded.once
  · intro ordinal attempt member
    obtain ⟨current, found, bound⟩ := guarded.bounded ordinal attempt
      (by simpa [Effect.guardedBody?] using member)
    by_cases same : operation.ordinal = ordinal
    · subst same
      have later := (follows current found).2
      exact ⟨operation, by simp, by omega⟩
    · exact ⟨current, by simp [same, found], bound⟩
  · intro other member terminal
    have cases : other = operation ∨ (other ∈ records trace ∨
        History.latest? start other.ordinal = some other) := by
      rcases member with appended | first
      · simp only [records_append, records_cons, Effect.record?, Option.toList_some, records_nil,
          List.append_nil, List.mem_append, List.mem_singleton] at appended
        rcases appended with earlier | here
        · exact .inr (.inl earlier)
        · exact .inl here
      · exact .inr (.inr first)
    rcases cases with rfl | earlier
    · exact ⟨other, by simp, terminal⟩
    · obtain ⟨current, found, currentTerminal⟩ := guarded.ended other earlier terminal
      by_cases same : operation.ordinal = other.ordinal
      · have unfinished := (follows current (by rw [same]; exact found)).1
        simp [unfinished] at currentTerminal
      · exact ⟨current, by simp [same, found], currentTerminal⟩

/-- A body of an operation that has not ended, whose attempt is that of the latest
record and is new when the body is guarded. -/
theorem body (guarded : Guarded start trace latest) (reading : Instant) {ordinal : Nat}
    {semantics : StepSemantics} {context : StepContext} {replaying : Bool}
    (unfinished : ∀ current, latest ordinal = some current → current.isTerminal = false)
    (marks : semantics = .atMostOnce → (∃ current, latest ordinal = some current ∧
      context.attempt ≤ current.attempt) ∧
      (ordinal, context.attempt) ∉ guardedBodies trace) :
    Guarded start
      (trace ++ [⟨reading, .bodyBegun ordinal semantics context replaying⟩]) latest := by
  have unclosed : ∀ operation, operation.ordinal = ordinal →
      (operation ∈ records trace ∨
        History.latest? start operation.ordinal = some operation) →
      operation.isTerminal = false := by
    intro operation same member
    cases terminal : operation.isTerminal with
    | false => rfl
    | true =>
        obtain ⟨current, found, currentTerminal⟩ := guarded.ended operation member terminal
        rw [same] at found
        simp [unfinished current found] at currentTerminal
  constructor
  · refine Each.append.mpr ⟨guarded.unended, Each.cons.mpr ⟨?_, .nil⟩⟩
    intro other begun
    cases begun
    constructor
    · intro operation first
      have same := (History.latest?_mem first).2
      exact unclosed operation same (.inr (by rw [same]; exact first))
    · intro operation member same
      rw [List.append_nil] at member
      exact unclosed operation same (.inl member)
  · cases semantics with
    | atLeastOnce => simpa [Effect.guardedBody?] using guarded.once
    | atMostOnce =>
        have new := (marks rfl).2
        simp only [guardedBodies_append, guardedBodies_cons, Effect.guardedBody?,
          Option.toList_some, guardedBodies_nil, List.append_nil]
        refine List.nodup_append.mpr ⟨guarded.once, by simp, ?_⟩
        intro pair member other singleton
        rw [List.mem_singleton] at singleton
        subst singleton
        intro same
        exact new (same ▸ member)
  · intro other attempt member
    cases semantics with
    | atLeastOnce =>
        exact guarded.bounded other attempt (by simpa [Effect.guardedBody?] using member)
    | atMostOnce =>
        simp only [guardedBodies_append, guardedBodies_cons, Effect.guardedBody?,
          Option.toList_some, guardedBodies_nil, List.append_nil, List.mem_append,
          List.mem_singleton] at member
        rcases member with earlier | here
        · exact guarded.bounded other attempt earlier
        · cases here
          exact (marks rfl).1
  · simpa [Effect.record?] using guarded.ended

theorem insert {log : OperationLog} (guarded : Guarded start trace log.lookup?)
    (reading : Instant) (operation : Operation)
    (follows : ∀ current, log.lookup? operation.ordinal = some current →
      current.isTerminal = false ∧ current.attempt ≤ operation.attempt) :
    Guarded start (trace ++ [⟨reading, .appended operation⟩])
      (log.insert operation).lookup? := by
  have same : (log.insert operation).lookup? = fun ordinal =>
      if operation.ordinal = ordinal then some operation else log.lookup? ordinal :=
    funext (OperationLog.lookup?_insert log operation)
  rw [same]
  exact guarded.append reading follows

theorem opening {invocation : Invocation V} {call : StepCall V} {number : Nat}
    (guarded : Guarded start trace invocation.log.lookup?)
    (unfinished : (call.base invocation).isTerminal = false)
    (notDecreasing : (call.base invocation).attempt ≤ number)
    (new : call.config.semantics = .atMostOnce → ∀ current,
      invocation.log.lookup? invocation.nextOrdinal = some current →
        current.attempt < number) :
    Guarded start (trace ++ call.opening invocation number)
        (invocation.log.insertAll (records (call.opening invocation number))).lookup? ∧
      ∀ current, (invocation.log.insertAll
          (records (call.opening invocation number))).lookup? invocation.nextOrdinal =
          some current →
        current.isTerminal = false ∧ current.attempt ≤ number := by
  have follows : ∀ current, invocation.log.lookup? invocation.nextOrdinal = some current →
      current.isTerminal = false ∧ current.attempt ≤ number := by
    intro current found
    have base : call.base invocation = current := Invocation.current_of_some found
    rw [← base]
    exact ⟨unfinished, notDecreasing⟩
  have ordinal : (call.base invocation).ordinal = invocation.nextOrdinal :=
    Invocation.current_ordinal invocation (.step invocation.nextOrdinal call.name)
  cases semantics : call.config.semantics with
  | atLeastOnce =>
      have noRecords : records (call.opening invocation number) = [] := by
        simp [StepCall.opening, marker, semantics, Effect.record?]
      rw [noRecords, OperationLog.insertAll_nil]
      refine ⟨?_, follows⟩
      simp only [StepCall.opening, marker, semantics, List.nil_append]
      apply guarded.body invocation.now fun current found => (follows current found).1
      simp
  | atMostOnce =>
      let marked := (call.base invocation).withState (.started number)
      have markedRecords : records (call.opening invocation number) = [marked] := by
        simp [StepCall.opening, marker, semantics, Effect.record?, marked]
      rw [markedRecords, OperationLog.insertAll_cons, OperationLog.insertAll_nil]
      have markedOrdinal : marked.ordinal = invocation.nextOrdinal := ordinal
      have found : (invocation.log.insert marked).lookup? invocation.nextOrdinal =
          some marked := by
        rw [OperationLog.lookup?_insert, if_pos markedOrdinal]
      have markedFollows : ∀ current,
          (invocation.log.insert marked).lookup? invocation.nextOrdinal = some current →
            current.isTerminal = false ∧ current.attempt ≤ number := by
        intro current foundCurrent
        cases found.symm.trans foundCurrent
        exact ⟨rfl, Nat.le_refl number⟩
      refine ⟨?_, markedFollows⟩
      simp only [StepCall.opening, marker, semantics]
      rw [← List.append_assoc]
      have afterMarker := guarded.insert invocation.now marked (by
        rw [markedOrdinal]; exact follows)
      refine afterMarker.body invocation.now
        (fun current found => (markedFollows current found).1) fun _ => ⟨?_, ?_⟩
      · exact ⟨marked, found, Nat.le_refl number⟩
      · intro member
        have earlier : (invocation.nextOrdinal, number) ∈ guardedBodies trace := by
          simpa [Effect.guardedBody?, StepCall.context] using member
        obtain ⟨current, foundCurrent, bound⟩ := guarded.bounded _ _ earlier
        have later := new semantics current foundCurrent
        omega

theorem attempt {invocation : Invocation V} {call : StepCall V} {number : Nat}
    {reply : Reply V} {emitted : List (Occurrence V)}
    (guarded : Guarded start trace invocation.log.lookup?)
    (unfinished : (call.base invocation).isTerminal = false)
    (notDecreasing : (call.base invocation).attempt ≤ number)
    (new : call.config.semantics = .atMostOnce → ∀ current,
      invocation.log.lookup? invocation.nextOrdinal = some current →
        current.attempt < number)
    (course : AttemptCourse invocation call number reply emitted) :
    Guarded start (trace ++ emitted)
      (invocation.log.insertAll (records emitted)).lookup? := by
  obtain ⟨opened, follows⟩ := guarded.opening unfinished notDecreasing new
  cases course with
  | unmarked error asksMarker faulty => exact guarded.quiet ⟨rfl, rfl⟩
  | crashed chatter logs dies =>
      rw [← List.append_assoc, records_append, logs.records, List.append_nil]
      exact opened.quiet ⟨logs.records, logs.bodies⟩
  | lost chatter logs reading update outcome closes error faulty =>
      have tail : Quiet (chatter ++ [(⟨reading, .appendFailed
          ((call.base invocation).withState update) error⟩ : Occurrence V)]) :=
        ⟨by simp [logs.records, Effect.record?], by simp [logs.bodies, Effect.isBody]⟩
      rw [← List.append_assoc, records_append, tail.records, List.append_nil]
      exact opened.quiet tail
  | closed chatter logs reading update outcome closes diagnostic =>
      have ordinal : ((call.base invocation).withState update).ordinal =
          invocation.nextOrdinal :=
        Invocation.current_ordinal invocation (.step invocation.nextOrdinal call.name)
      have attempt : update.attempt = number := BodyOutcome.closing?_attempt closes
      have written := (opened.quiet ⟨logs.records, logs.bodies⟩).insert reading
        ((call.base invocation).withState update) (by
          intro current found
          rw [ordinal] at found
          obtain ⟨currentUnfinished, bound⟩ := follows current found
          exact ⟨currentUnfinished, Nat.le_trans bound (Nat.le_of_eq attempt.symm)⟩)
      have diagnosed := written.diagnosed reading diagnostic
      simpa [logs.records, Effect.record?, OperationLog.insertAll_append] using diagnosed

theorem step {invocation : Invocation V} {call : StepCall V} {reply : Reply V}
    {middle : List (Occurrence V)} (guarded : Guarded start trace invocation.log.lookup?)
    (course : StepCourse invocation call reply middle) :
    Guarded start (trace ++ middle)
      (invocation.log.insertAll (records middle)).lookup? := by
  cases course with
  | duplicate first known => exact guarded.quiet ⟨rfl, rfl⟩
  | mismatched operation fresh found other => exact guarded.quiet ⟨rfl, rfl⟩
  | planned recorded fresh found same course =>
      generalize planned : StepPlan.ofRecord recorded call.config.semantics invocation.now =
        plan at course
      cases course with
      | replay operation => exact guarded.quiet ⟨rfl, rfl⟩
      | fail error => exact guarded.quiet ⟨rfl, rfl⟩
      | reported operation noted => exact guarded.quiet ⟨rfl, rfl⟩
      | unannotated operation unnoted error faulty => exact guarded.quiet ⟨rfl, rfl⟩
      | annotated operation unnoted =>
          obtain ⟨rfl, started, _⟩ := StepPlan.ofRecord_eq_interrupt planned
          have ordinal : operation.annotated.ordinal = operation.ordinal := rfl
          have diagnosed := guarded.diagnosed invocation.now
            (.stepInterrupted invocation.executionId operation.id operation.attempt)
          have written := diagnosed.insert invocation.now operation.annotated (by
            intro current foundCurrent
            rw [ordinal, OperationLog.lookup?_ordinal found, found] at foundCurrent
            cases foundCurrent
            refine ⟨?_, Nat.le_refl _⟩
            exact Operation.isTerminal_of_status started)
          simpa [Effect.record?] using written
      | attempted number unfinished notDecreasing course =>
          refine guarded.attempt unfinished notDecreasing ?_ course
          intro atMostOnce current foundCurrent
          rcases StepPlan.ofRecord_eq_attempt planned with ⟨absent, _⟩ |
            ⟨operation, present, ⟨_, _, next⟩ | ⟨_, atLeastOnce, _⟩⟩
          · rw [found, absent] at foundCurrent
            simp at foundCurrent
          · rw [found, present] at foundCurrent
            cases foundCurrent
            omega
          · rw [atMostOnce] at atLeastOnce
            simp at atLeastOnce

theorem wait {invocation : Invocation V} {call : WaitCall}
    {outcome : Except DurableError Unit} {middle : List (Occurrence V)}
    (guarded : Guarded start trace invocation.log.lookup?)
    (course : WaitCourse invocation call outcome middle) :
    Guarded start (trace ++ middle)
      (invocation.log.insertAll (records middle)).lookup? := by
  cases course with
  | duplicate first known => exact guarded.quiet ⟨rfl, rfl⟩
  | mismatched operation fresh found other => exact guarded.quiet ⟨rfl, rfl⟩
  | planned recorded fresh found same course =>
      generalize planned : WaitPlan.ofRecord recorded invocation.now = plan at course
      -- A timer is recorded over nothing, or closed over its own pending record.
      have starting : ∀ operation : Operation, plan = .start →
          operation.ordinal = invocation.nextOrdinal →
          Guarded start (trace ++ [⟨invocation.now, .appended operation⟩])
            (invocation.log.insert operation).lookup? := by
        intro operation starts ordinal
        apply guarded.insert invocation.now operation
        intro current foundCurrent
        rw [ordinal, found, WaitPlan.ofRecord_eq_start (planned.trans starts)] at foundCurrent
        simp at foundCurrent
      cases course with
      | pass => exact guarded.quiet ⟨rfl, rfl⟩
      | fail error => exact guarded.quiet ⟨rfl, rfl⟩
      | unelapsed timer error faulty => exact guarded.quiet ⟨rfl, rfl⟩
      | lost written error faulty => exact guarded.quiet ⟨rfl, rfl⟩
      | elapsed timer diagnostic =>
          obtain ⟨rfl, pending, _⟩ := WaitPlan.ofRecord_eq_elapse planned
          have written := guarded.insert invocation.now timer.elapsed (by
            intro current foundCurrent
            have ordinal : timer.elapsed.ordinal = timer.ordinal := rfl
            rw [ordinal, OperationLog.lookup?_ordinal found, found] at foundCurrent
            cases foundCurrent
            refine ⟨?_, Nat.le_refl _⟩
            exact Operation.isTerminal_of_status pending)
          have diagnosed := written.diagnosed invocation.now diagnostic
          simpa [Effect.record?] using diagnosed
      | passed due =>
          have written := starting (call.timer invocation).elapsed rfl rfl
          simpa [Effect.record?] using written
      | started notDue diagnostic =>
          have written := starting (call.timer invocation) rfl rfl
          have diagnosed := written.diagnosed invocation.now diagnostic
          simpa [Effect.record?] using diagnosed

end Guarded

namespace Occurrence

theorem Marked.later {before : List (Occurrence V)} {occurrence : Occurrence V}
    (marked : Marked before occurrence) (earlier : List (Occurrence V)) :
    Marked (earlier ++ before) occurrence := by
  intro ordinal attempt begun
  obtain ⟨operation, member, facts⟩ := marked ordinal attempt begun
  exact ⟨operation, by simp [member], facts⟩

theorem Each.marked_append {earlier later : List (Occurrence V)} (first : Each Marked earlier)
    (second : Each Marked later) : Each Marked (earlier ++ later) :=
  Each.append.mpr ⟨first, second.imp fun _ _ marked => marked.later earlier⟩

theorem Quiet.marked {occurrences : List (Occurrence V)} (isQuiet : Quiet occurrences) :
    Each Marked occurrences :=
  .of_bodies isQuiet.bodies fun _ _ => marked_of_not_isBody

end Occurrence

namespace StepCall

theorem opening_marked (call : StepCall V) (invocation : Invocation V) (number : Nat) :
    Each Marked (call.opening invocation number) := by
  have ordinal : (call.base invocation).ordinal = invocation.nextOrdinal :=
    Invocation.current_ordinal invocation (.step invocation.nextOrdinal call.name)
  cases semantics : call.config.semantics with
  | atLeastOnce =>
      simp only [opening, marker, semantics, List.nil_append]
      refine Each.cons.mpr ⟨?_, .nil⟩
      intro other attempt begun
      simp [Effect.guardedBody?] at begun
  | atMostOnce =>
      simp only [opening, marker, semantics, List.singleton_append]
      refine Each.cons.mpr ⟨marked_of_not_isBody rfl, Each.cons.mpr ⟨?_, .nil⟩⟩
      intro other attempt begun
      cases begun
      exact ⟨(call.base invocation).withState (.started number), by simp [Effect.record?],
        ordinal, rfl, rfl⟩

end StepCall

theorem AttemptCourse.marked {invocation : Invocation V} {call : StepCall V} {number : Nat}
    {reply : Reply V} {emitted : List (Occurrence V)}
    (course : AttemptCourse invocation call number reply emitted) : Each Marked emitted := by
  have opening := call.opening_marked invocation number
  cases course with
  | unmarked error guarded faulty => exact Quiet.marked ⟨rfl, rfl⟩
  | crashed chatter logs dies =>
      exact opening.marked_append (Quiet.marked ⟨logs.records, logs.bodies⟩)
  | lost chatter logs reading update outcome closes error faulty =>
      refine opening.marked_append (.of_bodies ?_ fun _ _ => marked_of_not_isBody)
      simp [logs.bodies, Effect.isBody]
  | closed chatter logs reading update outcome closes diagnostic =>
      refine opening.marked_append (.of_bodies ?_ fun _ _ => marked_of_not_isBody)
      simp [logs.bodies, Effect.isBody]

theorem PlanCourse.marked {invocation : Invocation V} {call : StepCall V} {plan : StepPlan}
    {reply : Reply V} {emitted : List (Occurrence V)}
    (course : PlanCourse invocation call plan reply emitted) : Each Marked emitted := by
  have unguarded : bodies emitted = [] → Each Marked emitted := fun idle =>
    .of_bodies idle fun _ _ => marked_of_not_isBody
  cases course with
  | replay operation => exact unguarded rfl
  | fail error => exact .nil
  | reported operation noted => exact unguarded rfl
  | annotated operation unnoted => exact unguarded rfl
  | unannotated operation unnoted error faulty => exact unguarded rfl
  | attempted number unfinished notDecreasing course => exact course.marked

theorem StepCourse.marked {invocation : Invocation V} {call : StepCall V} {reply : Reply V}
    {middle : List (Occurrence V)} (course : StepCourse invocation call reply middle) :
    Each Marked middle := by
  cases course with
  | duplicate first known => exact .nil
  | mismatched operation fresh found other => exact .nil
  | planned recorded fresh found same course => exact course.marked

theorem Occurrence.marked_preserved :
    Invocation.Preserved (fun _ : StepCall V => True)
      (fun invocation => Each Marked invocation.occurrences)
      (fun invocation => Each Marked invocation.occurrences) := by
  refine ⟨id, ?_, ?_, ?_⟩
  · intro before after emitted extension isQuiet place marked
    rw [extension.occurrences]
    exact marked.marked_append isQuiet.marked
  · intro before after call reply middle _ free course called marked
    have declaring : Quiet
        [(⟨before.now, .declared before.nextOrdinal .step call.name⟩ : Occurrence V)] :=
      ⟨rfl, rfl⟩
    have returning := (reply.returning_quiet call.name after).marked
    suffices kept : Each Marked after.occurrences from ⟨kept, fun _ => kept⟩
    rw [called.extension.occurrences]
    exact marked.marked_append
      (declaring.marked.marked_append (course.marked.marked_append returning))
  · intro before after call outcome middle free course called marked
    rw [called.extension.occurrences]
    refine marked.marked_append (.of_bodies ?_ fun _ _ => marked_of_not_isBody)
    simp [course.bodies, Effect.isBody]

theorem Visit.answer_marked (visit : Visit V O) (executionId : String) (store : Store) :
    Each Marked (visit.answer executionId store).occurrences := by
  refine Visit.answer_induction (motive := fun trace _ => Each Marked trace)
    visit.workflow.everyStep_true .nil ?_
  intro log after loaded
  refine ⟨_, _, marked_preserved, (visit.begun_quiet executionId log after).marked, ?_⟩
  intro ended closing marked closingQuiet _ _
  exact marked.marked_append closingQuiet.marked

theorem Guarded.ledger (start : List Operation) :
    Ledger (fun _ : StepCall V => True) (Guarded start) where
  quiet guarded isQuiet := guarded.quiet isQuiet
  step _ guarded course := guarded.step course
  wait guarded course := guarded.wait course
  reread guarded same := guarded.reread same

/-- The records that a medium gives back; there are none if they cannot be read. -/
def Medium.recorded (medium : Medium) (executionId : String) : List Operation :=
  match medium.history executionId with
  | .ok history => history
  | .error _ => []

/-- At-most-once side effects.  Over any sequence of invocations, over any store with
any faults: a guarded body runs at most once for an ordinal and an attempt, after its
marker was persisted in the same invocation; no body runs while the latest record of
its ordinal is terminal; and the store takes in the appended records, in order. -/
theorem guarded_bodies_run_once (executionId : String) (store : Store)
    (visits : List (Visit V O)) :
    (guardedBodies (Session.occurrences executionId store visits)).Nodup ∧
      (∀ answer ∈ Session.answers executionId store visits, Each Marked answer.occurrences) ∧
      Each (Unended (store.medium.recorded executionId))
        (Session.occurrences executionId store visits) ∧
      (Session.storeAfter executionId store visits).medium =
        store.medium.appendAll executionId
          (records (Session.occurrences executionId store visits)) := by
  have initially : ∀ history, store.medium.history executionId = .ok history →
      Guarded (store.medium.recorded executionId) ([] : List (Occurrence V))
        (History.latest? history) := by
    intro history read
    have same : store.medium.recorded executionId = history := by
      simp only [Medium.recorded, read]
    rw [same]
    refine ⟨.nil, List.nodup_nil, by simp, ?_⟩
    rintro operation (appended | first) terminal
    · simp at appended
    · exact ⟨operation, first, terminal⟩
  have session := (Guarded.ledger (store.medium.recorded executionId)).session
    (fun guarded => And.intro guarded.unended guarded.once) visits ⟨.nil, List.nodup_nil⟩
    initially fun visit _ => visit.workflow.everyStep_true
  obtain ⟨unended, once⟩ := session.concluded
  refine ⟨once, ?_, unended, session.appended⟩
  intro answer member
  obtain ⟨earlier, visit, later, _, rfl⟩ := Session.mem_answers member
  exact visit.answer_marked executionId _

/-- A store whose history closes an operation and then opens it again. -/
def reopenedStore : Store :=
  .ofMedium
    (.memory
      [("run", (Operation.step 0 "x").withState (.succeeded 1 .null)),
        ("run", (Operation.step 0 "x").withState (.retryScheduled 1 default))]) .none

/-- An earlier record that is terminal does not keep a body from running: only the
latest record of an ordinal counts. -/
theorem body_runs_for_a_reopened_operation :
    (∃ operation ∈ reopenedStore.medium.recorded "run",
        operation.ordinal = 0 ∧ operation.status = .succeeded) ∧
      ∃ occurrence ∈ Session.occurrences "run" reopenedStore [Visit.ofOneStep],
        occurrence.effect.bodyOrdinal? = some 0 := by
  constructor
  · exact ⟨_, List.mem_cons_self, rfl, rfl⟩
  · have begun : (Session.occurrences "run" reopenedStore [Visit.ofOneStep]).any
        (·.effect.bodyOrdinal? == some 0) = true := by
      decide +kernel
    simpa using begun

end Durable
