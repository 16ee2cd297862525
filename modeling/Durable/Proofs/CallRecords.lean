import Durable.Proofs.Session

/-!
# The records of a call

A call appends records of its own ordinal, kind and name only, and only after it has
found nothing at its ordinal that contradicts them.  What it appended last is the
state in which it leaves its operation.
-/

namespace Durable

variable {V : Type}

/-- The records that a call may append, given what it found. -/
structure OwnRecords (invocation : Invocation V) (kind : OperationKind) (name : String)
    (records : List Operation) : Prop where
  own : ∀ operation ∈ records, operation.ordinal = invocation.nextOrdinal ∧
    operation.kind = kind ∧ operation.name = name
  fresh : records ≠ [] → invocation.declaredAt? name = none
  fits : records ≠ [] → ∀ operation,
    invocation.log.lookup? invocation.nextOrdinal = some operation →
      operation.kind = kind ∧ operation.name = name

namespace OwnRecords

theorem nil (invocation : Invocation V) (kind : OperationKind) (name : String) :
    OwnRecords invocation kind name [] :=
  ⟨by simp, by simp, by simp⟩

end OwnRecords

namespace StepCall

theorem base_fits {call : StepCall V} {invocation : Invocation V}
    (same : ∀ operation, invocation.log.lookup? invocation.nextOrdinal = some operation →
      operation.kind = .step ∧ operation.name = call.name) :
    (call.base invocation).ordinal = invocation.nextOrdinal ∧
      (call.base invocation).kind = .step ∧ (call.base invocation).name = call.name := by
  refine ⟨Invocation.current_ordinal invocation (.step invocation.nextOrdinal call.name), ?_⟩
  cases found : invocation.log.lookup? invocation.nextOrdinal with
  | none =>
      have base : call.base invocation = .step invocation.nextOrdinal call.name :=
        Invocation.current_of_none found
      rw [base]
      exact ⟨rfl, rfl⟩
  | some operation =>
      have base : call.base invocation = operation := Invocation.current_of_some found
      rw [base]
      exact same operation found

theorem opening_records (call : StepCall V) (invocation : Invocation V) (number : Nat) :
    Occurrence.records (call.opening invocation number) =
      match call.config.semantics with
      | .atMostOnce => [(call.base invocation).withState (.started number)]
      | .atLeastOnce => [] := by
  cases semantics : call.config.semantics <;>
    simp [opening, Occurrence.marker, semantics, Effect.record?]

theorem opening_records_of_atLeastOnce {call : StepCall V}
    (unguarded : call.config.semantics = .atLeastOnce) (invocation : Invocation V)
    (number : Nat) : Occurrence.records (call.opening invocation number) = [] := by
  rw [opening_records, unguarded]

theorem latest?_closing (call : StepCall V) (invocation : Invocation V) (number : Nat)
    {chatter : List (Occurrence V)} (logs : Occurrence.Chatter chatter) (reading : Instant)
    (update : OperationUpdate) (diagnostic : Diagnostic) :
    History.latest? (Occurrence.records (call.opening invocation number
      ++ (chatter ++ [⟨reading, .appended ((call.base invocation).withState update)⟩,
        ⟨reading, .diagnosed diagnostic⟩]))) invocation.nextOrdinal =
      some ((call.base invocation).withState update) := by
  have ordinal : (call.base invocation).ordinal = invocation.nextOrdinal :=
    Invocation.current_ordinal invocation (.step invocation.nextOrdinal call.name)
  simp [logs.records, Effect.record?, History.latest?_append_singleton, ordinal]

end StepCall

namespace AttemptCourse

variable {invocation : Invocation V} {call : StepCall V} {number : Nat} {reply : Reply V}
  {emitted : List (Occurrence V)}

/-- Every record of an attempt is its marker, or closes it. -/
theorem marks_or_closes (course : AttemptCourse invocation call number reply emitted) :
    ∀ operation ∈ Occurrence.records emitted,
      operation = (call.base invocation).withState (.started number) ∨
        ∃ update outcome,
          call.closing? invocation number (call.clockAfter invocation number).now =
            some (update, outcome) ∧
          operation = (call.base invocation).withState update := by
  have opened : ∀ operation ∈ Occurrence.records (call.opening invocation number),
      operation = (call.base invocation).withState (.started number) := by
    intro operation member
    rw [call.opening_records] at member
    split at member
    · exact List.mem_singleton.mp member
    · cases member
  cases course with
  | unmarked error guarded faulty => simp [Effect.record?]
  | crashed chatter logs dies =>
      intro operation member
      rw [Occurrence.records_append, logs.records, List.append_nil] at member
      exact .inl (opened operation member)
  | lost chatter logs reading update outcome closes error faulty =>
      intro operation member
      simp only [Occurrence.records_append, logs.records, Occurrence.records_cons,
        Effect.record?, Option.toList_none, Occurrence.records_nil, List.append_nil] at member
      exact .inl (opened operation member)
  | closed chatter logs reading update outcome closes diagnostic timed =>
      intro operation member
      rw [Occurrence.records_append, List.mem_append] at member
      rcases member with opening | closing
      · exact .inl (opened operation opening)
      · simp only [Occurrence.records_append, logs.records, Occurrence.records_cons,
          Effect.record?, Option.toList_some, Option.toList_none, Occurrence.records_nil,
          List.append_nil, List.nil_append, List.mem_singleton] at closing
        rw [timed] at closes
        exact .inr ⟨update, outcome, closes, closing⟩

theorem states (course : AttemptCourse invocation call number reply emitted) :
    ∀ operation ∈ Occurrence.records emitted,
      ∃ update, operation = (call.base invocation).withState update := by
  intro operation member
  rcases course.marks_or_closes operation member with marker | ⟨update, _, _, closing⟩
  · exact ⟨_, marker⟩
  · exact ⟨update, closing⟩

end AttemptCourse

theorem StepCourse.ownRecords {invocation : Invocation V} {call : StepCall V} {reply : Reply V}
    {middle : List (Occurrence V)} (course : StepCourse invocation call reply middle) :
    OwnRecords invocation .step call.name (Occurrence.records middle) := by
  cases course with
  | duplicate first known => exact .nil invocation _ _
  | mismatched operation fresh found other => exact .nil invocation _ _
  | planned recorded fresh found same course =>
      have fits : ∀ operation, invocation.log.lookup? invocation.nextOrdinal = some operation →
          operation.kind = .step ∧ operation.name = call.name := by
        intro operation here
        exact same operation (found.symm.trans here)
      refine ⟨?_, fun _ => fresh, fun _ => fits⟩
      generalize planned : StepPlan.ofRecord recorded call.config.semantics invocation.now =
        plan at course
      cases course with
      | replay operation => simp [Effect.record?]
      | fail error => simp
      | reported operation noted => simp [Effect.record?]
      | unannotated operation unnoted error faulty => simp [Effect.record?]
      | annotated operation unnoted =>
          obtain ⟨rfl, started, _⟩ := StepPlan.ofRecord_eq_interrupt planned
          intro written member
          simp only [Occurrence.records_cons, Effect.record?, Option.toList_none,
            Option.toList_some, Occurrence.records_nil, List.append_nil, List.nil_append,
            List.mem_singleton] at member
          have ordinal : operation.ordinal = invocation.nextOrdinal :=
            OperationLog.lookup?_ordinal found
          rw [member]
          exact ⟨ordinal, fits operation found⟩
      | attempted number unfinished notDecreasing course =>
          intro written member
          obtain ⟨update, rfl⟩ := course.states written member
          exact StepCall.base_fits fits

theorem WaitCourse.ownRecords {invocation : Invocation V} {call : WaitCall}
    {outcome : Except DurableError Unit} {middle : List (Occurrence V)}
    (course : WaitCourse invocation call outcome middle) :
    OwnRecords invocation .timer call.name (Occurrence.records middle) := by
  cases course with
  | duplicate first known => exact .nil invocation _ _
  | mismatched operation fresh found other => exact .nil invocation _ _
  | planned recorded fresh found same course =>
      have fits : ∀ operation, invocation.log.lookup? invocation.nextOrdinal = some operation →
          operation.kind = .timer ∧ operation.name = call.name := by
        intro operation here
        exact same operation (found.symm.trans here)
      refine ⟨?_, fun _ => fresh, fun _ => fits⟩
      generalize planned : WaitPlan.ofRecord recorded invocation.now = plan at course
      cases course with
      | pass => simp
      | fail error => simp
      | unelapsed timer error faulty => simp [Effect.record?]
      | lost written error faulty => simp [Effect.record?]
      | elapsed timer diagnostic =>
          obtain ⟨rfl, pending, _⟩ := WaitPlan.ofRecord_eq_elapse planned
          have ordinal : timer.ordinal = invocation.nextOrdinal :=
            OperationLog.lookup?_ordinal found
          intro written member
          simp only [Occurrence.records_cons, Effect.record?, Option.toList_none,
            Option.toList_some, Occurrence.records_nil, List.append_nil,
            List.mem_singleton] at member
          rw [member]
          exact ⟨ordinal, fits timer found⟩
      | passed due => simp [Effect.record?, WaitCall.timer, Operation.timer, Operation.elapsed,
          Operation.withState]
      | started notDue diagnostic =>
          simp [Effect.record?, WaitCall.timer, Operation.timer]

end Durable
