import Durable.Proofs.HistoryProtocol
import Mathlib.Data.List.Nodup

/-!
# The shape of a log

The latest states of an execution have the ordinals from zero on without a gap, and
identifiers and names of their own.  Each is complete for its status: a result, an error
or a ready time is there exactly when it has to be.  Only the last one can be unsettled.
-/

namespace Durable

variable {V O : Type} {semantics : String → StepSemantics} {medium : Medium}

open Occurrence OperationUpdate

theorem operationId_injective : Function.Injective operationId := by
  intro first second same
  have digits : (Instant.padded 4 first).toList = (Instant.padded 4 second).toList := by
    have texts := congrArg String.toList same
    exact List.append_cancel_left
      (((String.toList_append ..).symm.trans texts).trans (String.toList_append ..))
  rw [← Instant.digitsValue_padded 4 first, digits, Instant.digitsValue_padded]

namespace History

/-- When no record was written behind a gap, the latest states stand in the order of their
ordinals, without a gap. -/
theorem ordinals_latestStates {history : List Operation}
    (filled : ∀ front record back, history = front ++ record :: back →
      ∀ ordinal, ordinal < record.ordinal → latest? front ordinal ≠ none) :
    (latestStates history).map Operation.ordinal = List.range (latestStates history).length := by
  induction history using List.reverseRecOn with
  | nil => rfl
  | append_singleton history operation induction =>
      have before := induction fun front record back split =>
        filled front record (back ++ [operation]) (by simp [split])
      have length := congrArg List.length (record_ordinals (latestStates history) operation)
      rw [latestStates_append_singleton, record_ordinals]
      rw [List.length_map] at length
      by_cases known : operation.ordinal ∈ (latestStates history).map Operation.ordinal
      · rw [if_pos known, List.length_map] at length
        rw [if_pos known, length]
        exact before
      · rw [if_neg known, List.length_append, List.length_map, List.length_singleton] at length
        rw [if_neg known, length, List.range_succ, before]
        -- A larger ordinal would leave a gap behind.
        have least : operation.ordinal = (latestStates history).length := by
          rw [before, List.mem_range] at known
          by_contra different
          have gap := filled history operation [] rfl (latestStates history).length (by omega)
          obtain ⟨found, latest⟩ := Option.ne_none_iff_exists'.mp gap
          obtain ⟨member, ordinal⟩ := latest?_mem_latestStates latest
          have inRange := List.mem_map_of_mem (f := Operation.ordinal) member
          rw [before, List.mem_range] at inRange
          omega
        rw [least]

end History

/-- The record of an attempt that was reported as interrupted. -/
def Operation.ReportsInterruption (record : Operation) : Prop :=
  record.kind = .step ∧ record.status = .started ∧
    record.error = some (DurableError.stepInterrupted record.name record.attempt).toObject

/-- A record is complete for its status, and has nothing that does not belong to it. -/
structure Operation.Complete (record : Operation) : Prop where
  id : record.id = operationId record.ordinal
  attempt : 1 ≤ record.attempt
  result : record.result.isSome = true ↔ record.status = .succeeded
  error : record.error.isSome = true ↔ record.status = .failed ∨ record.ReportsInterruption
  readyAt : record.readyAt.isSome = true ↔ record.status = .pending ∨ record.kind = .timer
  timer : record.kind = .timer → record.status = .pending ∨ record.status = .succeeded

/-- In each of the states of its kind a record is complete. -/
theorem OperationUpdate.State.complete {kind : OperationKind} {name : String}
    {update : OperationUpdate} (state : State semantics kind name update) (ordinal : Nat) :
    ((Operation.unwritten kind ordinal name).withState update).Complete := by
  cases kind with
  | step =>
      cases state with
      | started attempt guarded counted =>
          constructor <;> simp [Operation.unwritten, Operation.step, Operation.withState,
            Operation.ReportsInterruption, started, counted]
      | reported attempt guarded counted =>
          constructor <;> simp [Operation.unwritten, Operation.step, Operation.withState,
            Operation.ReportsInterruption, reported, interrupted, started, counted]
      | ended counted ends =>
          cases ends <;> constructor <;> simp [Operation.unwritten, Operation.step,
            Operation.withState, Operation.ReportsInterruption, succeeded, failed,
            retryScheduled, counted]
  | timer =>
      cases state <;> constructor <;> simp [Operation.unwritten, Operation.step,
        Operation.withState, Operation.ReportsInterruption, runsUntil, elapsedAt]

theorem Operation.Legal.complete {record : Operation} (legal : record.Legal semantics) :
    record.Complete := by
  rw [Operation.eq_unwritten legal.id]
  exact legal.state.complete record.ordinal

theorem Operation.Legal.settled {record : Operation} (legal : record.Legal semantics)
    (settled : record.Settled semantics) :
    record.status = .succeeded ∨ record.status = .failed ∨ record.ReportsInterruption := by
  rcases settled with terminal | ⟨started, noted, _⟩
  · cases status : record.status with
    | succeeded => exact .inl rfl
    | failed => exact .inr (.inl rfl)
    | pending =>
        rw [Operation.isTerminal_of_status status] at terminal
        contradiction
    | started =>
        rw [Operation.isTerminal_of_status status] at terminal
        contradiction
  · rcases legal.complete.error.mp (Option.isSome_iff_ne_none.mpr noted) with failed | reports
    · rw [started] at failed
      cases failed
    · exact .inr (.inr reports)

/-- The latest states of an execution, in the order in which its operations were
recorded first. -/
structure LogShape (states : List Operation) : Prop where
  ordinals : states.map Operation.ordinal = List.range states.length
  ids : (states.map Operation.id).Nodup
  names : (states.map Operation.name).Nodup
  complete : ∀ state ∈ states, state.Complete
  settled : ∀ state ∈ states, state.ordinal + 1 < states.length →
    state.status = .succeeded ∨ state.status = .failed ∨ state.ReportsInterruption
  pending : ∀ state ∈ states, state.status = .pending → state.ordinal + 1 = states.length

namespace Chronicle

variable {records : List Operation} (chronicle : Chronicle semantics medium [] records)

include chronicle

theorem ordinals : (History.latestStates records).map Operation.ordinal =
    List.range (History.latestStates records).length := by
  apply History.ordinals_latestStates
  intro front record back split ordinal below
  obtain ⟨⟨settled, found, _⟩, _⟩ := chronicle.settledBelow split below
  simp [found]

theorem legal_latest {state : Operation} (member : state ∈ History.latestStates records) :
    state.Legal semantics :=
  chronicle.legal (by simp) state
    (History.latest?_mem (History.latest?_of_mem_latestStates member)).1

theorem settled_of_not_last {state : Operation} (member : state ∈ History.latestStates records)
    (more : state.ordinal + 1 < (History.latestStates records).length) :
    state.status = .succeeded ∨ state.status = .failed ∨ state.ReportsInterruption := by
  -- There is a record of the next ordinal, and it was written behind settled ones.
  have next : state.ordinal + 1 ∈ (History.latestStates records).map Operation.ordinal := by
    rw [chronicle.ordinals, List.mem_range]
    exact more
  obtain ⟨later, laterMember, laterOrdinal⟩ := List.mem_map.mp next
  have recorded := (History.latest?_mem (History.latest?_of_mem_latestStates laterMember)).1
  have below : state.ordinal < later.ordinal := by omega
  obtain ⟨record, found, isSettled⟩ := chronicle.settled_behind recorded below
  have same := History.latest?_of_mem_latestStates member
  rw [found, Option.some.injEq] at same
  subst same
  exact (chronicle.legal_latest member).settled isSettled

theorem logShape : LogShape (History.latestStates records) := by
  have distinct := History.nodup_ordinals records
  constructor
  · exact chronicle.ordinals
  · have ids : (History.latestStates records).map Operation.id =
        ((History.latestStates records).map Operation.ordinal).map operationId := by
      rw [List.map_map]
      exact List.map_congr_left fun state member => (chronicle.legal_latest member).id
    rw [ids]
    exact List.Nodup.map operationId_injective distinct
  · apply List.Nodup.map_on _ (List.Nodup.of_map _ distinct)
    intro first firstMember second secondMember sameName
    apply List.inj_on_of_nodup_map distinct firstMember secondMember
    apply chronicle.orderly.distinct
    · rw [History.latest?_of_mem_latestStates firstMember, Option.map_some]
    · rw [History.latest?_of_mem_latestStates secondMember, Option.map_some, sameName]
  · intro state member
    exact (chronicle.legal_latest member).complete
  · intro state member
    exact chronicle.settled_of_not_last member
  · intro state member pending
    have known : state.ordinal ∈ (History.latestStates records).map Operation.ordinal :=
      List.mem_map_of_mem member
    rw [chronicle.ordinals, List.mem_range] at known
    by_contra notLast
    rcases chronicle.settled_of_not_last member (by omega) with
      succeeded | failed | ⟨_, started, _⟩
    · rw [pending] at succeeded
      cases succeeded
    · rw [pending] at failed
      cases failed
    · rw [pending] at started
      cases started

end Chronicle

/-- The latest states of an execution have the shape of a log, in every history that is
read back and in the records that were appended. -/
theorem latest_states_have_log_shape {semantics : String → StepSemantics}
    {executionId : String} {store : Store} {visits : List (Visit V O)}
    (empty : store.medium.history executionId = .ok [])
    (agreed : ∀ visit ∈ visits, visit.workflow.EveryStep (StepCall.Agreed semantics)) :
    (∀ history,
        (Session.storeAfter executionId store visits).medium.history executionId = .ok history →
          LogShape (History.latestStates history)) ∧
      LogShape (History.latestStates
        (records (Session.occurrences executionId store visits))) := by
  have session := ChronicledSession.session visits empty agreed
  refine ⟨?_, session.chronicle.logShape⟩
  intro history read
  exact (session.chronicle.restored (session.restores empty read)).logShape

/-- A visit whose workflow waits for a second after its step. -/
def Visit.ofStepAndWait : Visit Unit Unit where
  clock := ⟨default⟩
  suppressReplayLogs := false
  workflow :=
    .step "x" .standard ⟨fun _ => .ok .null, fun _ => .ok ()⟩ (fun _ => ⟨[], .value ()⟩)
      fun _ => .wait "y" (.ofSeconds 1) fun outcome => .done outcome

/-- What the visit records: a step that succeeds, and a timer that is left running. -/
def History.ofStepAndWait : List Operation :=
  [(Operation.step 0 "x").withState (.started 1),
    (Operation.step 0 "x").withState (.succeeded 1 .null),
    .timer 1 "y" ⟨1, 0⟩]

theorem step_and_wait_have_log_shape :
    (Session.storeAfter "run" .empty [Visit.ofStepAndWait]).medium.history "run" =
        .ok History.ofStepAndWait ∧
      LogShape (History.latestStates History.ofStepAndWait) := by
  have agreed : ∀ visit ∈ [Visit.ofStepAndWait],
      visit.workflow.EveryStep (StepCall.Agreed fun _ => .atMostOnce) := by
    intro visit member
    obtain rfl := List.mem_singleton.mp member
    exact ⟨rfl, fun _ _ => trivial⟩
  have read : (Session.storeAfter "run" .empty [Visit.ofStepAndWait]).medium.history "run" =
      .ok History.ofStepAndWait := rfl
  exact ⟨read, (latest_states_have_log_shape rfl agreed).1 _ read⟩

end Durable
