import Durable.Proofs.OrderlyLog

/-!
# Chronicles

The records that are appended for an execution come call by call.  A call appends for one
operation only, behind operations that are settled; what it appends continues the latest
record of its operation.  A list of records that comes about in this way is a chronicle:
its operations have consecutive ordinals and names of their own, and what lies behind the
last one of them is settled for good.
-/

namespace Durable

namespace Operation

/-- An operation before its first record. -/
def unwritten (kind : OperationKind) (ordinal : Nat) (name : String) : Operation :=
  { step ordinal name with kind := kind }

/-- A record without the identity of its operation. -/
def state (operation : Operation) : OperationUpdate :=
  ⟨operation.status, operation.attempt, operation.result, operation.error, operation.readyAt⟩

theorem eq_unwritten {operation : Operation}
    (identified : operation.id = operationId operation.ordinal) :
    operation =
      (unwritten operation.kind operation.ordinal operation.name).withState operation.state := by
  obtain ⟨id, ordinal, name, kind, status, attempt, result, error, readyAt⟩ := operation
  obtain rfl : id = operationId ordinal := identified
  rfl

theorem withState_of_id {operation : Operation}
    (identified : operation.id = operationId operation.ordinal) (update : OperationUpdate) :
    operation.withState update =
      (unwritten operation.kind operation.ordinal operation.name).withState update := by
  conv_lhs => rw [eq_unwritten identified]
  rfl

end Operation

namespace OperationUpdate

/-- A timer that ends at an instant to come. -/
def runsUntil (readyAt : Instant) : OperationUpdate :=
  ⟨.pending, 1, none, none, some readyAt⟩

/-- A timer that has ended at an instant. -/
def elapsedAt (readyAt : Instant) : OperationUpdate :=
  ⟨.succeeded, 1, some .null, none, some readyAt⟩

/-- An attempt that is reported as interrupted. -/
def reported (name : String) (attempt : Nat) : OperationUpdate :=
  interrupted attempt (DurableError.stepInterrupted name attempt).toObject

/-- The ways in which an attempt is recorded as over. -/
inductive Outcome (attempt : Nat) : OperationUpdate → Prop where
  | succeeded (result : Json) : Outcome attempt (.succeeded attempt result)
  | failed (error : ErrorObject) : Outcome attempt (.failed attempt error)
  | retried (readyAt : Instant) : Outcome attempt (.retryScheduled attempt readyAt)

/-- Attempts begin with the first one, and go on where one was put off. -/
inductive Begins : Option OperationUpdate → Nat → Prop where
  | first : Begins none 1
  | again (attempt : Nat) (readyAt : Instant) :
      Begins (some (.retryScheduled attempt readyAt)) (attempt + 1)

/-- What a step call can append, when its latest record has the given state. -/
inductive StepAdvance (semantics : StepSemantics) (name : String) :
    Option OperationUpdate → List OperationUpdate → Prop where
  | marked {before : Option OperationUpdate} {attempt : Nat}
      (guarded : semantics = .atMostOnce) (begins : Begins before attempt) :
      StepAdvance semantics name before [.started attempt]
  | closed {before : Option OperationUpdate} {attempt : Nat} {outcome : OperationUpdate}
      (guarded : semantics = .atMostOnce) (begins : Begins before attempt)
      (ends : Outcome attempt outcome) :
      StepAdvance semantics name before [.started attempt, outcome]
  | attempted {before : Option OperationUpdate} {attempt : Nat} {outcome : OperationUpdate}
      (unguarded : semantics = .atLeastOnce) (begins : Begins before attempt)
      (ends : Outcome attempt outcome) :
      StepAdvance semantics name before [outcome]
  | reported (attempt : Nat) (guarded : semantics = .atMostOnce) :
      StepAdvance semantics name (some (.started attempt)) [.reported name attempt]

/-- What a wait call can append. -/
inductive TimerAdvance (medium : Medium) :
    Option OperationUpdate → List OperationUpdate → Prop where
  | started (readyAt : Instant) : TimerAdvance medium none [.runsUntil readyAt]
  | passed (readyAt : Instant) : TimerAdvance medium none [.elapsedAt readyAt]
  | elapsed {readyAt restored : Instant}
      (given : medium.restoreTime readyAt = some restored) :
      TimerAdvance medium (some (.runsUntil readyAt)) [.elapsedAt restored]

/-- What a call can append for its operation. -/
def Advance (semantics : String → StepSemantics) (medium : Medium) (kind : OperationKind)
    (name : String) (before : Option OperationUpdate) (updates : List OperationUpdate) : Prop :=
  match kind with
  | .step => StepAdvance (semantics name) name before updates
  | .timer => TimerAdvance medium before updates

/-- The states in which the record of a step can stand. -/
inductive StepState (semantics : StepSemantics) (name : String) : OperationUpdate → Prop where
  | started (attempt : Nat) (guarded : semantics = .atMostOnce) (counted : 1 ≤ attempt) :
      StepState semantics name (.started attempt)
  | reported (attempt : Nat) (guarded : semantics = .atMostOnce) (counted : 1 ≤ attempt) :
      StepState semantics name (.reported name attempt)
  | ended {attempt : Nat} {outcome : OperationUpdate} (counted : 1 ≤ attempt)
      (ends : Outcome attempt outcome) : StepState semantics name outcome

/-- The states in which the record of a timer can stand. -/
inductive TimerState : OperationUpdate → Prop where
  | running (readyAt : Instant) : TimerState (.runsUntil readyAt)
  | elapsed (readyAt : Instant) : TimerState (.elapsedAt readyAt)

/-- The states in which a record can stand. -/
def State (semantics : String → StepSemantics) (kind : OperationKind) (name : String)
    (update : OperationUpdate) : Prop :=
  match kind with
  | .step => StepState (semantics name) name update
  | .timer => TimerState update

end OperationUpdate

open OperationUpdate

namespace Operation

/-- The record that reports an interrupted attempt of a step. -/
def interruption (ordinal : Nat) (name : String) (attempt : Nat) : Operation :=
  (unwritten .step ordinal name).withState (.reported name attempt)

theorem annotated_of_id {operation : Operation}
    (identified : operation.id = operationId operation.ordinal) (kind : operation.kind = .step) :
    operation.annotated = interruption operation.ordinal operation.name operation.attempt := by
  rw [annotated, withState_of_id identified, kind]
  rfl

end Operation

/-- A record under the identifier of its ordinal, in one of the states of its kind. -/
structure Operation.Legal (semantics : String → StepSemantics) (record : Operation) : Prop where
  id : record.id = operationId record.ordinal
  state : State semantics record.kind record.name record.state

/-- The records that a call can append after these ones. -/
structure Entry (semantics : String → StepSemantics) (medium : Medium)
    (records : List Operation) (kind : OperationKind) (ordinal : Nat) (name : String)
    (updates : List OperationUpdate) : Prop where
  below : ∀ earlier, earlier < ordinal → ∃ settled,
    History.latest? records earlier = some settled ∧ settled.Settled semantics
  same : ∀ latest, History.latest? records ordinal = some latest →
    latest.kind = kind ∧ latest.name = name
  fresh : History.latest? records ordinal = none → ∀ other latest,
    History.latest? records other = some latest → latest.name ≠ name
  advance : Advance semantics medium kind name
    ((History.latest? records ordinal).map Operation.state) updates

/-- Records that were appended after the earlier ones, call by call. -/
inductive Chronicle (semantics : String → StepSemantics) (medium : Medium)
    (earlier : List Operation) : List Operation → Prop where
  | nil : Chronicle semantics medium earlier []
  | call {added : List Operation} {kind : OperationKind} {ordinal : Nat} {name : String}
      {updates : List OperationUpdate} (chronicle : Chronicle semantics medium earlier added)
      (entry : Entry semantics medium (earlier ++ added) kind ordinal name updates) :
      Chronicle semantics medium earlier
        (added ++ updates.map (Operation.unwritten kind ordinal name).withState)

section

variable {semantics : String → StepSemantics} {medium : Medium}
  {kind : OperationKind} {ordinal : Nat} {name : String} {updates : List OperationUpdate}

theorem Chronicle.trans {earlier first second : List Operation}
    (before : Chronicle semantics medium earlier first)
    (after : Chronicle semantics medium (earlier ++ first) second) :
    Chronicle semantics medium earlier (first ++ second) := by
  induction after with
  | nil =>
      rw [List.append_nil]
      exact before
  | call chronicle entry induction =>
      rw [← List.append_assoc]
      rw [List.append_assoc] at entry
      exact .call induction entry

theorem ordinal_of_mem_entry {operation : Operation}
    (member : operation ∈ updates.map (Operation.unwritten kind ordinal name).withState) :
    operation.ordinal = ordinal := by
  obtain ⟨update, _, rfl⟩ := List.mem_map.mp member
  rfl

theorem latest?_entry_other {other : Nat} (records : List Operation) (elsewhere : other ≠ ordinal) :
    History.latest? (records ++ updates.map (Operation.unwritten kind ordinal name).withState)
      other = History.latest? records other := by
  rw [History.latest?_append, History.latest?_eq_none, Option.none_or]
  intro operation member here
  exact elsewhere (here.symm.trans (ordinal_of_mem_entry member))

theorem latest?_entry (records : List Operation) (last : OperationUpdate) :
    History.latest? (records ++
      (updates ++ [last]).map (Operation.unwritten kind ordinal name).withState) ordinal =
        some ((Operation.unwritten kind ordinal name).withState last) := by
  rw [List.map_append, ← List.append_assoc]
  exact (History.latest?_append_singleton _ _ _).trans (if_pos rfl)

namespace OperationUpdate

theorem Advance.exists_last {before : Option OperationUpdate}
    (advance : Advance semantics medium kind name before updates) :
    ∃ rest last, updates = rest ++ [last] := by
  cases kind with
  | step =>
      cases advance with
      | marked guarded begins => exact ⟨[], _, rfl⟩
      | closed guarded begins ends => exact ⟨[_], _, rfl⟩
      | attempted unguarded begins ends => exact ⟨[], _, rfl⟩
      | reported attempt guarded => exact ⟨[], _, rfl⟩
  | timer =>
      cases advance with
      | started readyAt => exact ⟨[], _, rfl⟩
      | passed readyAt => exact ⟨[], _, rfl⟩
      | elapsed given => exact ⟨[], _, rfl⟩

end OperationUpdate

namespace Entry

variable {records : List Operation}
  (entry : Entry semantics medium records kind ordinal name updates)

include entry

/-- No entry continues a settled record. -/
theorem unsettled {latest : Operation} (found : History.latest? records ordinal = some latest) :
    ¬latest.Settled semantics := by
  obtain ⟨sameKind, sameName⟩ := entry.same latest found
  have advance := entry.advance
  rw [found, Option.map_some] at advance
  have pending : latest.status = .pending → ¬latest.Settled semantics := by
    rintro status (terminal | ⟨started, _⟩)
    · rw [Operation.isTerminal_of_status status] at terminal
      contradiction
    · rw [status] at started
      contradiction
  have begun : ∀ {attempt : Nat}, Begins (some latest.state) attempt →
      ¬latest.Settled semantics := by
    intro attempt begins
    generalize state : latest.state = before at begins
    cases begins with
    | again attempt readyAt => exact pending (congrArg OperationUpdate.status state)
  cases kind with
  | step =>
      generalize state : latest.state = before at advance
      cases advance with
      | marked guarded begins => exact begun (by rw [state]; exact begins)
      | closed guarded begins ends => exact begun (by rw [state]; exact begins)
      | attempted unguarded begins ends => exact begun (by rw [state]; exact begins)
      | reported attempt guarded =>
          have status : latest.status = .started := congrArg OperationUpdate.status state
          have error : latest.error = none := congrArg OperationUpdate.error state
          rintro (terminal | ⟨_, noted, _⟩)
          · rw [Operation.isTerminal_of_status status] at terminal
            contradiction
          · exact noted error
  | timer =>
      generalize state : latest.state = before at advance
      cases advance with
      | elapsed given => exact pending (congrArg OperationUpdate.status state)

theorem named (other : Nat) :
    (History.latest? (records ++ updates.map (Operation.unwritten kind ordinal name).withState)
      other).map Operation.name =
        if other = ordinal then some name
        else (History.latest? records other).map Operation.name := by
  by_cases here : other = ordinal
  · obtain ⟨rest, last, rfl⟩ := entry.advance.exists_last
    rw [if_pos here, here, latest?_entry]
    rfl
  · rw [if_neg here, latest?_entry_other records here]

end Entry

namespace OperationUpdate.StepState

variable {semantics : StepSemantics} {update : OperationUpdate}

theorem of_pending (state : StepState semantics name update)
    (pending : update.status = .pending) :
    ∃ attempt readyAt, update = .retryScheduled attempt readyAt := by
  cases state with
  | started attempt guarded counted => cases pending
  | reported attempt guarded counted => cases pending
  | ended counted ends =>
      cases ends with
      | succeeded result => cases pending
      | failed error => cases pending
      | retried readyAt => exact ⟨_, readyAt, rfl⟩

theorem of_started (state : StepState semantics name update)
    (started : update.status = .started) :
    semantics = .atMostOnce ∧
      ∃ attempt, update = .started attempt ∨ update = .reported name attempt := by
  cases state with
  | started attempt guarded counted => exact ⟨guarded, attempt, .inl rfl⟩
  | reported attempt guarded counted => exact ⟨guarded, attempt, .inr rfl⟩
  | ended counted ends => cases ends <;> cases started

theorem counted (state : StepState semantics name update) : 1 ≤ update.attempt := by
  cases state with
  | started attempt guarded counted => exact counted
  | reported attempt guarded counted => exact counted
  | ended counted ends => cases ends <;> exact counted

end OperationUpdate.StepState

theorem OperationUpdate.TimerState.of_pending {update : OperationUpdate}
    (state : TimerState update) (pending : update.status = .pending) :
    ∃ readyAt, update = .runsUntil readyAt := by
  cases state with
  | running readyAt => exact ⟨readyAt, rfl⟩
  | elapsed readyAt => cases pending

theorem OperationUpdate.Begins.counted {before : Option OperationUpdate} {attempt : Nat}
    (begins : Begins before attempt) : 1 ≤ attempt := by
  cases begins with
  | first => exact Nat.le_refl 1
  | again attempt readyAt => exact Nat.le_add_left 1 attempt

/-- What a call appends after a legal record is legal. -/
theorem OperationUpdate.Advance.states {before : Option OperationUpdate}
    (advance : Advance semantics medium kind name before updates)
    (legal : ∀ state, before = some state → State semantics kind name state) :
    ∀ update ∈ updates, State semantics kind name update := by
  cases kind with
  | step =>
      cases advance with
      | marked guarded begins =>
          intro update member
          rw [List.mem_singleton.mp member]
          exact .started _ guarded begins.counted
      | closed guarded begins ends =>
          intro update member
          rcases List.mem_pair.mp member with rfl | rfl
          · exact .started _ guarded begins.counted
          · exact .ended begins.counted ends
      | attempted unguarded begins ends =>
          intro update member
          rw [List.mem_singleton.mp member]
          exact .ended begins.counted ends
      | reported attempt guarded =>
          intro update member
          rw [List.mem_singleton.mp member]
          have counted : 1 ≤ attempt := (legal (.started attempt) rfl).counted
          exact .reported attempt guarded counted
  | timer =>
      cases advance with
      | started readyAt =>
          intro update member
          rw [List.mem_singleton.mp member]
          exact .running readyAt
      | passed readyAt =>
          intro update member
          rw [List.mem_singleton.mp member]
          exact .elapsed readyAt
      | elapsed given =>
          intro update member
          rw [List.mem_singleton.mp member]
          exact .elapsed _

namespace Chronicle

variable {earlier added : List Operation}

theorem legal (chronicle : Chronicle semantics medium earlier added)
    (before : ∀ record ∈ earlier, record.Legal semantics) :
    ∀ record ∈ added, record.Legal semantics := by
  induction chronicle with
  | nil => simp
  | @call added kind ordinal name updates chronicle entry induction =>
      intro record member
      rcases List.mem_append.mp member with inside | last
      · exact induction record inside
      · have states : ∀ update ∈ updates, State semantics kind name update := by
          apply entry.advance.states
          intro state found
          obtain ⟨latest, latestFound, rfl⟩ := Option.map_eq_some_iff.mp found
          obtain ⟨rfl, rfl⟩ := entry.same latest latestFound
          rcases List.mem_append.mp (History.latest?_mem latestFound).1 with first | second
          · exact (before latest first).state
          · exact (induction latest second).state
        obtain ⟨update, written, rfl⟩ := List.mem_map.mp last
        exact ⟨rfl, states update written⟩

/-- When a record is appended, every operation before it is settled for good. -/
theorem settledBelow {records : List Operation}
    (chronicle : Chronicle semantics medium [] records) {front back : List Operation}
    {record : Operation} (split : records = front ++ record :: back)
    (below : ordinal < record.ordinal) :
    (∃ settled, History.latest? front ordinal = some settled ∧ settled.Settled semantics) ∧
      ∀ later ∈ record :: back, later.ordinal ≠ ordinal := by
  induction chronicle generalizing back with
  | nil => simp at split
  | @call added kind own name updates chronicle entry induction =>
      rcases append_eq_append_cons split with ⟨part, rfl, rfl⟩ | ⟨part, rfl, lastEq⟩
      · obtain ⟨⟨settled, found, isSettled⟩, nothing⟩ := induction rfl
        refine ⟨⟨settled, found, isSettled⟩, ?_⟩
        intro later member
        rw [← List.cons_append, List.mem_append] at member
        rcases member with inside | last
        · exact nothing later inside
        · rw [ordinal_of_mem_entry last]
          rintro rfl
          refine entry.unsettled ?_ isSettled
          rw [List.nil_append, History.latest?_append, History.latest?_eq_none nothing,
            Option.none_or]
          exact found
      · -- The record belongs to the last entry.
        have inEntry : ∀ later ∈ part ++ record :: back, later.ordinal = own := by
          intro later member
          rw [← lastEq] at member
          exact ordinal_of_mem_entry member
        have here := inEntry record (by simp)
        obtain ⟨settled, found, isSettled⟩ := entry.below ordinal (by omega)
        have elsewhere : ∀ later ∈ part ++ record :: back, later.ordinal ≠ ordinal := by
          intro later member
          have := inEntry later member
          omega
        refine ⟨⟨settled, ?_, isSettled⟩, ?_⟩
        · rw [History.latest?_append, History.latest?_eq_none, Option.none_or]
          · exact found
          · exact fun operation member => elsewhere operation (List.mem_append_left _ member)
        · exact fun later member => elsewhere later (List.mem_append_right _ member)

theorem settled_behind {records : List Operation}
    (chronicle : Chronicle semantics medium [] records) {record : Operation}
    (member : record ∈ records) (below : ordinal < record.ordinal) :
    ∃ settled, History.latest? records ordinal = some settled ∧ settled.Settled semantics := by
  obtain ⟨front, back, split⟩ := List.append_of_mem member
  obtain ⟨⟨settled, found, isSettled⟩, nothing⟩ := chronicle.settledBelow split below
  refine ⟨settled, ?_, isSettled⟩
  rw [split, History.latest?_append, History.latest?_eq_none nothing, Option.none_or, found]

theorem orderly {records : List Operation}
    (chronicle : Chronicle semantics medium [] records) :
    Orderly fun ordinal => (History.latest? records ordinal).map Operation.name := by
  induction chronicle with
  | nil =>
      refine ⟨fun _ _ => rfl, ?_⟩
      intro first second name named
      simp at named
  | @call added kind ordinal name updates chronicle entry induction =>
      rw [List.nil_append] at entry
      rw [funext entry.named]
      apply induction.put
      · intro other below
        obtain ⟨settled, found, _⟩ := entry.below other below
        simp [found]
      · intro other below named
        cases found : History.latest? added ordinal with
        | none =>
            obtain ⟨latest, otherFound, sameName⟩ := Option.map_eq_some_iff.mp named
            exact entry.fresh found other latest otherFound sameName
        | some latest =>
            have here : (History.latest? added ordinal).map Operation.name = some name := by
              rw [found, Option.map_some, (entry.same latest found).2]
            have same := induction.distinct named here
            omega
      · intro recorded here
        obtain ⟨latest, found, rfl⟩ := Option.map_eq_some_iff.mp here
        exact (entry.same latest found).2

end Chronicle

end

end Durable
