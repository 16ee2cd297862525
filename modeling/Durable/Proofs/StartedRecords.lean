import Durable.Proofs.HistoryProtocol

/-!
# Started records

An attempt that has begun and has no outcome leaves its marker behind as the latest record
of its operation.  Only the report of the interruption can follow the marker, and nothing
follows the report.  No operation behind it is recorded before the report.
-/

namespace Durable

variable {semantics : String → StepSemantics} {medium : Medium}

open OperationUpdate

/-- The latest record of the ordinal is the marker of the attempt, or the report of its
interruption. -/
inductive StandsStarted (ordinal : Nat) (name : String) (attempt : Nat)
    (records : List Operation) : Prop where
  | marked (latest : History.latest? records ordinal =
      some ((Operation.unwritten .step ordinal name).withState (.started attempt)))
  | reported (latest : History.latest? records ordinal =
      some (Operation.interruption ordinal name attempt))

/-- The latest record of the ordinal is started, with the attempt and without a ready
time. -/
def History.StartedAt (history : List Operation) (ordinal : Nat) (name : String)
    (attempt : Nat) : Prop :=
  ∃ latest, latest? history ordinal = some latest ∧ latest.name = name ∧
    latest.status = .started ∧ latest.attempt = attempt ∧ latest.readyAt = none

/-- Among the records of an invocation is the begin of the attempt, and behind it no
outcome of the attempt. -/
def LeavesOpen (ordinal attempt : Nat) (records : List Operation) : Prop :=
  ∃ front marker back, records = front ++ marker :: back ∧
    marker.ordinal = ordinal ∧ marker.status = .started ∧ marker.attempt = attempt ∧
    ∀ record ∈ back, record.ordinal = ordinal → record.attempt = attempt →
      record.status = .started

namespace History

theorem latest?_split {history : List Operation} {ordinal : Nat} {latest : Operation}
    (found : latest? history ordinal = some latest) :
    ∃ front back, history = front ++ latest :: back ∧
      ∀ record ∈ back, record.ordinal ≠ ordinal := by
  induction history using List.reverseRecOn with
  | nil => cases found
  | append_singleton history operation induction =>
      rw [latest?_append_singleton] at found
      by_cases here : operation.ordinal = ordinal
      · rw [if_pos here, Option.some.injEq] at found
        exact ⟨history, [], by rw [found], by simp⟩
      · rw [if_neg here] at found
        obtain ⟨front, back, rfl, others⟩ := induction found
        refine ⟨front, back ++ [operation], by simp, ?_⟩
        intro record member
        rcases List.mem_append.mp member with inside | last
        · exact others record inside
        · rw [List.mem_singleton.mp last]
          exact here

end History

theorem LeavesOpen.of_latest? {records : List Operation} {ordinal : Nat} {latest : Operation}
    (found : History.latest? records ordinal = some latest) (started : latest.status = .started) :
    LeavesOpen ordinal latest.attempt records := by
  obtain ⟨front, back, split, others⟩ := History.latest?_split found
  exact ⟨front, latest, back, split, (History.latest?_mem found).2, started, rfl,
    fun record member here => absurd here (others record member)⟩

namespace StandsStarted

variable {ordinal attempt : Nat} {name : String} {records : List Operation}

theorem of_legal {latest : Operation} (found : History.latest? records ordinal = some latest)
    (legal : latest.Legal semantics) (started : latest.status = .started) :
    semantics latest.name = .atMostOnce ∧
      StandsStarted ordinal latest.name latest.attempt records := by
  have state := legal.state
  have shape := Operation.eq_unwritten legal.id
  rw [(History.latest?_mem found).2] at shape
  cases kind : latest.kind with
  | timer =>
      rw [kind] at state
      generalize same : latest.state = update at state
      cases state <;> cases started.symm.trans (congrArg OperationUpdate.status same)
  | step =>
      rw [kind] at state shape
      obtain ⟨guarded, number, marked | reported⟩ := state.of_started started
      · have same : latest.attempt = number := congrArg OperationUpdate.attempt marked
        rw [marked, ← same] at shape
        exact ⟨guarded, .marked (found.trans (congrArg some shape))⟩
      · have same : latest.attempt = number := congrArg OperationUpdate.attempt reported
        rw [reported, ← same] at shape
        exact ⟨guarded, .reported (found.trans (congrArg some shape))⟩

variable (stands : StandsStarted ordinal name attempt records)

include stands

theorem startedAt : History.StartedAt records ordinal name attempt := by
  cases stands with
  | marked latest => exact ⟨_, latest, rfl, rfl, rfl, rfl⟩
  | reported latest => exact ⟨_, latest, rfl, rfl, rfl, rfl⟩

theorem congr {longer : List Operation}
    (same : History.latest? longer ordinal = History.latest? records ordinal) :
    StandsStarted ordinal name attempt longer := by
  cases stands with
  | marked latest => exact .marked (same.trans latest)
  | reported latest => exact .reported (same.trans latest)

theorem read {back : Option Operation}
    (restores : Option.Rel medium.Restores (History.latest? records ordinal) back) :
    back = some ((Operation.unwritten .step ordinal name).withState (.started attempt)) ∨
      back = some (.interruption ordinal name attempt) := by
  cases stands with
  | marked latest =>
      rw [latest] at restores
      cases restores with
      | some given =>
          obtain ⟨update, rfl, state⟩ := given.of_withState
          exact .inl (by rw [state.started])
  | reported latest =>
      rw [latest] at restores
      cases restores with
      | some given =>
          obtain ⟨update, rfl, state⟩ := given.of_withState
          exact .inr (by rw [state.eq_of_bare rfl rfl]; rfl)

theorem restored {history : List Operation}
    (restores : List.Forall₂ medium.Restores records history) :
    StandsStarted ordinal name attempt history :=
  (stands.read (History.latest?_forall₂ (fun _ _ given => given.givesBack.ordinal) restores
    ordinal)).elim .marked .reported

end StandsStarted

section

variable {kind : OperationKind} {ordinal attempt : Nat} {name : String}
  {updates : List OperationUpdate}

theorem Entry.of_started {records : List Operation} {latest : Operation}
    (entry : Entry semantics medium records kind ordinal name updates)
    (found : History.latest? records ordinal = some latest) (started : latest.status = .started) :
    kind = .step ∧ latest.state = .started latest.attempt ∧
      updates = [.reported name latest.attempt] := by
  have advance := entry.advance
  rw [found, Option.map_some] at advance
  -- A begin goes on from a pending record.
  have noBegin : ∀ {number : Nat}, ¬Begins (some latest.state) number := by
    intro number begins
    generalize state : latest.state = before at begins
    cases begins with
    | again attempt readyAt =>
        cases started.symm.trans (congrArg OperationUpdate.status state)
  cases kind with
  | step =>
      generalize state : latest.state = before at advance noBegin
      cases advance with
      | marked guarded begins => exact absurd begins noBegin
      | closed guarded begins ends => exact absurd begins noBegin
      | attempted unguarded begins ends => exact absurd begins noBegin
      | reported number guarded =>
          have same : latest.attempt = number := congrArg OperationUpdate.attempt state
          rw [same]
          exact ⟨rfl, rfl, rfl⟩
  | timer =>
      generalize state : latest.state = before at advance
      cases advance with
      | elapsed given => cases started.symm.trans (congrArg OperationUpdate.status state)

theorem OperationUpdate.Advance.same_attempt {before : Option OperationUpdate}
    (advance : Advance semantics medium kind name before updates) :
    ∃ number, ∀ update ∈ updates, update.attempt = number := by
  cases kind with
  | step =>
      cases advance with
      | @marked _ number guarded begins => exact ⟨number, by simp [started]⟩
      | @closed _ number _ guarded begins ends =>
          exact ⟨number, by simp [started, ends.attempt_eq]⟩
      | @attempted _ number _ unguarded begins ends => exact ⟨number, by simp [ends.attempt_eq]⟩
      | reported number guarded => exact ⟨number, by simp [reported, interrupted, started]⟩
  | timer => cases advance <;> exact ⟨1, by simp [runsUntil, elapsedAt]⟩

theorem Entry.ends_started {records part back : List Operation} {marker : Operation}
    (entry : Entry semantics medium records kind ordinal name updates)
    (split : updates.map (Operation.unwritten kind ordinal name).withState = part ++ marker :: back)
    (started : marker.status = .started)
    (noOutcome : ∀ record ∈ back, record.ordinal = ordinal → record.attempt = marker.attempt →
      record.status = .started) :
    ∃ latest, History.latest? (records ++
        updates.map (Operation.unwritten kind ordinal name).withState) ordinal = some latest ∧
      latest.status = .started ∧ latest.attempt = marker.attempt := by
  obtain ⟨rest, last, rfl⟩ := entry.advance.exists_last
  obtain ⟨number, attempts⟩ := entry.advance.same_attempt
  have inEntry : marker ∈ (rest ++ [last]).map
      (Operation.unwritten kind ordinal name).withState := by
    rw [split]
    simp
  obtain ⟨update, written, rfl⟩ := List.mem_map.mp inEntry
  have lastAttempt : last.attempt = update.attempt :=
    (attempts last (by simp)).trans (attempts update written).symm
  have ends := congrArg List.getLast? split
  rw [List.map_append, List.map_singleton, List.getLast?_append_cons,
    List.getLast?_append_cons] at ends
  have lastMember : (Operation.unwritten kind ordinal name).withState last ∈
      (Operation.unwritten kind ordinal name).withState update :: back :=
    List.mem_of_getLast? ends.symm
  refine ⟨_, latest?_entry _ last, ?_, lastAttempt⟩
  rcases List.mem_cons.mp lastMember with same | behind
  · rw [same]
    exact started
  · exact noOutcome _ behind rfl lastAttempt

namespace Chronicle

variable {earlier added : List Operation}

theorem latest_of_leavesOpen (chronicle : Chronicle semantics medium earlier added)
    (leftOpen : LeavesOpen ordinal attempt added) :
    ∃ latest, History.latest? (earlier ++ added) ordinal = some latest ∧
      latest.status = .started ∧ latest.attempt = attempt := by
  obtain ⟨front, marker, back, split, here, started, rfl, noOutcome⟩ := leftOpen
  induction chronicle generalizing back with
  | nil => simp at split
  | @call added kind own name updates chronicle entry induction =>
      rw [← List.append_assoc]
      rcases append_eq_append_cons split with ⟨part, rfl, rfl⟩ | ⟨part, rfl, entryEq⟩
      · obtain ⟨latest, found, latestStarted, latestAttempt⟩ :=
          induction part rfl fun record member => noOutcome record (List.mem_append_left _ member)
        by_cases same : ordinal = own
        · subst same
          obtain ⟨rfl, _, rfl⟩ := entry.of_started found latestStarted
          exact ⟨_, (History.latest?_append_singleton _ _ _).trans (if_pos rfl), rfl,
            latestAttempt⟩
        · rw [latest?_entry_other _ same]
          exact ⟨latest, found, latestStarted, latestAttempt⟩
      · have inEntry : marker ∈ updates.map (Operation.unwritten kind own name).withState := by
          rw [entryEq]
          simp
        obtain rfl : own = ordinal := (ordinal_of_mem_entry inEntry).symm.trans here
        exact entry.ends_started entryEq started noOutcome

/-- A started record stays, and is followed by its report at most. -/
theorem standsStarted (chronicle : Chronicle semantics medium earlier added)
    (stands : StandsStarted ordinal name attempt earlier) :
    StandsStarted ordinal name attempt (earlier ++ added) ∧
      (History.ofOrdinal added ordinal = [] ∨
        History.ofOrdinal added ordinal = [Operation.interruption ordinal name attempt]) := by
  induction chronicle with
  | nil =>
      rw [List.append_nil]
      exact ⟨stands, .inl rfl⟩
  | @call added kind own entryName updates chronicle entry induction =>
      obtain ⟨before, further⟩ := induction
      rw [← List.append_assoc]
      by_cases here : own = ordinal
      · subst here
        cases before with
        | reported found =>
            obtain ⟨_, state, _⟩ := entry.of_started found rfl
            cases congrArg OperationUpdate.error state
        | marked found =>
            obtain ⟨rfl, _, rfl⟩ := entry.of_started found rfl
            obtain rfl : name = entryName := (entry.same _ found).2
            have latest : History.latest? (earlier ++ added ++
                [Operation.interruption own name attempt]) own =
                  some (Operation.interruption own name attempt) :=
              (History.latest?_append_singleton _ _ _).trans (if_pos rfl)
            refine ⟨.reported latest, .inr ?_⟩
            rcases further with nothing | already
            · rw [ofOrdinal_entry, nothing]
              rfl
            · have last := congrArg List.getLast? already
              rw [History.getLast?_ofOrdinal] at last
              rw [History.latest?_append, last] at found
              cases congrArg Operation.error (Option.some.inj found)
      · rw [ofOrdinal_entry_other here]
        exact ⟨before.congr (latest?_entry_other _ (Ne.symm here)), further⟩

/-- Behind an operation with a started record nothing is appended before the report. -/
theorem reported_before {records front back : List Operation} {record : Operation}
    (chronicle : Chronicle semantics medium [] records)
    (stands : StandsStarted ordinal name attempt records)
    (split : records = front ++ record :: back) (behind : ordinal < record.ordinal) :
    .interruption ordinal name attempt ∈ front := by
  obtain ⟨⟨settled, found, isSettled⟩, nothing⟩ := chronicle.settledBelow split behind
  have same : History.latest? records ordinal = some settled := by
    rw [split, History.latest?_append, History.latest?_eq_none nothing, Option.none_or, found]
  cases stands with
  | marked latest =>
      obtain rfl := Option.some.inj (latest.symm.trans same)
      rcases isSettled with terminal | ⟨_, noted, _⟩
      · cases terminal
      · exact absurd rfl noted
  | reported latest =>
      obtain rfl := Option.some.inj (latest.symm.trans same)
      exact (History.latest?_mem found).1

end Chronicle

end

end Durable
