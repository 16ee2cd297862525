import Durable.Proofs.Chronicle

/-!
# What a medium gives back for a chronicle

A medium gives back every state with another result or ready time at most, and keeps an
absent one absent.  The edges between the states of an operation are the same afterwards,
so what is given back for a chronicle is a chronicle again.
-/

namespace Durable

open OperationUpdate

section

variable {semantics : String → StepSemantics} {medium : Medium}
  {kind : OperationKind} {ordinal : Nat} {name : String} {updates : List OperationUpdate}

namespace Medium

theorem of_mapM_some {α : Type} {f : α → Option α} {given : α} {back : Option α}
    (mapped : (some given).mapM f = some back) :
    ∃ value, f given = some value ∧ back = some value := by
  obtain ⟨value, found, same⟩ := Option.map_eq_some_iff.mp mapped
  exact ⟨value, found, same.symm⟩

/-- What the medium gives back for a record, without the identity of its operation. -/
def RestoresState (medium : Medium) (written read : OperationUpdate) : Prop :=
  ∃ result readyAt,
    read = { written with result := result, readyAt := readyAt } ∧
      written.result.mapM medium.restore = some result ∧
      written.readyAt.mapM medium.restoreTime = some readyAt

theorem restore_null (medium : Medium) : medium.restore .null = some .null := by
  cases medium <;> rfl

namespace Restores

variable {written read : Operation}

theorem state (restores : medium.Restores written read) :
    medium.RestoresState written.state read.state := by
  obtain ⟨result, readyAt, rfl, restored, timeRestored⟩ := restores
  exact ⟨result, readyAt, rfl, restored, timeRestored⟩

theorem of_withState {operation : Operation} {update : OperationUpdate}
    (restores : medium.Restores (operation.withState update) read) :
    ∃ restored, read = operation.withState restored ∧ medium.RestoresState update restored := by
  obtain ⟨result, readyAt, rfl, restored, timeRestored⟩ := restores
  exact ⟨_, rfl, result, readyAt, rfl, restored, timeRestored⟩

theorem identity (restores : medium.Restores written read) :
    read.kind = written.kind ∧ read.name = written.name := by
  obtain ⟨result, readyAt, rfl, _⟩ := restores
  exact ⟨rfl, rfl⟩

end Restores

namespace RestoresState

variable {written read : OperationUpdate}

theorem status (restores : medium.RestoresState written read) :
    read.status = written.status := by
  obtain ⟨result, readyAt, rfl, _⟩ := restores
  rfl

theorem attempt (restores : medium.RestoresState written read) :
    read.attempt = written.attempt := by
  obtain ⟨result, readyAt, rfl, _⟩ := restores
  rfl

theorem error (restores : medium.RestoresState written read) : read.error = written.error := by
  obtain ⟨result, readyAt, rfl, _⟩ := restores
  rfl

theorem eq_of_bare (restores : medium.RestoresState written read)
    (noResult : written.result = none) (noTime : written.readyAt = none) : read = written := by
  obtain ⟨result, readyAt, rfl, restored, timeRestored⟩ := restores
  rw [noResult] at restored
  rw [noTime] at timeRestored
  obtain rfl : none = result := Option.some.inj restored
  obtain rfl : none = readyAt := Option.some.inj timeRestored
  rw [← noResult, ← noTime]

theorem started {attempt : Nat} (restores : medium.RestoresState (.started attempt) read) :
    read = .started attempt :=
  restores.eq_of_bare rfl rfl

theorem retryScheduled {attempt : Nat} {readyAt : Instant}
    (restores : medium.RestoresState (.retryScheduled attempt readyAt) read) :
    ∃ restored, medium.restoreTime readyAt = some restored ∧
      read = .retryScheduled attempt restored := by
  obtain ⟨result, time, rfl, restored, timeRestored⟩ := restores
  obtain rfl : none = result := Option.some.inj restored
  obtain ⟨back, given, rfl⟩ := of_mapM_some timeRestored
  exact ⟨back, given, rfl⟩

theorem runsUntil {readyAt : Instant}
    (restores : medium.RestoresState (.runsUntil readyAt) read) :
    ∃ restored, medium.restoreTime readyAt = some restored ∧ read = .runsUntil restored :=
  restores.retryScheduled

theorem elapsedAt {readyAt : Instant}
    (restores : medium.RestoresState (.elapsedAt readyAt) read) :
    ∃ restored, medium.restoreTime readyAt = some restored ∧ read = .elapsedAt restored := by
  obtain ⟨result, time, rfl, restored, timeRestored⟩ := restores
  obtain ⟨payload, null, rfl⟩ := of_mapM_some restored
  obtain ⟨back, given, rfl⟩ := of_mapM_some timeRestored
  obtain rfl := Option.some.inj (medium.restore_null.symm.trans null)
  exact ⟨back, given, rfl⟩

theorem outcome {attempt : Nat} (restores : medium.RestoresState written read)
    (ends : Outcome attempt written) : Outcome attempt read := by
  cases ends with
  | succeeded result =>
      obtain ⟨result, time, rfl, restored, timeRestored⟩ := restores
      obtain ⟨payload, _, rfl⟩ := of_mapM_some restored
      obtain rfl : none = time := Option.some.inj timeRestored
      exact .succeeded payload
  | failed error =>
      rw [restores.eq_of_bare rfl rfl]
      exact .failed error
  | retried readyAt =>
      obtain ⟨restored, _, rfl⟩ := restores.retryScheduled
      exact .retried restored

end RestoresState

end Medium

namespace OperationUpdate

theorem Begins.restored {before back : Option OperationUpdate} {attempt : Nat}
    (begins : Begins before attempt) (restores : Option.Rel medium.RestoresState before back) :
    Begins back attempt := by
  cases begins with
  | first =>
      cases restores with
      | none => exact .first
  | again attempt readyAt =>
      cases restores with
      | some given =>
          obtain ⟨restored, _, rfl⟩ := given.retryScheduled
          exact .again attempt restored

/-- What comes back for the records of a call continues what comes back for the records
before it. -/
theorem Advance.restored {before back : Option OperationUpdate} {read : List OperationUpdate}
    (advance : Advance semantics medium kind name before updates)
    (restores : Option.Rel medium.RestoresState before back)
    (restoresAll : List.Forall₂ medium.RestoresState updates read) :
    Advance semantics medium kind name back read := by
  cases kind with
  | step =>
      cases advance with
      | marked guarded begins =>
          obtain _ | ⟨given, _ | _⟩ := restoresAll
          rw [given.started]
          exact .marked guarded (begins.restored restores)
      | closed guarded begins ends =>
          obtain _ | ⟨marker, _ | ⟨given, _ | _⟩⟩ := restoresAll
          rw [marker.started]
          exact .closed guarded (begins.restored restores) (given.outcome ends)
      | attempted unguarded begins ends =>
          obtain _ | ⟨given, _ | _⟩ := restoresAll
          exact .attempted unguarded (begins.restored restores) (given.outcome ends)
      | reported attempt guarded =>
          obtain _ | ⟨given, _ | _⟩ := restoresAll
          cases restores with
          | some marker =>
              rw [marker.started, given.eq_of_bare rfl rfl]
              exact .reported attempt guarded
  | timer =>
      cases advance with
      | started readyAt =>
          obtain _ | ⟨given, _ | _⟩ := restoresAll
          obtain ⟨restored, _, rfl⟩ := given.runsUntil
          cases restores with
          | none => exact .started restored
      | passed readyAt =>
          obtain _ | ⟨given, _ | _⟩ := restoresAll
          obtain ⟨restored, _, rfl⟩ := given.elapsedAt
          cases restores with
          | none => exact .passed restored
      | elapsed timeGiven =>
          obtain _ | ⟨given, _ | _⟩ := restoresAll
          obtain ⟨again, againGiven, rfl⟩ := given.elapsedAt
          cases restores with
          | some running =>
              obtain ⟨restored, runningGiven, rfl⟩ := running.runsUntil
              obtain rfl := Option.some.inj (timeGiven.symm.trans runningGiven)
              exact .elapsed againGiven

end OperationUpdate

private theorem Medium.Restores.of_entry {read : List Operation}
    (restores : List.Forall₂ medium.Restores
      (updates.map (Operation.unwritten kind ordinal name).withState) read) :
    ∃ restored, read = restored.map (Operation.unwritten kind ordinal name).withState ∧
      List.Forall₂ medium.RestoresState updates restored := by
  induction updates generalizing read with
  | nil =>
      cases restores
      exact ⟨[], rfl, .nil⟩
  | cons update updates induction =>
      obtain _ | ⟨head, tail⟩ := restores
      obtain ⟨restored, rfl, given⟩ := head.of_withState
      obtain ⟨rest, rfl, restGiven⟩ := induction tail
      exact ⟨restored :: rest, rfl, .cons given restGiven⟩

theorem Entry.restored {records history : List Operation} {read : List OperationUpdate}
    (entry : Entry semantics medium records kind ordinal name updates)
    (restores : List.Forall₂ medium.Restores records history)
    (restoresAll : List.Forall₂ medium.RestoresState updates read) :
    Entry semantics medium history kind ordinal name read := by
  have related := History.latest?_forall₂ (fun _ _ given => given.givesBack.ordinal) restores
  have backward : ∀ {other : Nat} {back : Operation}, History.latest? history other = some back →
      ∃ latest, History.latest? records other = some latest ∧ medium.Restores latest back := by
    intro other back found
    have given := related other
    rw [found] at given
    generalize History.latest? records other = latest at given
    cases given with
    | some given => exact ⟨_, rfl, given⟩
  constructor
  · intro other less
    obtain ⟨settled, found, isSettled⟩ := entry.below other less
    have given := related other
    rw [found] at given
    generalize History.latest? history other = latest at given ⊢
    cases given with
    | some given => exact ⟨_, rfl, given.givesBack.settled.mpr isSettled⟩
  · intro back found
    obtain ⟨latest, latestFound, given⟩ := backward found
    rw [given.identity.1, given.identity.2]
    exact entry.same latest latestFound
  · intro absent other back found
    obtain ⟨latest, latestFound, given⟩ := backward found
    have given := given.identity.2
    have here := related ordinal
    rw [absent] at here
    rw [given]
    apply entry.fresh _ other latest latestFound
    generalize History.latest? records ordinal = latestHere at here ⊢
    cases here with
    | none => rfl
  · apply entry.advance.restored _ restoresAll
    have given := related ordinal
    generalize History.latest? records ordinal = latest at given ⊢
    generalize History.latest? history ordinal = back at given ⊢
    cases given with
    | none => exact .none
    | some given => exact .some given.state

/-- What a medium gives back for a chronicle is a chronicle. -/
theorem Chronicle.restored {records history : List Operation}
    (chronicle : Chronicle semantics medium [] records)
    (restores : List.Forall₂ medium.Restores records history) :
    Chronicle semantics medium [] history := by
  induction chronicle generalizing history with
  | nil =>
      cases restores
      exact .nil
  | @call added kind ordinal name updates chronicle entry induction =>
      have earlier := (List.forall₂_take_append _ _ _ restores.flip).flip
      have own := (List.forall₂_drop_append _ _ _ restores.flip).flip
      obtain ⟨read, readEq, given⟩ := Medium.Restores.of_entry own
      rw [← List.take_append_drop added.length history, readEq]
      exact .call (induction earlier) (entry.restored earlier given)

end

end Durable
