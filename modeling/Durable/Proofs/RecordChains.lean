import Durable.Proofs.HistoryProtocol
import Durable.Proofs.LogRefinement

/-!
# Chains of records

The records of one ordinal form a chain: each keeps the identity of the one before it and
does not fall behind its attempt, and none follows a record that is terminal.  A log that
was loaded from chains keeps to them under any changes, also such as no engine asks for,
because it refuses every change that would break one before the store is called.
-/

namespace Durable

variable {medium : Medium}

namespace Operation

/-- A record may be followed by another one of its ordinal. -/
structure Precedes (earlier later : Operation) : Prop where
  id : later.id = earlier.id
  name : later.name = earlier.name
  kind : later.kind = earlier.kind
  attempt : earlier.attempt ≤ later.attempt
  unended : earlier.isTerminal = false

theorem Precedes.withState {current : Operation} {update : OperationUpdate}
    (unended : current.isTerminal = false) (notDecreasing : current.attempt ≤ update.attempt) :
    current.Precedes (current.withState update) :=
  ⟨rfl, rfl, rfl, notDecreasing, unended⟩

/-- The record without what a medium may change. -/
def lasting (operation : Operation) : Operation :=
  { operation with result := none, readyAt := none }

end Operation

theorem Medium.GivesBack.lasting {written read : Operation}
    (given : medium.GivesBack written read) : read.lasting = written.lasting := by
  obtain ⟨result, readyAt, rfl, _⟩ := given
  rfl

namespace History

/-- Consecutive records of an ordinal precede one another. -/
def Chained (history : List Operation) : Prop :=
  ∀ ordinal, (ofOrdinal history ordinal).IsChain Operation.Precedes

theorem chained_nil : Chained [] :=
  fun _ => .nil

theorem ofOrdinal_append_singleton (history : List Operation) (operation : Operation)
    (ordinal : Nat) :
    ofOrdinal (history ++ [operation]) ordinal =
      if operation.ordinal = ordinal then ofOrdinal history ordinal ++ [operation]
      else ofOrdinal history ordinal := by
  by_cases same : operation.ordinal = ordinal
  · simp [ofOrdinal, List.filter_append, same]
  · simp [ofOrdinal, List.filter_append, same]

theorem Chained.append_singleton {history : List Operation} (chained : Chained history)
    {operation : Operation}
    (precedes : ∀ latest, latest? history operation.ordinal = some latest →
      latest.Precedes operation) :
    Chained (history ++ [operation]) := by
  intro ordinal
  rw [ofOrdinal_append_singleton]
  split
  next same =>
    apply (chained ordinal).append (List.isChain_singleton operation)
    intro latest last next first
    have head : next = operation := by simpa using first.symm
    subst head
    subst same
    exact precedes latest last
  next => exact chained ordinal

/-- A chain is seen in what every medium keeps of its records. -/
theorem chained_lasting (history : List Operation) :
    Chained (history.map Operation.lasting) ↔ Chained history := by
  have view : ∀ ordinal, ofOrdinal (history.map Operation.lasting) ordinal =
      (ofOrdinal history ordinal).map Operation.lasting := fun ordinal =>
    List.filter_map
  refine forall_congr' fun ordinal => ?_
  rw [view, List.isChain_map]
  -- The record and what lasts of it agree in every field that the relation looks at.
  exact List.IsChain.iff fun earlier later =>
    ⟨fun ⟨id, name, kind, attempt, unended⟩ => ⟨id, name, kind, attempt, unended⟩,
      fun ⟨id, name, kind, attempt, unended⟩ => ⟨id, name, kind, attempt, unended⟩⟩

theorem map_lasting_of_givesBack {written read : List Operation}
    (given : List.Forall₂ medium.GivesBack written read) :
    read.map Operation.lasting = written.map Operation.lasting := by
  induction given with
  | nil => rfl
  | cons head _ induction => rw [List.map_cons, List.map_cons, head.lasting, induction]

end History

namespace OperationLog

variable {current : Operation} {update : OperationUpdate}

theorem nextState_terminal (ended : current.isTerminal = true) :
    nextState current update = .error (.conflict current.ordinal
      (UpdateRefusal.terminal current.name current.status update.status).message) := by
  rw [nextState, Operation.apply, if_pos ended]
  rfl

theorem nextState_decreasing (unended : current.isTerminal = false)
    (behind : update.attempt < current.attempt) :
    nextState current update = .error (.conflict current.ordinal
      (UpdateRefusal.attemptDecreases current.name current.attempt update.attempt).message) := by
  rw [nextState, Operation.apply, unended, if_neg Bool.false_ne_true, if_pos behind]
  rfl

end OperationLog

namespace LogChange

/-- The ordinal that a change is for. -/
def ordinal : LogChange → Nat
  | .record operation => operation.ordinal
  | .update ordinal _ => ordinal

/-- The changes that a log of a history refuses. -/
inductive Inadmissible (history : List Operation) : LogChange → Prop where
  | recorded {operation existing : Operation}
      (found : History.latest? history operation.ordinal = some existing) :
      Inadmissible history (.record operation)
  | unrecorded {ordinal : Nat} {next : OperationUpdate}
      (missing : History.latest? history ordinal = none) :
      Inadmissible history (.update ordinal next)
  | terminal {ordinal : Nat} {next : OperationUpdate} {current : Operation}
      (found : History.latest? history ordinal = some current)
      (ended : current.isTerminal = true) :
      Inadmissible history (.update ordinal next)
  | decreasing {ordinal : Nat} {next : OperationUpdate} {current : Operation}
      (found : History.latest? history ordinal = some current)
      (behind : next.attempt < current.attempt) :
      Inadmissible history (.update ordinal next)

/-- The record that a change asks for, or why the log refuses it. -/
def admitted (change : LogChange) (log : OperationLog) : Except StoreError Operation :=
  match change with
  | .record operation => log.admitRecord operation
  | .update ordinal next => log.admitUpdate ordinal next

theorem written_eq (change : LogChange) (log : OperationLog) (store : Store) :
    change.written log store = log.commitAdmitted store (change.admitted log) := by
  cases change <;> rfl

variable {log : OperationLog} {history : List Operation}

/-- A change is refused as a conflict at its ordinal just when it is inadmissible, and any
other asks for a record of its ordinal that may follow the latest one. -/
theorem admitted_cases
    (finds : ∀ ordinal, log.lookup? ordinal = History.latest? history ordinal)
    (change : LogChange) :
    (∃ details, change.admitted log = .error (.conflict change.ordinal details) ∧
        change.Inadmissible history) ∨
      ∃ operation, change.admitted log = .ok operation ∧ ¬ change.Inadmissible history ∧
        operation.ordinal = change.ordinal ∧
        ∀ latest, History.latest? history operation.ordinal = some latest →
          latest.Precedes operation := by
  cases change with
  | record operation =>
      simp only [admitted, OperationLog.admitRecord, ordinal, finds]
      cases found : History.latest? history operation.ordinal with
      | some existing => exact .inl ⟨_, rfl, .recorded found⟩
      | none =>
          refine .inr ⟨operation, rfl, ?_, rfl, ?_⟩
          · rintro ⟨present⟩
            cases found.symm.trans present
          · intro latest last
            cases found.symm.trans last
  | update ordinal next =>
      simp only [admitted, OperationLog.admitUpdate, LogChange.ordinal, finds]
      cases found : History.latest? history ordinal with
      | none => exact .inl ⟨_, rfl, .unrecorded found⟩
      | some current =>
          obtain rfl : current.ordinal = ordinal := (History.latest?_mem found).2
          cases ended : current.isTerminal with
          | true => exact .inl ⟨_, OperationLog.nextState_terminal ended, .terminal found ended⟩
          | false =>
              by_cases behind : next.attempt < current.attempt
              · exact .inl ⟨_, OperationLog.nextState_decreasing ended behind,
                  .decreasing found behind⟩
              have notDecreasing := Nat.le_of_not_lt behind
              refine .inr ⟨_, OperationLog.nextState_ok ended notDecreasing, ?_, rfl, ?_⟩
              · intro inadmissible
                cases inadmissible with
                | unrecorded missing => cases found.symm.trans missing
                | terminal present frozen =>
                    cases found.symm.trans present
                    cases ended.symm.trans frozen
                | decreasing present less =>
                    cases found.symm.trans present
                    exact behind less
              · intro latest last
                cases found.symm.trans last
                exact .withState ended notDecreasing

theorem commit_appends (log : OperationLog) (store : Store) (operation : Operation) :
    (log.commit store operation).store.appends = store.appends + 1 := by
  cases planned : store.faults.append (store.appends + 1) <;>
    simp [OperationLog.commit, Store.append, planned]

/-- Just the inadmissible changes are refused, as conflicts at their ordinals, and the store
is called for just the others. -/
theorem written_of_history
    (finds : ∀ ordinal, log.lookup? ordinal = History.latest? history ordinal)
    (change : LogChange) (store : Store) :
    (change.Inadmissible history ↔ ∃ details,
        change.written log store = ⟨.error (.conflict change.ordinal details), log, store⟩) ∧
      (¬ change.Inadmissible history ↔
        (change.written log store).store.appends = store.appends + 1) := by
  rw [written_eq]
  rcases admitted_cases finds change with
    ⟨details, refused, inadmissible⟩ | ⟨operation, taken, admissible, _⟩
  · rw [refused]
    exact ⟨iff_of_true inadmissible ⟨details, rfl⟩,
      iff_of_false (not_not_intro inadmissible) (Nat.succ_ne_self _).symm⟩
  · have called := commit_appends log store operation
    rw [taken]
    refine ⟨iff_of_false admissible ?_, iff_of_true admissible called⟩
    rintro ⟨details, refused⟩
    have uncalled : (log.commit store operation).store.appends = store.appends :=
      congrArg (fun written => written.store.appends) refused
    exact Nat.succ_ne_self _ (called.symm.trans uncalled)

theorem written_chained (change : LogChange) (store : Store)
    (finds : ∀ ordinal, log.lookup? ordinal = History.latest? history ordinal)
    (chained : History.Chained history) :
    History.Chained (history ++ (change.written log store).outcome.toOption.toList) := by
  rcases change.written_cases log store with ⟨error, refused, _⟩ | ⟨written, outcome, _⟩
  · rw [refused]
    simpa [Except.toOption] using chained
  · rw [outcome]
    apply chained.append_singleton
    rw [written_eq] at outcome
    rcases admitted_cases finds change with ⟨_, refused, _⟩ | ⟨operation, taken, _, _, precedes⟩
    · rw [refused] at outcome
      cases outcome
    · rw [taken] at outcome
      have same : written = operation := by
        simp only [OperationLog.commitAdmitted, OperationLog.commit] at outcome
        split at outcome <;> cases outcome
        rfl
      rw [same]
      exact precedes

theorem written_refines (change : LogChange) (store : Store) (refines : log.Refines history) :
    (change.written log store).log.Refines
      (history ++ (change.written log store).outcome.toOption.toList) := by
  rcases change.written_cases log store with
    ⟨error, refused, same, _⟩ | ⟨operation, taken, inserted, _⟩
  · rw [refused, same]
    simpa [Except.toOption] using refines
  · rw [taken, inserted]
    exact refines.insert operation

theorem after_chained (changes : List LogChange) (store : Store) (refines : log.Refines history)
    (chained : History.Chained history) :
    (after log store changes).1.Refines (history ++ recorded log store changes) ∧
      History.Chained (history ++ recorded log store changes) := by
  induction changes generalizing log store history with
  | nil =>
      rw [recorded, List.append_nil]
      exact ⟨refines, chained⟩
  | cons change changes induction =>
      have rest := induction (change.written log store).store
        (change.written_refines store refines)
        (change.written_chained store refines.lookup chained)
      rwa [List.append_assoc] at rest

theorem after_medium (changes : List LogChange) (log : OperationLog) (store : Store) :
    (after log store changes).2.medium =
      store.medium.appendAll log.executionId (recorded log store changes) := by
  induction changes generalizing log store with
  | nil => rfl
  | cons change changes induction =>
      rw [after, recorded, induction, written_executionId, Medium.appendAll_append]
      congr 1
      rcases change.written_cases log store with
        ⟨error, refused, _, same⟩ | ⟨operation, taken, _, appended⟩
      · rw [refused, same]
        rfl
      · rw [taken, appended]
        rfl

end LogChange

theorem History.Chained.restored {executionId : String} {seed records read : List Operation}
    (chained : History.Chained (seed ++ records))
    (seedRead : medium.history executionId = .ok seed)
    (given : (medium.appendAll executionId records).history executionId = .ok read) :
    History.Chained read := by
  obtain ⟨earlier, later, earlierRead, rfl, lasting⟩ := Medium.history_appendAll given
  cases seedRead.symm.trans earlierRead
  rw [← chained_lasting, List.map_append] at chained ⊢
  rwa [map_lasting_of_givesBack lasting]

/-- The records of an ordinal stay a chain under any changes of a log.  Let a log be loaded
from a history of chains, and let any changes be asked of it, while some appends fail.  Then
the seed and the records that were taken are chains, and so is every history that the medium
gives back.  A further change is refused, as a conflict at its ordinal that leaves the log
and the store as they were, just when it records an ordinal that has a record, or updates
one that has none, that has ended or whose attempt would decrease.  For any other change,
and for no refused one, the store is called. -/
theorem records_stay_chained (store begun : Store) (executionId : String) (log : OperationLog)
    (loaded : OperationLog.load store executionId = (.ok log, begun))
    (seeded : ∀ seed, store.medium.history executionId = .ok seed → History.Chained seed)
    (changes : List LogChange) (change : LogChange) :
    let before := LogChange.after log begun changes
    let records := LogChange.recorded log begun changes
    let written := change.written before.1 before.2
    ∃ seed, store.medium.history executionId = .ok seed ∧
      before.2.medium = store.medium.appendAll executionId records ∧
      History.Chained (seed ++ records) ∧
      (∀ read, before.2.medium.history executionId = .ok read → History.Chained read) ∧
      (change.Inadmissible (seed ++ records) ↔ ∃ details,
        written = ⟨.error (.conflict change.ordinal details), before.1, before.2⟩) ∧
      (¬ change.Inadmissible (seed ++ records) ↔
        written.store.appends = before.2.appends + 1) := by
  intro before records written
  obtain ⟨seed, seedRead, rfl, sameMedium, _⟩ := OperationLog.load_ok loaded
  obtain ⟨refines, chained⟩ := LogChange.after_chained changes begun
    (OperationLog.ofRecords_refines executionId seed) (seeded seed seedRead)
  have medium : before.2.medium = store.medium.appendAll executionId records := by
    rw [LogChange.after_medium, OperationLog.ofRecords_executionId, sameMedium]
  refine ⟨seed, seedRead, medium, chained, ?_,
    LogChange.written_of_history refines.lookup change before.2⟩
  intro read given
  rw [medium] at given
  exact chained.restored seedRead given

/-- A step is moved past its end by hand, another one takes its place, and the append of a
timer is lost. -/
theorem raw_changes_stay_chained :
    let store : Store := .ofMedium (.memory [("run", .step 0 "x")])
      (.listed [2] [] (.database "append" "down"))
    let begun : Store := { store with reads := 1 }
    let log : OperationLog := ⟨"run", [.step 0 "x"]⟩
    let changes : List LogChange := [.update 0 (.succeeded 3 .null), .record (.step 0 "y"),
      .record (.step 5 "z"), .update 5 (.started 1), .record (.step 5 "z")]
    let before := LogChange.after log begun changes
    let written := (LogChange.update 0 (.started 4)).written before.1 before.2
    before.2.medium.history "run" = .ok [.step 0 "x",
        (Operation.step 0 "x").withState (.succeeded 3 .null), .step 5 "z"] ∧
      History.Chained [.step 0 "x", (Operation.step 0 "x").withState (.succeeded 3 .null),
        .step 5 "z"] ∧
      ∃ details, written = ⟨.error (.conflict 0 details), before.1, before.2⟩ := by
  intro store begun log changes before written
  have seeded : ∀ seed, store.medium.history "run" = .ok seed → History.Chained seed := by
    intro seed read
    cases read
    exact History.chained_nil.append_singleton (by simp)
  obtain ⟨seed, seedRead, _, _, chained, refused, _⟩ :=
    records_stay_chained store begun "run" log rfl seeded changes (.update 0 (.started 4))
  cases seedRead
  exact ⟨rfl, chained _ rfl, refused.mp (.terminal rfl rfl)⟩

end Durable
