import Durable.Proofs.FaithfulRecords
import Durable.Proofs.NestedJson
import Durable.Proofs.NextReadyTime

/-!
# Logs and histories

A log refines the history of its execution: it finds the last record of every ordinal, and
its operations are the latest states in the order of their ordinals.  A change of the log
that the store takes adds one record to both, and any other leaves both as they are.  Over a
medium that gives back the records as they were appended, loading the log again therefore
gives the same log.
-/

namespace Durable

variable {V O : Type}

open Occurrence

namespace History

/-- The latest states in ascending order of ordinals. -/
def sortedStates (history : List Operation) : List Operation :=
  (latestStates history).mergeSort fun earlier later =>
    decide (earlier.ordinal ≤ later.ordinal)

theorem sortedStates_ascending (history : List Operation) :
    (sortedStates history).Pairwise fun earlier later => earlier.ordinal ≤ later.ordinal := by
  have ascending : (sortedStates history).Pairwise fun earlier later =>
      decide (earlier.ordinal ≤ later.ordinal) = true := by
    apply List.pairwise_mergeSort
    · intro first second third
      simp only [decide_eq_true_eq]
      exact Nat.le_trans
    · intro first second
      simp only [Bool.or_eq_true, decide_eq_true_eq]
      exact Nat.le_total _ _
  simpa only [decide_eq_true_eq] using ascending

end History

namespace OperationLog

/-- The log finds the last record of every ordinal, and lists the latest states in order. -/
structure Refines (log : OperationLog) (history : List Operation) : Prop where
  lookup : ∀ ordinal, log.lookup? ordinal = History.latest? history ordinal
  operations : log.operations = History.sortedStates history

private theorem Sorted.nodup {log : OperationLog} (sorted : log.Sorted) : log.operations.Nodup :=
  sorted.imp fun less same => absurd (congrArg Operation.ordinal same) (Nat.ne_of_lt less)

/-- A log that finds the last records is a fold of the history in order. -/
theorem Sorted.refines {log : OperationLog} (sorted : log.Sorted) {history : List Operation}
    (lookup : ∀ ordinal, log.lookup? ordinal = History.latest? history ordinal) :
    log.Refines history := by
  refine ⟨lookup, ?_⟩
  have sameMembers : ∀ operation, operation ∈ log.operations ↔
      operation ∈ History.latestStates history := by
    intro operation
    rw [mem_operations sorted, lookup]
    exact ⟨fun latest => (History.latest?_mem_latestStates latest).1,
      History.latest?_of_mem_latestStates⟩
  have statesNodup : (History.latestStates history).Nodup :=
    (History.latestStates_distinct history).imp fun different same =>
      different (congrArg Operation.ordinal same)
  have permuted : log.operations.Perm (History.sortedStates history) :=
    ((List.perm_ext_iff_of_nodup sorted.nodup statesNodup).mpr sameMembers).trans
      (List.mergeSort_perm _ _).symm
  refine List.Perm.eq_of_pairwise ?_ (sorted.imp Nat.le_of_lt)
    (History.sortedStates_ascending history) permuted
  -- Two operations of the log that stand at one ordinal are what the log finds there.
  intro first second firstMember secondMember below above
  have sameOrdinal : first.ordinal = second.ordinal := Nat.le_antisymm below above
  have found := (mem_operations sorted).mp firstMember
  have foundToo := (mem_operations sorted).mp (permuted.mem_iff.mpr secondMember)
  rw [sameOrdinal] at found
  exact Option.some.inj (found.symm.trans foundToo)

theorem ofRecords_refines (executionId : String) (history : List Operation) :
    (ofRecords executionId (History.latestStates history)).Refines history :=
  (ofRecords_sorted executionId _).refines (lookup?_latestStates executionId history)

theorem Refines.eq_ofRecords {log : OperationLog} {history : List Operation}
    (refines : log.Refines history) :
    log = ofRecords log.executionId (History.latestStates history) := by
  have sameOperations := refines.operations.trans
    (ofRecords_refines log.executionId history).operations.symm
  have sameExecution := ofRecords_executionId log.executionId (History.latestStates history)
  cases made : ofRecords log.executionId (History.latestStates history) with
  | mk executionId operations =>
      rw [made] at sameOperations sameExecution
      cases log
      simp only at sameOperations sameExecution
      rw [sameOperations, sameExecution]

theorem Refines.insert {log : OperationLog} {history : List Operation}
    (refines : log.Refines history) (operation : Operation) :
    (log.insert operation).Refines (history ++ [operation]) := by
  have sorted : log.Sorted := by
    rw [refines.eq_ofRecords]
    exact ofRecords_sorted _ _
  apply (sorted.insert operation).refines
  intro ordinal
  rw [lookup?_insert, refines.lookup, History.latest?_append_singleton]

theorem Refines.insertAll {log : OperationLog} {history : List Operation}
    (refines : log.Refines history) (operations : List Operation) :
    (log.insertAll operations).Refines (history ++ operations) := by
  induction operations generalizing log history with
  | nil =>
      rw [List.append_nil]
      exact refines
  | cons operation operations induction =>
      have rest := induction (refines.insert operation)
      rwa [List.append_assoc, List.singleton_append] at rest

end OperationLog

namespace Operation

/-- The counters fit into the columns of a table. -/
def Fits (record : Operation) : Prop :=
  record.ordinal < counterBound ∧ record.attempt < counterBound

end Operation

namespace Medium

/-- The medium gives the record back as it was appended.  Memory does so with every record;
a table does so with a record whose counters fit and whose result and ready time come back
from their texts. -/
def Returns : Medium → Operation → Prop
  | memory _, _ => True
  | table rows, record => record.Faithful (table rows) ∧ record.Fits

theorem returns_append {medium : Medium} {record : Operation} (returns : medium.Returns record)
    (executionId : String) (operation : Operation) :
    (medium.append executionId operation).Returns record := by
  cases medium with
  | memory records => trivial
  | table rows => exact ⟨⟨returns.1.kept, returns.1.timed⟩, returns.2⟩

end Medium

/-- The row of a record describes it, if the counters fit and what is a text comes back. -/
theorem Row.describes_ofOperation {operation : Operation} (fits : operation.Fits)
    (kept : ∀ value, operation.result = some value → Json.parse? value.render = some value)
    (comesBack : ∀ t, operation.readyAt = some t → Instant.ofLoose? (t.stamp "+00:00") = some t)
    (executionId : String) : (ofOperation executionId operation).Describes operation where
  id := rfl
  ordinal := ⟨isCounter_natCast_iff.mpr fits.1, rfl⟩
  name := rfl
  kind := rfl
  status := rfl
  attempt := ⟨isCounter_natCast_iff.mpr fits.2, rfl⟩
  result := by
    simp only [← Json.parse?_eq_some_iff]
    cases result : operation.result with
    | none => simp [ofOperation, result]
    | some value => simpa [ofOperation, result] using kept value result
  error := by
    cases error : operation.error <;> simp [ofOperation, error]
  readyAt := by
    cases ready : operation.readyAt with
    | none => simp [ofOperation, ready]
    | some t => simpa [ofOperation, ready] using comesBack t ready

theorem Table.history_append_returned {table : Table} {executionId : String}
    {operation : Operation} {history : List Operation}
    (faithful : operation.Faithful (.table table)) (fits : operation.Fits)
    (read : table.history executionId = .ok history) :
    (table.append executionId operation).history executionId = .ok (history ++ [operation]) := by
  have describes := Row.describes_ofOperation fits faithful.kept
    (fun t ready => Instant.ofLoose?_stamp (faithful.timed t ready)) executionId
  rw [history_ok_iff] at read ⊢
  rw [rowsOf_append]
  exact List.rel_append read (.cons describes .nil)

theorem Medium.history_append_returned {medium : Medium} {executionId : String}
    {operation : Operation} {history : List Operation} (returns : medium.Returns operation)
    (read : medium.history executionId = .ok history) :
    (medium.append executionId operation).history executionId = .ok (history ++ [operation]) := by
  cases medium with
  | memory records =>
      simp only [Medium.history, Except.ok.injEq] at read ⊢
      simp [append, List.filter_append, read]
  | table rows =>
      exact history_table.mpr
        (Table.history_append_returned returns.1 returns.2 (history_table.mp read))

namespace OperationLog

/-- The log stands for the history that the medium holds of its execution. -/
structure Mirrors (log : OperationLog) (medium : Medium) (history : List Operation) : Prop where
  read : medium.history log.executionId = .ok history
  refines : log.Refines history

namespace Mirrors

variable {log : OperationLog} {medium : Medium} {history : List Operation}

theorem insert (mirrors : log.Mirrors medium history) {operation : Operation}
    (returns : medium.Returns operation) :
    (log.insert operation).Mirrors (medium.append log.executionId operation)
      (history ++ [operation]) :=
  ⟨Medium.history_append_returned returns mirrors.read, mirrors.refines.insert operation⟩

theorem insertAll (mirrors : log.Mirrors medium history) {operations : List Operation}
    (returns : ∀ operation ∈ operations, medium.Returns operation) :
    (log.insertAll operations).Mirrors (medium.appendAll log.executionId operations)
      (history ++ operations) := by
  induction operations generalizing log medium history with
  | nil =>
      rw [List.append_nil]
      exact mirrors
  | cons operation operations induction =>
      have head := mirrors.insert (returns operation List.mem_cons_self)
      have tail := induction head fun later member =>
        Medium.returns_append (returns later (List.mem_cons_of_mem _ member)) _ _
      rwa [List.append_assoc, List.singleton_append] at tail

/-- Loading the log again gives the same log, unless the read itself fails. -/
theorem reload {store : Store} (mirrors : log.Mirrors store.medium history)
    (readable : store.faults.read (store.reads + 1) = none) :
    (load store log.executionId).1 = .ok log := by
  have loaded : (load store log.executionId).1 =
      .ok (ofRecords log.executionId (History.latestStates history)) := by
    simp only [load, Store.load, Store.history, readable, mirrors.read]
    rfl
  rw [loaded, ← mirrors.refines.eq_ofRecords]

end Mirrors

theorem load_mirrors {store after : Store} {executionId : String} {log : OperationLog}
    (loaded : load store executionId = (.ok log, after)) :
    ∃ history, log.Mirrors after.medium history := by
  obtain ⟨history, read, rfl, medium, _⟩ := load_ok loaded
  refine ⟨history, ?_, ofRecords_refines executionId history⟩
  rw [medium, ofRecords_executionId]
  exact read

end OperationLog

/-- A change that is asked of a log. -/
inductive LogChange where
  | record (operation : Operation)
  | update (ordinal : Nat) (update : OperationUpdate)

namespace LogChange

/-- What becomes of the change. -/
def written (change : LogChange) (log : OperationLog) (store : Store) : OperationLog.Written :=
  match change with
  | .record operation => log.record store operation
  | .update ordinal next => log.update store ordinal next

/-- The log and the store after some changes. -/
def after (log : OperationLog) (store : Store) : List LogChange → OperationLog × Store
  | [] => (log, store)
  | change :: rest =>
    let written := change.written log store
    after written.log written.store rest

/-- The records that the changes add. -/
def recorded (log : OperationLog) (store : Store) : List LogChange → List Operation
  | [] => []
  | change :: rest =>
    let written := change.written log store
    written.outcome.toOption.toList ++ recorded written.log written.store rest

theorem recorded_append (log : OperationLog) (store : Store) (earlier later : List LogChange) :
    recorded log store (earlier ++ later) = recorded log store earlier ++
      recorded (after log store earlier).1 (after log store earlier).2 later := by
  induction earlier generalizing log store with
  | nil => rfl
  | cons change earlier induction =>
      simp only [List.cons_append, recorded, after, induction, List.append_assoc]

/-- A change adds one record to the log and to the medium, or leaves both as they are. -/
theorem written_cases (change : LogChange) (log : OperationLog) (store : Store) :
    (∃ error, (change.written log store).outcome = .error error ∧
        (change.written log store).log = log ∧
        (change.written log store).store.medium = store.medium) ∨
      ∃ operation, (change.written log store).outcome = .ok operation ∧
        (change.written log store).log = log.insert operation ∧
        (change.written log store).store.medium =
          store.medium.append log.executionId operation := by
  obtain ⟨admitted, same⟩ : ∃ admitted,
      change.written log store = log.commitAdmitted store admitted := by
    cases change with
    | record operation => exact ⟨log.admitRecord operation, rfl⟩
    | update ordinal next => exact ⟨log.admitUpdate ordinal next, rfl⟩
  rw [same]
  cases admitted with
  | error error => exact .inl ⟨error, rfl, rfl, rfl⟩
  | ok operation =>
      cases planned : store.faults.append (store.appends + 1) with
      | some error =>
          refine .inl ⟨error, ?_⟩
          simp [OperationLog.commitAdmitted, OperationLog.commit, Store.append, planned]
      | none =>
          refine .inr ⟨operation, ?_⟩
          simp [OperationLog.commitAdmitted, OperationLog.commit, Store.append, planned]

variable {log : OperationLog} {store : Store} {history : List Operation}

theorem written_executionId (change : LogChange) (log : OperationLog) (store : Store) :
    (change.written log store).log.executionId = log.executionId := by
  rcases change.written_cases log store with ⟨_, _, same, _⟩ | ⟨_, _, inserted, _⟩
  · rw [same]
  · rw [inserted, OperationLog.insert_executionId]

theorem after_executionId (log : OperationLog) (store : Store) (changes : List LogChange) :
    (after log store changes).1.executionId = log.executionId := by
  induction changes generalizing log store with
  | nil => rfl
  | cons change changes induction =>
      exact (induction _ _).trans (change.written_executionId log store)

theorem written_mirrors (change : LogChange) (mirrors : log.Mirrors store.medium history)
    (returns : ∀ operation, (change.written log store).outcome = .ok operation →
      store.medium.Returns operation) :
    (change.written log store).log.Mirrors (change.written log store).store.medium
      (history ++ (change.written log store).outcome.toOption.toList) := by
  rcases change.written_cases log store with
    ⟨error, refused, sameLog, sameMedium⟩ | ⟨operation, taken, inserted, appended⟩
  · rw [refused, sameLog, sameMedium]
    simpa [Except.toOption] using mirrors
  · rw [inserted, appended, taken]
    exact mirrors.insert (returns operation taken)

theorem written_returns (change : LogChange) {record : Operation}
    (returns : store.medium.Returns record) :
    (change.written log store).store.medium.Returns record := by
  rcases change.written_cases log store with ⟨_, _, _, same⟩ | ⟨operation, _, _, appended⟩
  · rwa [same]
  · rw [appended]
    exact Medium.returns_append returns _ _

/-- Changes keep a log and the history of its medium in step. -/
theorem after_mirrors (changes : List LogChange) (mirrors : log.Mirrors store.medium history)
    (returns : ∀ operation ∈ recorded log store changes, store.medium.Returns operation) :
    (after log store changes).1.Mirrors (after log store changes).2.medium
      (history ++ recorded log store changes) := by
  induction changes generalizing log store history with
  | nil =>
      rw [recorded, List.append_nil]
      exact mirrors
  | cons change changes induction =>
      have head := change.written_mirrors mirrors fun operation taken =>
        returns operation (by simp [recorded, taken, Except.toOption])
      have tail := induction head fun operation member =>
        change.written_returns (returns operation (List.mem_append_right _ member))
      rwa [List.append_assoc] at tail

theorem after_returns (changes : List LogChange) {record : Operation}
    (returns : store.medium.Returns record) :
    (after log store changes).2.medium.Returns record := by
  induction changes generalizing log store with
  | nil => exact returns
  | cons change changes induction => exact induction (change.written_returns returns)

/-- A log that was loaded and changed stands for the history in its store, before one more
change and after it. -/
theorem mirrors_of_load {begun : Store} {executionId : String}
    (loaded : OperationLog.load store executionId = (.ok log, begun)) (changes : List LogChange)
    (change : LogChange)
    (returns : ∀ record ∈ recorded log begun (changes ++ [change]),
      store.medium.Returns record) :
    let before := after log begun changes
    let written := change.written before.1 before.2
    before.1.executionId = executionId ∧ written.log.executionId = executionId ∧
      ∃ history, before.1.Mirrors before.2.medium history ∧
        written.log.Mirrors written.store.medium
          (history ++ written.outcome.toOption.toList) := by
  intro before written
  obtain ⟨history, mirrors⟩ := OperationLog.load_mirrors loaded
  have frame := (OperationLog.load_frame store executionId).1
  rw [loaded] at frame
  rw [← frame, recorded_append] at returns
  have sofar := after_mirrors changes mirrors fun record member =>
    returns record (List.mem_append_left _ member)
  have further := change.written_mirrors sofar fun operation taken => by
    apply after_returns changes
    apply returns operation
    apply List.mem_append_right
    simp [recorded, taken, Except.toOption]
  have same : before.1.executionId = executionId :=
    (after_executionId log begun changes).trans (OperationLog.load_executionId loaded)
  exact ⟨same, (change.written_executionId _ _).trans same, _, sofar, further⟩

end LogChange

/-- The operations of a result are what the visit leaves in the store. -/
theorem Visit.operations_of_result {visit : Visit V O} {executionId : String} {store : Store}
    {result : ExecutionResult O}
    (finished : (visit.answer executionId store).verdict = .finished result)
    (returns : ∀ record ∈ records (visit.answer executionId store).occurrences,
      store.medium.Returns record) :
    ∃ log : OperationLog, ∃ history, log.executionId = executionId ∧
      log.Mirrors (visit.answer executionId store).store.medium history ∧
      result.operations = log.operations := by
  rcases visit.answer_cases executionId store with
    ⟨error, after, failed, answered⟩ |
      ⟨log, after, ending, final, closing, loaded, ran, closingQuiet, occurrences, left, verdict⟩
  · rw [answered] at finished
    cases finished
  · rw [occurrences, closingQuiet.records_append] at returns
    rw [verdict] at finished
    obtain ⟨_, _, operations, _⟩ := PassEnd.verdict_finished finished
    obtain ⟨history, mirrors⟩ := OperationLog.load_mirrors loaded
    have frame := (OperationLog.load_frame store executionId).1
    rw [loaded] at frame
    have reached := Visit.reached_of_run ran
    have ended : final.log.Mirrors final.store.medium (history ++ records final.occurrences) := by
      rw [reached.log, reached.medium]
      apply mirrors.insertAll
      intro record member
      rw [frame]
      exact returns record member
    have execution : final.log.executionId = executionId := by
      rw [reached.log, OperationLog.insertAll_executionId]
      exact OperationLog.load_executionId loaded
    rw [left]
    exact ⟨final.log, _, execution, ended, operations⟩

/-- The log refines the persisted history.  Let a log be loaded from any store, and let any
changes be made to it, some of which the log refuses or the store loses.  After each of them
the log finds the last record of every ordinal of the history in the store, its operations are
the latest states in order, and loading it again gives an equal log; a change that fails has
left the log and the history as they were, and one that succeeds has added its record to the
history.  So the operations of every result are what the store would load.  Of a table this
holds as long as it gives back the records that it takes. -/
theorem log_refines_history (store : Store) (executionId : String) :
    (∀ log begun changes change, OperationLog.load store executionId = (.ok log, begun) →
      (∀ record ∈ LogChange.recorded log begun (changes ++ [change]),
        store.medium.Returns record) →
      let before := LogChange.after log begun changes
      let written := change.written before.1 before.2
      ∃ history later, before.2.medium.history executionId = .ok history ∧
        before.1.Refines history ∧
        written.store.medium.history executionId = .ok later ∧
        written.log.Refines later ∧
        (written.store.faults.read (written.store.reads + 1) = none →
          (OperationLog.load written.store executionId).1 = .ok written.log) ∧
        (∀ error, written.outcome = .error error →
          written.log = before.1 ∧ written.store.medium = before.2.medium ∧ later = history) ∧
        ∀ operation, written.outcome = .ok operation → later = history ++ [operation]) ∧
      ∀ (visit : Visit V O) (result : ExecutionResult O),
        (visit.answer executionId store).verdict = .finished result →
        (∀ record ∈ records (visit.answer executionId store).occurrences,
          store.medium.Returns record) →
        ∃ history, (visit.answer executionId store).store.medium.history executionId =
            .ok history ∧
          result.operations = History.sortedStates history ∧
          ((visit.answer executionId store).store.faults.read
              ((visit.answer executionId store).store.reads + 1) = none →
            (OperationLog.load (visit.answer executionId store).store executionId).1.map
              OperationLog.operations = .ok result.operations) := by
  constructor
  · intro log begun changes change loaded returns before written
    obtain ⟨same, sameAfter, history, sofar, further⟩ :=
      LogChange.mirrors_of_load loaded changes change returns
    refine ⟨history, _, ?_, sofar.refines, ?_, further.refines, ?_, ?_, ?_⟩
    · rw [← same]
      exact sofar.read
    · rw [← sameAfter]
      exact further.read
    · intro readable
      have reloaded := further.reload readable
      rwa [sameAfter] at reloaded
    · intro error refused
      rcases change.written_cases before.1 before.2 with
        ⟨_, _, sameLog, sameMedium⟩ | ⟨operation, taken, _⟩
      · refine ⟨sameLog, sameMedium, ?_⟩
        rw [refused]
        exact List.append_nil _
      · cases taken.symm.trans refused
    · intro operation taken
      rw [taken]
      rfl
  · intro visit result finished returns
    obtain ⟨log, history, execution, mirrors, operations⟩ :=
      Visit.operations_of_result finished returns
    rw [operations]
    refine ⟨history, ?_, mirrors.refines.operations, ?_⟩
    · have read := mirrors.read
      rwa [execution] at read
    · intro readable
      have reloaded := mirrors.reload readable
      rw [execution] at reloaded
      rw [reloaded]
      rfl

/-- A step is recorded and then moved to its result. -/
theorem moved_step_is_reloaded :
    let begun : Store := { Store.empty with reads := 1 }
    let before := LogChange.after ⟨"run", []⟩ begun [.record (.step 0 "x")]
    let written := (LogChange.update 0 (.succeeded 1 .null)).written before.1 before.2
    (OperationLog.load written.store "run").1 = .ok written.log ∧
      ∃ result, (Visit.ofOneStep.answer "run" .empty).verdict = .finished result ∧
        ∃ history, (Visit.ofOneStep.answer "run" .empty).store.medium.history "run" =
            .ok history ∧
          result.operations = History.sortedStates history := by
  intro begun before written
  have refined := log_refines_history (V := Unit) (O := Unit) .empty "run"
  constructor
  · obtain ⟨_, _, _, _, _, _, reload, _⟩ := refined.1 ⟨"run", []⟩ begun [.record (.step 0 "x")]
      (.update 0 (.succeeded 1 .null)) rfl fun _ _ => trivial
    exact reload rfl
  · obtain ⟨history, read, operations, _⟩ :=
      refined.2 Visit.ofOneStep _ rfl fun _ _ => trivial
    exact ⟨_, rfl, history, read, operations⟩

/-- A table takes a result whose text cannot be read again, and the log that took it can no
longer be loaded. -/
theorem unread_result_is_not_reloaded {payload : Json}
    (unread : Json.parse? payload.render = none) :
    let before := LogChange.after ⟨"run", []⟩ (.ofTable .empty) [.record (.step 0 "x")]
    let written := (LogChange.update 0 (.succeeded 1 payload)).written before.1 before.2
    written.outcome.isOk = true ∧
      (OperationLog.load written.store "run").1 =
        .error (.serialization "a result is not JSON text") := by
  intro before written
  let recorded : Row Instant := { Row.ofOperation "run" (.step 0 "x") with readyAt := none }
  let moved : Row Instant :=
    { recorded with status := "SUCCEEDED", attempt := 1, result := some payload.render }
  have rows : written.store.medium.history "run" =
      ([recorded, moved].mapM Row.toOperation).mapError RowError.toStoreError := rfl
  have converted : recorded.toOperation = .ok (.step 0 "x") := rfl
  have unconverted : moved.toOperation = .error .malformedResult := by
    simp only [Row.toOperation, moved, Row.readResult?, unread]
    rfl
  have history : written.store.medium.history "run" =
      .error (.serialization "a result is not JSON text") := by
    rw [rows, List.mapM_cons, List.mapM_cons, converted, unconverted]
    rfl
  have readable : written.store.faults.read (written.store.reads + 1) = none := rfl
  refine ⟨rfl, ?_⟩
  simp only [OperationLog.load, Store.load, Store.history, readable, history]
  rfl

/-- So it is with a result of one level more than a text may have. -/
theorem deep_result_is_not_reloaded :
    let before := LogChange.after ⟨"run", []⟩ (.ofTable .empty) [.record (.step 0 "x")]
    let written := (LogChange.update 0 (.succeeded 1 (.nested 128))).written before.1 before.2
    written.outcome.isOk = true ∧
      (OperationLog.load written.store "run").1 =
        .error (.serialization "a result is not JSON text") :=
  unread_result_is_not_reloaded (Json.nested_unread (by decide))

end Durable
