import Durable.Proofs.LogRefinement

/-!
# Tables and memory

A table and the memory of a process that take the same records list the same executions.
An execution has the same history and the same latest states in both, unless one of its
results is nested too deeply: its text is written into the table all the same, and then no
record of the execution can be read.
-/

namespace Durable

namespace Operation

/-- A record as a program can have it, if texts of times and of doubles are read exactly: the
counters have 32 bits, and the result is a value whose objects are in order. -/
structure Storable (record : Operation) : Prop where
  fits : record.Fits
  comesBack : ∀ t, record.readyAt = some t → Instant.ofLoose? (t.stamp "+00:00") = some t
  sound : ∀ value, record.result = some value → value.Sound

/-- The text of the result is not nested more deeply than a text that can be read. -/
def Shallow (record : Operation) : Prop :=
  ∀ value ∈ record.result, value.depth ≤ Json.Machine.maxOpen

instance (record : Operation) : Decidable record.Shallow :=
  inferInstanceAs (Decidable (∀ value ∈ record.result, value.depth ≤ Json.Machine.maxOpen))

end Operation

namespace Row

theorem timely_ofOperation {record : Operation} (storable : record.Storable)
    (executionId : String) : (ofOperation executionId record).Timely := by
  intro text stored
  obtain ⟨t, ready, rfl⟩ := Option.map_eq_some_iff.mp stored
  exact ⟨t, storable.comesBack t ready⟩

/-- A shallow record comes back from its row, and the result of any other record is no text that
can be read. -/
theorem read_ofOperation {record : Operation} (storable : record.Storable) (executionId : String) :
    (ofOperation executionId record).read =
      if record.Shallow then .ok record else .error .malformedResult := by
  by_cases shallow : record.Shallow
  · rw [if_pos shallow, read_ok_iff]
    refine describes_ofOperation storable.fits ?_ storable.comesBack executionId
    intro value result
    rw [(storable.sound value result).parse?_render, if_pos (shallow value result)]
  · obtain ⟨readyAt, staged⟩ := (timely_ofOperation storable executionId).read_eq
    have unread : ¬(ofOperation executionId record).HasResult := by
      intro hasResult
      refine shallow fun value result => ?_
      obtain ⟨other, written⟩ := hasResult _ (congrArg (Option.map Json.render) result)
      rw [← Json.parse?_eq_some_iff, (storable.sound value result).parse?_render] at written
      exact (Option.ite_none_right_eq_some.mp written).1
    rw [if_neg shallow, staged, toOperation_error_iff]
    exact .inl ⟨unread, rfl⟩

variable {executionId : String} {records : List Operation}

theorem mapM_read_ofOperation (storable : ∀ record ∈ records, record.Storable) :
    (records.map (ofOperation executionId)).mapM read =
      if ∀ record ∈ records, record.Shallow then .ok records else .error .malformedResult := by
  induction records with
  | nil => rfl
  | cons record records induction =>
      have head := read_ofOperation (storable record List.mem_cons_self) executionId
      have tail := induction fun later member => storable later (List.mem_cons_of_mem _ member)
      simp only [List.map_cons, List.mapM_cons, head, tail, List.forall_mem_cons]
      by_cases shallow : record.Shallow
      · by_cases rest : ∀ later ∈ records, later.Shallow
        · rw [if_pos shallow, if_pos rest, if_pos ⟨shallow, rest⟩]
          rfl
        · have notAll : ¬(record.Shallow ∧ ∀ later ∈ records, later.Shallow) :=
            fun all => rest all.2
          rw [if_pos shallow, if_neg rest, if_neg notAll]
          rfl
      · have notAll : ¬(record.Shallow ∧ ∀ later ∈ records, later.Shallow) :=
          fun all => shallow all.1
        rw [if_neg shallow, if_neg notAll]
        rfl

end Row

namespace Medium

/-- The medium once some records have been appended, each to its execution. -/
def appendEach (medium : Medium) (appends : List (String × Operation)) : Medium :=
  appends.foldl (fun medium append => medium.append append.1 append.2) medium

theorem appendEach_memory (kept appends : List (String × Operation)) :
    (memory kept).appendEach appends = memory (kept ++ appends) := by
  induction appends generalizing kept with
  | nil => simp [appendEach]
  | cons append appends induction =>
      have tail := induction (kept ++ [append])
      rwa [List.append_assoc] at tail

theorem appendEach_table (rows : List (Row String)) (appends : List (String × Operation)) :
    (table ⟨rows⟩).appendEach appends =
      table ⟨rows ++ appends.map fun append => Row.ofOperation append.1 append.2⟩ := by
  induction appends generalizing rows with
  | nil => simp [appendEach]
  | cons append appends induction =>
      have tail := induction (rows ++ [Row.ofOperation append.1 append.2])
      rwa [List.append_assoc] at tail

end Medium

namespace Store

/-- Append some records, each to its execution, until the store refuses one. -/
def appendEach (store : Store) : List (String × Operation) → Except StoreError Unit × Store
  | [] => (.ok (), store)
  | (executionId, operation) :: rest =>
    match store.append executionId operation with
    | (.error error, after) => (.error error, after)
    | (.ok (), after) => after.appendEach rest

theorem appendEach_faultless (medium : Medium) (appends : List (String × Operation))
    (count reads : Nat) :
    appendEach ⟨medium, .none, count, reads⟩ appends =
      (.ok (), ⟨medium.appendEach appends, .none, count + appends.length, reads⟩) := by
  induction appends generalizing medium count with
  | nil => rfl
  | cons append appends induction =>
      have tail := induction (medium.append append.1 append.2) (count + 1)
      rw [Nat.add_right_comm] at tail
      exact tail

end Store

/-- The records of one execution among some appends. -/
def recordsOf (executionId : String) (appends : List (String × Operation)) : List Operation :=
  (appends.filter (·.1 == executionId)).map Prod.snd

namespace Table

theorem rowsOf_appends (executionId : String) (appends : List (String × Operation)) :
    rowsOf ⟨appends.map fun append => Row.ofOperation append.1 append.2⟩ executionId =
      (recordsOf executionId appends).map (Row.ofOperation executionId) := by
  induction appends with
  | nil => rfl
  | cons append appends induction =>
      obtain ⟨other, operation⟩ := append
      by_cases same : other = executionId
      · subst same
        simpa [rowsOf, recordsOf, Row.ofOperation] using induction
      · simpa [rowsOf, recordsOf, Row.ofOperation, same] using induction

theorem history_appends {executionId : String} {appends : List (String × Operation)}
    (storable : ∀ append ∈ appends, append.2.Storable) :
    history ⟨appends.map fun append => Row.ofOperation append.1 append.2⟩ executionId =
      if ∀ record ∈ recordsOf executionId appends, record.Shallow then
        .ok (recordsOf executionId appends)
      else .error .malformedResult := by
  have own : ∀ record ∈ recordsOf executionId appends, record.Storable := by
    intro record member
    obtain ⟨append, kept, rfl⟩ := List.mem_map.mp member
    exact storable append (List.mem_filter.mp kept).1
  have timely : ∀ row ∈ rowsOf ⟨appends.map fun append => Row.ofOperation append.1 append.2⟩
      executionId, row.Timely := by
    rw [rowsOf_appends]
    exact List.forall_mem_map.mpr fun record member => Row.timely_ofOperation (own record member) _
  rw [history_timely timely, rowsOf_appends, Row.mapM_read_ofOperation own]

end Table

namespace Store

variable (appends : List (String × Operation)) (executionId : String)

theorem appendEach_empty :
    Store.empty.appendEach appends = (.ok (), ⟨.memory appends, .none, 0 + appends.length, 0⟩) := by
  have taken := appendEach_faultless (.memory []) appends 0 0
  rwa [Medium.appendEach_memory] at taken

theorem appendEach_ofTable :
    (ofTable .empty).appendEach appends = (.ok (), ⟨.table
      ⟨appends.map fun append => Row.ofOperation append.1 append.2⟩, .none,
      0 + appends.length, 0⟩) := by
  have taken := appendEach_faultless (.table .empty) appends 0 0
  rwa [Table.empty, Medium.appendEach_table] at taken

theorem history_of_memory :
    ((Store.empty.appendEach appends).2.history executionId).1 =
      .ok (recordsOf executionId appends) := by
  rw [appendEach_empty]
  rfl

variable {appends}

/-- A table gives back the records of an execution as they were appended, if all are shallow. -/
theorem history_of_table (storable : ∀ append ∈ appends, append.2.Storable) :
    (((ofTable .empty).appendEach appends).2.history executionId).1 =
      if ∀ record ∈ recordsOf executionId appends, record.Shallow then
        .ok (recordsOf executionId appends)
      else .error (.serialization "a result is not JSON text") := by
  rw [appendEach_ofTable]
  change (Table.history _ executionId).mapError RowError.toStoreError = _
  rw [Table.history_appends storable, apply_ite (Except.mapError RowError.toStoreError)]
  rfl

end Store

/-- A table refines memory.  Let any records be appended to any executions, in memory and in a
table.  Both take all of them and list the same executions.  Memory gives back the records of
each execution as they were appended, and their latest states.  A table does the same for an
execution all of whose results are nested no more deeply than a text that can be read, and for
any other execution it gives back neither. -/
theorem table_refines_memory (appends : List (String × Operation))
    (storable : ∀ append ∈ appends, append.2.Storable) :
    let memory := Store.empty.appendEach appends
    let table := (Store.ofTable .empty).appendEach appends
    let unreadable : StoreError := .serialization "a result is not JSON text"
    memory.1 = .ok () ∧ table.1 = .ok () ∧ table.2.executions = memory.2.executions ∧
      ∀ executionId,
        let own := recordsOf executionId appends
        (memory.2.history executionId).1 = .ok own ∧
          (memory.2.load executionId).1 = .ok (History.latestStates own) ∧
          ((∀ record ∈ own, record.Shallow) →
            (table.2.history executionId).1 = (memory.2.history executionId).1 ∧
              (table.2.load executionId).1 = (memory.2.load executionId).1) ∧
          ((∃ record ∈ own, ¬record.Shallow) →
            (table.2.history executionId).1 = .error unreadable ∧
              (table.2.load executionId).1 = .error unreadable) := by
  intro memory table unreadable
  refine ⟨?_, ?_, ?_, ?_⟩
  · exact congrArg Prod.fst (Store.appendEach_empty appends)
  · exact congrArg Prod.fst (Store.appendEach_ofTable appends)
  · simp only [memory, table, Store.appendEach_empty, Store.appendEach_ofTable, Store.executions,
      Medium.executions, Table.executions, List.map_map]
    rfl
  · intro executionId own
    have loads : ∀ store : Store, (store.load executionId).1 =
        (store.history executionId).1.map History.latestStates := fun _ => rfl
    rw [loads, loads, Store.history_of_memory, Store.history_of_table executionId storable]
    refine ⟨rfl, rfl, ?_, ?_⟩
    · intro shallow
      rw [if_pos shallow]
      exact ⟨rfl, rfl⟩
    · rintro ⟨record, member, deep⟩
      rw [if_neg fun shallow => deep (shallow record member)]
      exact ⟨rfl, rfl⟩

/-- A step that succeeded with arrays inside one another. -/
def Operation.nesting (levels : Nat) : Operation :=
  (Operation.step 0 "a").withState (.succeeded 1 (.nested levels))

theorem Operation.nesting_storable (levels : Nat) : (nesting levels).Storable where
  fits := ⟨(by decide : 0 < counterBound), (by decide : 1 < counterBound)⟩
  comesBack := by
    intro t ready
    cases ready
  sound := by
    intro value result
    cases result
    exact Json.nested_sound levels

theorem Operation.nesting_shallow {levels : Nat} :
    (nesting levels).Shallow ↔ levels ≤ Json.Machine.maxOpen := by
  have result : (nesting levels).result = some (.nested levels) := rfl
  simp [Shallow, result, Json.nested_depth]

/-- One execution can be read although another one cannot. -/
theorem shallow_execution_is_given_back :
    let appends := [("run", Operation.nesting 127), ("other", Operation.nesting 128)]
    (((Store.ofTable .empty).appendEach appends).2.history "run").1 =
        ((Store.empty.appendEach appends).2.history "run").1 ∧
      (((Store.ofTable .empty).appendEach appends).2.load "other").1 =
        .error (.serialization "a result is not JSON text") := by
  intro appends
  have storable : ∀ append ∈ appends, append.2.Storable := by
    simp [appends, Operation.nesting_storable]
  obtain ⟨_, _, _, given⟩ := table_refines_memory appends storable
  constructor
  · obtain ⟨_, _, same, _⟩ := given "run"
    refine (same ?_).1
    simp [appends, recordsOf, Operation.nesting_shallow, Json.Machine.maxOpen]
  · obtain ⟨_, _, _, lost⟩ := given "other"
    refine (lost ?_).2
    simp [appends, recordsOf, Operation.nesting_shallow, Json.Machine.maxOpen]

/-- A table takes a result with one level more than a text may have, and gives back nothing of
what memory gives back. -/
theorem deep_record_is_not_given_back :
    let appends := [("run", Operation.nesting 128)]
    (Operation.nesting 128).Storable ∧
      ((Store.ofTable .empty).appendEach appends).1 = .ok () ∧
      ((Store.empty.appendEach appends).2.history "run").1 = .ok [Operation.nesting 128] ∧
      (((Store.ofTable .empty).appendEach appends).2.history "run").1 =
        .error (.serialization "a result is not JSON text") := by
  intro appends
  have storable : ∀ append ∈ appends, append.2.Storable := by
    simp [appends, Operation.nesting_storable]
  refine ⟨Operation.nesting_storable 128, ?_, Store.history_of_memory appends "run", ?_⟩
  · exact congrArg Prod.fst (Store.appendEach_ofTable appends)
  · rw [Store.history_of_table "run" storable, if_neg]
    simp [appends, recordsOf, Operation.nesting_shallow, Json.Machine.maxOpen]

end Durable
