import Durable.OperationLog
import Mathlib.Data.List.Forall2
import Mathlib.Data.List.Induction
import Mathlib.Data.List.Nodup

/-!
# Latest records

The latest record of an ordinal is the last one that a history holds for it.
Folding a history keeps exactly these records, and the log that is made from the
fold finds them under their ordinals.  The records of a log stand in ascending
order of ordinals, so that a log is determined by what it finds.
-/

namespace Durable

namespace History

/-- The last record of an ordinal. -/
def latest? (history : List Operation) (ordinal : Nat) : Option Operation :=
  (history.filter (·.ordinal == ordinal)).getLast?

@[simp] theorem latest?_nil (ordinal : Nat) : latest? [] ordinal = none :=
  rfl

theorem latest?_append_singleton (history : List Operation) (operation : Operation)
    (ordinal : Nat) :
    latest? (history ++ [operation]) ordinal =
      if operation.ordinal = ordinal then some operation else latest? history ordinal := by
  by_cases same : operation.ordinal = ordinal
  · simp [latest?, List.filter_append, same]
  · simp [latest?, List.filter_append, same]

theorem latest?_append (earlier later : List Operation) (ordinal : Nat) :
    latest? (earlier ++ later) ordinal =
      (latest? later ordinal).or (latest? earlier ordinal) := by
  simp [latest?, List.filter_append, List.getLast?_append]

theorem latest?_cons (operation : Operation) (later : List Operation) (ordinal : Nat) :
    latest? (operation :: later) ordinal =
      (latest? later ordinal).or
        (if operation.ordinal = ordinal then some operation else none) := by
  rw [← List.singleton_append, latest?_append, ← List.nil_append [operation],
    latest?_append_singleton, latest?_nil]

theorem latest?_mem {history : List Operation} {ordinal : Nat} {operation : Operation}
    (found : latest? history ordinal = some operation) :
    operation ∈ history ∧ operation.ordinal = ordinal := by
  have member := List.mem_of_getLast? found
  simpa using member

theorem latest?_eq_none {history : List Operation} {ordinal : Nat}
    (others : ∀ operation ∈ history, operation.ordinal ≠ ordinal) :
    latest? history ordinal = none := by
  induction history with
  | nil => rfl
  | cons operation history induction =>
      rw [latest?_cons, induction fun other member => others other (by simp [member]),
        if_neg (others operation (by simp)), Option.none_or]

theorem latest?_forall₂ {relation : Operation → Operation → Prop}
    (sameOrdinal : ∀ written read, relation written read → read.ordinal = written.ordinal)
    {records history : List Operation} (related : List.Forall₂ relation records history)
    (ordinal : Nat) :
    Option.Rel relation (latest? records ordinal) (latest? history ordinal) := by
  induction related with
  | nil => exact .none
  | @cons written read records history head tail induction =>
      rw [latest?_cons, latest?_cons, sameOrdinal written read head]
      generalize latest? records ordinal = latest at induction ⊢
      generalize latest? history ordinal = latestRead at induction ⊢
      cases induction with
      | some given => exact .some given
      | none =>
          by_cases here : written.ordinal = ordinal
          · rw [if_pos here, if_pos here]
            exact .some head
          · rw [if_neg here, if_neg here]
            exact .none

/-- No two records have the same ordinal. -/
def Distinct (states : List Operation) : Prop :=
  states.Pairwise fun earlier later => earlier.ordinal ≠ later.ordinal

theorem latest?_eq_find? {states : List Operation} (distinct : Distinct states)
    (ordinal : Nat) :
    latest? states ordinal = states.find? (·.ordinal == ordinal) := by
  induction states with
  | nil => rfl
  | cons state rest induction =>
      obtain ⟨others, restDistinct⟩ := List.pairwise_cons.mp distinct
      have tail := induction restDistinct
      by_cases same : state.ordinal = ordinal
      · have absent : rest.filter (·.ordinal == ordinal) = [] := by
          apply List.filter_eq_nil_iff.mpr
          intro other member
          have different := others other member
          simp only [beq_iff_eq]
          omega
        simp [latest?, same, absent]
      · simp [latest?, same] at tail ⊢
        exact tail

theorem mem_record_ordinal {states : List Operation} {operation other : Operation}
    (member : other ∈ record states operation) :
    other = operation ∨ other ∈ states := by
  induction states with
  | nil => simpa [record] using member
  | cons state rest induction =>
      by_cases same : state.ordinal = operation.ordinal
      · simp only [record, if_pos same, List.mem_cons] at member
        rcases member with here | later
        · exact .inl here
        · exact .inr (List.mem_cons_of_mem _ later)
      · simp only [record, if_neg same, List.mem_cons] at member
        rcases member with here | later
        · exact .inr (by simp [here])
        · rcases induction later with here | later
          · exact .inl here
          · exact .inr (List.mem_cons_of_mem _ later)

theorem find?_record (states : List Operation) (operation : Operation) (ordinal : Nat) :
    (record states operation).find? (·.ordinal == ordinal) =
      if operation.ordinal = ordinal then some operation
      else states.find? (·.ordinal == ordinal) := by
  induction states with
  | nil =>
      by_cases same : operation.ordinal = ordinal <;> simp [record, same]
  | cons state rest induction =>
      by_cases replaced : state.ordinal = operation.ordinal
      · by_cases same : operation.ordinal = ordinal
        · simp [record, replaced, same]
        · simp [record, replaced, same]
      · by_cases here : state.ordinal = ordinal
        · have different : operation.ordinal ≠ ordinal := by omega
          rw [record, if_neg replaced]
          simp [here, different]
        · rw [record, if_neg replaced]
          simp [here, induction]

theorem record_distinct {states : List Operation} (distinct : Distinct states)
    (operation : Operation) : Distinct (record states operation) := by
  induction states with
  | nil => simp [record, Distinct]
  | cons state rest induction =>
      obtain ⟨others, restDistinct⟩ := List.pairwise_cons.mp distinct
      by_cases replaced : state.ordinal = operation.ordinal
      · rw [record, if_pos replaced]
        refine List.pairwise_cons.mpr ⟨?_, restDistinct⟩
        intro other member
        rw [← replaced]
        exact others other member
      · rw [record, if_neg replaced]
        refine List.pairwise_cons.mpr ⟨?_, induction restDistinct⟩
        intro other member
        rcases mem_record_ordinal member with here | later
        · rw [here]
          exact replaced
        · exact others other later

private theorem foldl_record_distinct {states : List Operation} (distinct : Distinct states)
    (history : List Operation) : Distinct (history.foldl record states) := by
  induction history generalizing states with
  | nil => exact distinct
  | cons operation rest induction => exact induction (record_distinct distinct operation)

theorem latestStates_distinct (history : List Operation) : Distinct (latestStates history) :=
  foldl_record_distinct List.Pairwise.nil history

theorem latestStates_append_singleton (history : List Operation) (operation : Operation) :
    latestStates (history ++ [operation]) = record (latestStates history) operation := by
  simp [latestStates, List.foldl_append]

/-- The fold of a history holds the latest record of every ordinal. -/
theorem latest?_latestStates (history : List Operation) (ordinal : Nat) :
    latest? (latestStates history) ordinal = latest? history ordinal := by
  rw [latest?_eq_find? (latestStates_distinct history)]
  induction history using List.reverseRecOn with
  | nil => rfl
  | append_singleton history operation induction =>
      rw [latestStates_append_singleton, find?_record, latest?_append_singleton, induction]

theorem record_ordinals (states : List Operation) (operation : Operation) :
    (record states operation).map Operation.ordinal =
      if operation.ordinal ∈ states.map Operation.ordinal then states.map Operation.ordinal
      else states.map Operation.ordinal ++ [operation.ordinal] := by
  induction states with
  | nil => simp [record]
  | cons state rest induction =>
      by_cases same : state.ordinal = operation.ordinal
      · simp [record, same]
      · rw [record, if_neg same, List.map_cons, induction]
        by_cases later : operation.ordinal ∈ rest.map Operation.ordinal
        · simp [later]
        · simp [later, Ne.symm same]

theorem latest?_mem_latestStates {history : List Operation} {ordinal : Nat}
    {operation : Operation} (found : latest? history ordinal = some operation) :
    operation ∈ latestStates history ∧ operation.ordinal = ordinal := by
  rw [← latest?_latestStates] at found
  exact latest?_mem found

theorem nodup_ordinals (history : List Operation) :
    ((latestStates history).map Operation.ordinal).Nodup :=
  List.pairwise_map.mpr (latestStates_distinct history)

theorem latest?_of_mem_latestStates {history : List Operation} {state : Operation}
    (member : state ∈ latestStates history) :
    latest? history state.ordinal = some state := by
  have found : latest? history state.ordinal ≠ none := by
    rw [← latest?_latestStates]
    intro absent
    have nothing := List.getLast?_eq_none_iff.mp absent
    exact List.filter_eq_nil_iff.mp nothing state member (by simp)
  obtain ⟨other, otherFound⟩ := Option.ne_none_iff_exists'.mp found
  obtain ⟨otherMember, sameOrdinal⟩ := latest?_mem_latestStates otherFound
  rw [otherFound, List.inj_on_of_nodup_map (nodup_ordinals history) otherMember member sameOrdinal]

end History

namespace OperationLog

@[simp] theorem insert_executionId (log : OperationLog) (operation : Operation) :
    (log.insert operation).executionId = log.executionId :=
  rfl

theorem lookup?_ordinal {log : OperationLog} {ordinal : Nat} {operation : Operation}
    (found : log.lookup? ordinal = some operation) : operation.ordinal = ordinal := by
  have test := List.find?_some found
  simpa using test

private theorem find?_insertOperation (operation : Operation) (operations : List Operation)
    (ordinal : Nat) :
    (insertOperation operation operations).find? (·.ordinal == ordinal) =
      if operation.ordinal = ordinal then some operation
      else operations.find? (·.ordinal == ordinal) := by
  induction operations with
  | nil => by_cases same : operation.ordinal = ordinal <;> simp [insertOperation, same]
  | cons other rest induction =>
      by_cases before : operation.ordinal < other.ordinal
      · rw [insertOperation, if_pos before]
        by_cases same : operation.ordinal = ordinal
        · simp [same]
        · rw [List.find?_cons_of_neg (by simpa using same), if_neg same]
      · rw [insertOperation, if_neg before]
        by_cases replaced : operation.ordinal = other.ordinal
        · rw [if_pos replaced]
          by_cases same : other.ordinal = ordinal <;> simp [replaced, same]
        · rw [if_neg replaced]
          by_cases here : other.ordinal = ordinal
          · have different : operation.ordinal ≠ ordinal := by omega
            simp [here, different]
          · simp [here, induction]

theorem lookup?_insert (log : OperationLog) (operation : Operation) (ordinal : Nat) :
    (log.insert operation).lookup? ordinal =
      if operation.ordinal = ordinal then some operation else log.lookup? ordinal :=
  find?_insertOperation operation log.operations ordinal

theorem ofRecords_append_singleton (executionId : String) (records : List Operation)
    (operation : Operation) :
    ofRecords executionId (records ++ [operation]) =
      (ofRecords executionId records).insert operation := by
  simp [ofRecords, List.foldl_append]

@[simp] theorem ofRecords_executionId (executionId : String) (records : List Operation) :
    (ofRecords executionId records).executionId = executionId := by
  induction records using List.reverseRecOn with
  | nil => rfl
  | append_singleton records operation induction =>
      rw [ofRecords_append_singleton, insert_executionId, induction]

theorem lookup?_ofRecords (executionId : String) (records : List Operation) (ordinal : Nat) :
    (ofRecords executionId records).lookup? ordinal = History.latest? records ordinal := by
  induction records using List.reverseRecOn with
  | nil => rfl
  | append_singleton records operation induction =>
      rw [ofRecords_append_singleton, lookup?_insert, History.latest?_append_singleton,
        induction]

/-- The records stand in ascending order of ordinals. -/
def Sorted (log : OperationLog) : Prop :=
  log.operations.Pairwise fun earlier later => earlier.ordinal < later.ordinal

private theorem mem_insertOperation {operation other : Operation} {operations : List Operation}
    (member : other ∈ insertOperation operation operations) :
    other = operation ∨ other ∈ operations := by
  induction operations with
  | nil => simpa [insertOperation] using member
  | cons head rest induction =>
      simp only [insertOperation] at member
      split at member
      · simpa using member
      · split at member
        · rcases List.mem_cons.mp member with here | later
          · exact .inl here
          · exact .inr (List.mem_cons_of_mem _ later)
        · rcases List.mem_cons.mp member with here | later
          · exact .inr (by simp [here])
          · rcases induction later with here | later
            · exact .inl here
            · exact .inr (List.mem_cons_of_mem _ later)

theorem Sorted.insert {log : OperationLog} (sorted : log.Sorted) (operation : Operation) :
    (log.insert operation).Sorted := by
  obtain ⟨executionId, operations⟩ := log
  simp only [Sorted, OperationLog.insert] at sorted ⊢
  induction operations with
  | nil => simp [insertOperation]
  | cons head rest induction =>
      obtain ⟨above, restSorted⟩ := List.pairwise_cons.mp sorted
      simp only [insertOperation]
      split
      · next before =>
          refine List.pairwise_cons.mpr ⟨?_, sorted⟩
          intro other member
          rcases List.mem_cons.mp member with here | later
          · rw [here]
            exact before
          · have := above other later
            omega
      · next notBefore =>
          split
          · next replaced =>
              refine List.pairwise_cons.mpr ⟨?_, restSorted⟩
              intro other member
              have := above other member
              omega
          · next different =>
              refine List.pairwise_cons.mpr ⟨?_, induction restSorted⟩
              intro other member
              rcases mem_insertOperation member with here | later
              · rw [here]
                omega
              · exact above other later

theorem ofRecords_sorted (executionId : String) (records : List Operation) :
    (ofRecords executionId records).Sorted := by
  induction records using List.reverseRecOn with
  | nil => exact List.Pairwise.nil
  | append_singleton records operation induction =>
      rw [ofRecords_append_singleton]
      exact induction.insert operation

/-- In ascending order without a gap, an operation stands at its ordinal. -/
private theorem getElem?_of_contiguous {operations : List Operation} {first : Nat}
    (sorted : operations.Pairwise fun earlier later => earlier.ordinal < later.ordinal)
    (bounded : ∀ operation ∈ operations, first ≤ operation.ordinal)
    (contiguous : ∀ earlier later, first ≤ earlier → earlier ≤ later →
      operations.find? (·.ordinal == earlier) = none →
      operations.find? (·.ordinal == later) = none) (position : Nat) :
    operations[position]? = operations.find? (·.ordinal == first + position) := by
  induction operations generalizing first position with
  | nil => rfl
  | cons operation rest induction =>
      obtain ⟨above, restSorted⟩ := List.pairwise_cons.mp sorted
      have least := bounded operation List.mem_cons_self
      have here : operation.ordinal = first := by
        by_contra different
        have absent : (operation :: rest).find? (·.ordinal == first) = none := by
          apply List.find?_eq_none.mpr
          intro other member
          have later : first < other.ordinal := by
            rcases List.mem_cons.mp member with rfl | inside
            · omega
            · have := above other inside
              omega
          simp only [beq_iff_eq]
          omega
        have gone := contiguous first operation.ordinal (Nat.le_refl _) least absent
        simp at gone
      cases position with
      | zero => simp [here]
      | succ position =>
          have skip : ∀ ordinal, first < ordinal →
              (operation :: rest).find? (·.ordinal == ordinal) =
                rest.find? (·.ordinal == ordinal) := by
            intro ordinal later
            rw [List.find?_cons_of_neg]
            simp only [beq_iff_eq]
            omega
          have tail : rest[position]? =
              rest.find? (·.ordinal == first + 1 + position) := by
            refine induction restSorted ?_ ?_ position
            · intro other inside
              have := above other inside
              omega
            · intro earlier later le further absent
              rw [← skip earlier (by omega)] at absent
              rw [← skip later (by omega)]
              exact contiguous earlier later (by omega) further absent
          have sum : first + 1 + position = first + (position + 1) := by omega
          rw [List.getElem?_cons_succ, skip _ (by omega), tail, sum]

theorem operations_map {log : OperationLog} (sorted : log.Sorted) {view : Operation → β}
    {items : List β} (shown : ∀ ordinal, (log.lookup? ordinal).map view = items[ordinal]?) :
    log.operations.map view = items := by
  have contiguous : ∀ earlier later, 0 ≤ earlier → earlier ≤ later →
      log.lookup? earlier = none → log.lookup? later = none := by
    intro earlier later _ le absent
    have missing := shown earlier
    rw [absent, Option.map_none, eq_comm, List.getElem?_eq_none_iff] at missing
    have beyond := shown later
    rw [List.getElem?_eq_none (by omega)] at beyond
    exact Option.map_eq_none_iff.mp beyond
  apply List.ext_getElem?
  intro position
  have found := getElem?_of_contiguous sorted (fun _ _ => Nat.zero_le _) contiguous position
  rw [Nat.zero_add] at found
  rw [List.getElem?_map, found]
  exact shown position

end OperationLog

end Durable
