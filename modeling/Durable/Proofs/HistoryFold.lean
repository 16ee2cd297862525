import Durable.Proofs.LatestRecord

/-!
# The fold of a history

The fold of a history lists the last record of every ordinal, in the order in which the
ordinals first appear; this determines it.  It is also what a loop computes that keeps a table
of positions beside the list.  A history whose first part is replaced by its fold has the same
fold, whatever follows, so that loading does not tell the two apart.
-/

namespace Durable

namespace History

/-- The states have the ordinals of the history, each once and in the order in which they first
appear, and each state is the last record of its ordinal. -/
structure LastWrites (history states : List Operation) : Prop where
  ordinals : states.map Operation.ordinal = (history.map Operation.ordinal).eraseDups
  last : ∀ state ∈ states, latest? history state.ordinal = some state

/-- The states are the last records of the ordinals. -/
theorem LastWrites.states_eq {history states : List Operation}
    (writes : LastWrites history states) :
    states = (history.map Operation.ordinal).eraseDups.filterMap (latest? history) := by
  rw [← writes.ordinals, List.filterMap_map]
  have found : ∀ state ∈ states, (latest? history ∘ Operation.ordinal) state = some state :=
    writes.last
  rw [List.filterMap_congr found, List.filterMap_some]

theorem ordinals_latestStates_eq (history : List Operation) :
    (latestStates history).map Operation.ordinal =
      (history.map Operation.ordinal).eraseDups := by
  induction history using List.reverseRecOn with
  | nil => rfl
  | append_singleton history operation induction =>
      rw [latestStates_append_singleton, record_ordinals, List.map_append,
        List.eraseDups_append, induction, List.map_singleton]
      by_cases known : operation.ordinal ∈ history.map Operation.ordinal
      · have nothingNew : [operation.ordinal].removeAll (history.map Operation.ordinal) = [] := by
          simpa [List.removeAll] using known
        rw [if_pos (List.mem_eraseDups.mpr known), nothingNew]
        exact (List.append_nil _).symm
      · have new : [operation.ordinal].removeAll (history.map Operation.ordinal) =
            [operation.ordinal] := by
          simpa [List.removeAll] using known
        rw [if_neg (mt List.mem_eraseDups.mp known), new]
        rfl

theorem lastWrites_latestStates (history : List Operation) :
    LastWrites history (latestStates history) where
  ordinals := ordinals_latestStates_eq history
  last _ member := latest?_of_mem_latestStates member

theorem eq_latestStates_iff {history states : List Operation} :
    states = latestStates history ↔ LastWrites history states := by
  constructor
  · rintro rfl
    exact lastWrites_latestStates history
  · intro writes
    exact writes.states_eq.trans (lastWrites_latestStates history).states_eq.symm

/-- The latest records, and the position at which the record of an ordinal stands. -/
structure Indexed where
  position? : Nat → Option Nat
  states : List Operation

namespace Indexed

def empty : Indexed :=
  ⟨fun _ => none, []⟩

/-- A record takes the position of its ordinal, or a new one at the end. -/
def record (indexed : Indexed) (operation : Operation) : Indexed :=
  match indexed.position? operation.ordinal with
  | some index => { indexed with states := indexed.states.set index operation }
  | none =>
    { position? := fun ordinal =>
        if ordinal = operation.ordinal then some indexed.states.length
        else indexed.position? ordinal
      states := indexed.states ++ [operation] }

def ofHistory (history : List Operation) : Indexed :=
  history.foldl record empty

/-- The table has the position of every ordinal. -/
def Sound (indexed : Indexed) : Prop :=
  ∀ ordinal,
    indexed.position? ordinal = (indexed.states.map Operation.ordinal).idxOf? ordinal

end Indexed

private theorem idxOf?_concat (ordinals : List Nat) (last ordinal : Nat) :
    (ordinals ++ [last]).idxOf? ordinal =
      (ordinals.idxOf? ordinal).or (if last = ordinal then some ordinals.length else none) := by
  rw [List.idxOf?, List.findIdx?_append, List.findIdx?_singleton]
  by_cases here : last = ordinal
  · simp [here]
  · simp [here]

theorem record_eq_set {states : List Operation} {operation : Operation} {index : Nat}
    (found : (states.map Operation.ordinal).idxOf? operation.ordinal = some index) :
    record states operation = states.set index operation := by
  induction states generalizing index with
  | nil => simp at found
  | cons state rest induction =>
      rw [List.map_cons, List.idxOf?_cons] at found
      by_cases here : state.ordinal = operation.ordinal
      · rw [here, beq_self_eq_true, if_pos rfl] at found
        cases found
        rw [record, if_pos here, List.set_cons_zero]
      · rw [if_neg (by simpa using here)] at found
        obtain ⟨inRest, foundThere, rfl⟩ := Option.map_eq_some_iff.mp found
        rw [record, if_neg here, induction foundThere, List.set_cons_succ]

theorem record_eq_append {states : List Operation} {operation : Operation}
    (absent : operation.ordinal ∉ states.map Operation.ordinal) :
    record states operation = states ++ [operation] := by
  induction states with
  | nil => rfl
  | cons state rest induction =>
      rw [List.map_cons, List.mem_cons, not_or] at absent
      rw [record, if_neg (Ne.symm absent.1), induction absent.2, List.cons_append]

namespace Indexed

theorem Sound.record {indexed : Indexed} (sound : indexed.Sound) (operation : Operation) :
    (indexed.record operation).Sound ∧
      (indexed.record operation).states = History.record indexed.states operation := by
  have place := sound operation.ordinal
  unfold Indexed.record
  split
  · next index found =>
      rw [found, eq_comm] at place
      have known : operation.ordinal ∈ indexed.states.map Operation.ordinal :=
        List.isSome_idxOf?.mp (by rw [place]; rfl)
      have put := record_eq_set place
      have ordinals := record_ordinals indexed.states operation
      rw [if_pos known, put] at ordinals
      refine ⟨?_, put.symm⟩
      intro ordinal
      exact (sound ordinal).trans (by rw [ordinals])
  · next absent =>
      rw [absent, eq_comm, List.idxOf?_eq_none_iff] at place
      refine ⟨?_, (record_eq_append place).symm⟩
      intro ordinal
      rw [List.map_append, List.map_singleton, idxOf?_concat, ← sound ordinal, List.length_map]
      dsimp only
      by_cases here : ordinal = operation.ordinal
      · rw [if_pos here, if_pos here.symm, here, absent, Option.none_or]
      · rw [if_neg here, if_neg (Ne.symm here), Option.or_none]

theorem ofHistory_states (history : List Operation) :
    (ofHistory history).states = latestStates history := by
  suffices both : (ofHistory history).Sound ∧ (ofHistory history).states = latestStates history
    from both.2
  induction history using List.reverseRecOn with
  | nil => exact ⟨fun _ => rfl, rfl⟩
  | append_singleton history operation induction =>
      obtain ⟨sound, same⟩ := induction
      have next := sound.record operation
      rw [same, ← latestStates_append_singleton] at next
      rwa [ofHistory, List.foldl_append]

end Indexed

theorem latestStates_append (earlier later : List Operation) :
    latestStates (earlier ++ later) = later.foldl record (latestStates earlier) :=
  List.foldl_append

theorem Distinct.latestStates_eq {states : List Operation} (distinct : Distinct states) :
    latestStates states = states := by
  induction states using List.reverseRecOn with
  | nil => rfl
  | append_singleton states operation induction =>
      obtain ⟨before, -, apart⟩ := List.pairwise_append.mp distinct
      have absent : operation.ordinal ∉ states.map Operation.ordinal := by
        intro member
        obtain ⟨state, stateMember, same⟩ := List.mem_map.mp member
        exact apart state stateMember operation List.mem_cons_self same
      rw [latestStates_append_singleton, induction before, record_eq_append absent]

theorem latestStates_idempotent (history : List Operation) :
    latestStates (latestStates history) = latestStates history :=
  (latestStates_distinct history).latestStates_eq

theorem latestStates_compacted (earlier later : List Operation) :
    latestStates (latestStates earlier ++ later) = latestStates (earlier ++ later) := by
  rw [latestStates_append, latestStates_idempotent, ← latestStates_append]

end History

/-- Stores that read alike and whose histories have one fold are loaded alike. -/
theorem Store.load_congr {first second : Store} {executionId : String}
    {history other : List Operation}
    (readFirst : first.medium.history executionId = .ok history)
    (readSecond : second.medium.history executionId = .ok other)
    (alike : first.faults.read (first.reads + 1) = second.faults.read (second.reads + 1))
    (same : History.latestStates history = History.latestStates other) :
    (first.load executionId).1 = (second.load executionId).1 ∧
      (OperationLog.load first executionId).1 = (OperationLog.load second executionId).1 := by
  have loads : (first.load executionId).1 = (second.load executionId).1 := by
    simp only [Store.load, Store.history, readFirst, readSecond, alike]
    split
    · rfl
    · exact congrArg Except.ok same
  have logs : ∀ store : Store, (OperationLog.load store executionId).1 =
      (store.load executionId).1.map (OperationLog.ofRecords executionId) := fun _ => rfl
  exact ⟨loads, by rw [logs, logs, loads]⟩

/-- The fold of a history is the one list that holds the last record of every ordinal, in the
order in which the ordinals first appear, and a loop with a table of positions computes it.
It may stand for the history: a history whose first part is replaced by its fold has the same
fold, so folding twice changes nothing, and a store that was compacted in this way is loaded
like the store as it was. -/
theorem latest_states_are_last_writes (history later : List Operation) :
    (∀ states, states = History.latestStates history ↔ History.LastWrites history states) ∧
      (History.Indexed.ofHistory history).states = History.latestStates history ∧
      History.latestStates (History.latestStates history ++ later) =
        History.latestStates (history ++ later) ∧
      History.latestStates (History.latestStates history) = History.latestStates history ∧
      ∀ (full compacted : Store) (executionId : String),
        full.medium.history executionId = .ok (history ++ later) →
        compacted.medium.history executionId = .ok (History.latestStates history ++ later) →
        full.faults.read (full.reads + 1) = compacted.faults.read (compacted.reads + 1) →
        (full.load executionId).1 = (compacted.load executionId).1 ∧
          (OperationLog.load full executionId).1 =
            (OperationLog.load compacted executionId).1 := by
  refine ⟨?_, ?_, ?_, ?_, ?_⟩
  · intro states
    exact History.eq_latestStates_iff
  · exact History.Indexed.ofHistory_states history
  · exact History.latestStates_compacted history later
  · exact History.latestStates_idempotent history
  · intro full compacted executionId readFull readCompacted alike
    apply Store.load_congr readFull readCompacted alike
    exact (History.latestStates_compacted history later).symm

/-- Two steps are declared and the first one is run, before and after compaction. -/
theorem compacted_store_is_loaded_alike :
    let first := Operation.step 0 "a"
    let ran := first.withState (.started 1)
    let done := first.withState (.succeeded 1 .null)
    let full := Store.ofMedium
      (.memory ([first, .step 1 "b", ran, done].map fun record => ("run", record))) .none
    let compacted := Store.ofMedium
      (.memory ([ran, .step 1 "b", done].map fun record => ("run", record))) .none
    (OperationLog.load full "run").1 = (OperationLog.load compacted "run").1 := by
  intro first ran done full compacted
  obtain ⟨-, -, -, -, alike⟩ := latest_states_are_last_writes [first, .step 1 "b", ran] [done]
  exact (alike full compacted "run" rfl rfl rfl).2

end Durable
