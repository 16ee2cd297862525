import Durable.Proofs.StoreChange
import Mathlib.Data.List.Nodup

/-!
# Independent executions

Executions that share a store do not see each other.  An invocation appends records of its
own execution and leaves every other record where it is, and all that it reads is the part
of the medium that belongs to its execution.  How the invocations of different executions
are interleaved therefore makes no difference to any of them, nor to what is stored.
-/

namespace Durable

variable {V O : Type}

open Occurrence

namespace Names

theorem mem_insert {name other : String} {names : List String} :
    other ∈ insert name names ↔ other = name ∨ other ∈ names := by
  induction names with
  | nil => simp [insert]
  | cons head rest induction =>
      unfold insert
      split
      · simp
      · split
        · next same => simp [same]
        · simp only [List.mem_cons, induction]
          tauto

theorem ascending_insert {name : String} {names : List String}
    (ascending : names.Pairwise (· < ·)) : (insert name names).Pairwise (· < ·) := by
  induction ascending with
  | nil => exact List.pairwise_singleton _ _
  | @cons head rest below ascending induction =>
      unfold insert
      split
      · next less =>
          refine .cons ?_ (.cons below ascending)
          intro other member
          rcases List.mem_cons.mp member with rfl | later
          · exact less
          · exact String.lt_trans less (below other later)
      · next notLess =>
          split
          · exact .cons below ascending
          · next different =>
              refine .cons ?_ induction
              intro other member
              rcases mem_insert.mp member with rfl | later
              · rcases Std.lt_trichotomy other head with less | same | greater
                · exact absurd less notLess
                · exact absurd same different
                · exact greater
              · exact below other later

theorem mem_sorted {name : String} {names : List String} :
    name ∈ sorted names ↔ name ∈ names := by
  induction names with
  | nil => rfl
  | cons head rest induction =>
      change name ∈ insert head (sorted rest) ↔ _
      rw [mem_insert, induction, List.mem_cons]

theorem ascending_sorted (names : List String) : (sorted names).Pairwise (· < ·) := by
  induction names with
  | nil => exact .nil
  | cons head rest induction => exact ascending_insert induction

theorem sorted_congr {names again : List String} (same : ∀ name, name ∈ names ↔ name ∈ again) :
    sorted names = sorted again := by
  have ascending := ascending_sorted names
  have ascendingAgain := ascending_sorted again
  have distinct : ∀ {names : List String}, names.Pairwise (· < ·) → names.Nodup := by
    intro names sorted
    refine sorted.imp ?_
    rintro name _ less rfl
    exact String.lt_irrefl name less
  refine List.Perm.eq_of_pairwise ?_ ascending ascendingAgain ?_
  · intro first second _ _ below above
    exact absurd above (String.lt_asymm below)
  · refine (List.perm_ext_iff_of_nodup (distinct ascending) (distinct ascendingAgain)).mpr ?_
    intro name
    rw [mem_sorted, mem_sorted, same]

end Names

namespace Medium

/-- The records of one execution, as the medium keeps them. -/
def part (executionId : String) : Medium → Medium
  | memory records => memory (records.filter (·.1 == executionId))
  | table rows => table ⟨rows.rowsOf executionId⟩

/-- Some records of one execution were put behind all that was kept, which stays as it is. -/
inductive Grows (executionId : String) : Medium → Medium → Prop where
  | memory (kept added : List (String × Operation))
      (own : ∀ record ∈ added, record.1 = executionId) :
      Grows executionId (.memory kept) (.memory (kept ++ added))
  | table (kept added : List (Row String)) (own : ∀ row ∈ added, row.executionId = executionId) :
      Grows executionId (.table ⟨kept⟩) (.table ⟨kept ++ added⟩)

variable (medium : Medium) (executionId : String)

theorem part_append (operation : Operation) :
    (medium.append executionId operation).part executionId =
      (medium.part executionId).append executionId operation := by
  cases medium with
  | memory records => simp [append, part, List.filter_append]
  | table rows =>
      simp only [append, part, Table.rowsOf_append]
      rfl

theorem part_append_other {executionId other : String} (different : other ≠ executionId)
    (operation : Operation) :
    (medium.append other operation).part executionId = medium.part executionId := by
  cases medium with
  | memory records => simp [append, part, List.filter_append, different]
  | table rows =>
      simp [append, part, Table.append, Table.rowsOf, List.filter_append, Row.ofOperation,
        different]

theorem part_appendAll_other {executionId other : String} (different : other ≠ executionId)
    (records : List Operation) :
    (medium.appendAll other records).part executionId = medium.part executionId := by
  induction records generalizing medium with
  | nil => rfl
  | cons operation records induction =>
      rw [appendAll_cons, induction, part_append_other medium different]

theorem history_part : (medium.part executionId).history executionId =
    medium.history executionId := by
  cases medium with
  | memory records => simp [part, history]
  | table rows => simp [part, history, Table.history, Table.rowsOf]

/-- What is read of an execution depends on its part only. -/
theorem history_of_part {first second : Medium} {executionId : String}
    (same : first.part executionId = second.part executionId) :
    first.history executionId = second.history executionId := by
  rw [← history_part first, same, history_part]

/-- Media with the same parts list the same executions. -/
theorem executions_of_parts {first second : Medium}
    (same : ∀ executionId, first.part executionId = second.part executionId) :
    first.executions = second.executions := by
  cases first with
  | memory records =>
      cases second with
      | table rows => cases same ""
      | memory others =>
          apply Names.sorted_congr
          intro executionId
          have part := Medium.memory.inj (same executionId)
          have occurs : ∀ kept : List (String × Operation),
              executionId ∈ kept.map Prod.fst ↔ kept.filter (·.1 == executionId) ≠ [] := by
            simp [List.filter_eq_nil_iff]
          rw [occurs, occurs, part]
  | table rows =>
      cases second with
      | memory records => cases same ""
      | table others =>
          apply Names.sorted_congr
          intro executionId
          have part : rows.rowsOf executionId = others.rowsOf executionId :=
            congrArg Table.rows (Medium.table.inj (same executionId))
          have occurs : ∀ table : Table,
              executionId ∈ table.rows.map Row.executionId ↔ table.rowsOf executionId ≠ [] := by
            simp [Table.rowsOf, List.filter_eq_nil_iff]
          rw [occurs, occurs, part]

theorem grows_appendAll (records : List Operation) :
    Grows executionId medium (medium.appendAll executionId records) := by
  cases medium with
  | memory kept =>
      suffices appended : (memory kept).appendAll executionId records =
          memory (kept ++ records.map fun record => (executionId, record)) by
        rw [appended]
        exact .memory kept _ (by simp)
      induction records generalizing kept with
      | nil => simp
      | cons record records induction =>
          rw [appendAll_cons, append, induction]
          simp
  | table table =>
      suffices appended : (Medium.table table).appendAll executionId records =
          .table ⟨table.rows ++ records.map (Row.ofOperation executionId)⟩ by
        rw [appended]
        exact .table table.rows _ (by simp [Row.ofOperation])
      induction records generalizing table with
      | nil => simp
      | cons record records induction =>
          rw [appendAll_cons, append, induction]
          simp [Table.append]

end Medium

/-- Whether a call fails does not depend on the calls before it. -/
structure FaultPlan.Uniform (plan : FaultPlan) : Prop where
  append : ∀ first second, plan.append first = plan.append second
  read : ∀ first second, plan.read first = plan.read second

theorem FaultPlan.none_uniform : FaultPlan.none.Uniform :=
  ⟨fun _ _ => rfl, fun _ _ => rfl⟩

namespace Store

/-- The stores keep the same of one execution, and fail in the same way. -/
structure LooksLike (executionId : String) (first second : Store) : Prop where
  part : second.medium.part executionId = first.medium.part executionId
  faults : second.faults = first.faults
  uniform : first.faults.Uniform

namespace LooksLike

variable {executionId : String} {first second : Store}

theorem refl (uniform : first.faults.Uniform) : LooksLike executionId first first :=
  ⟨rfl, rfl, uniform⟩

theorem history (looks : LooksLike executionId first second) :
    (second.history executionId).1 = (first.history executionId).1 := by
  have read := looks.uniform.read (second.reads + 1) (first.reads + 1)
  simp only [Store.history, looks.faults, read, Medium.history_of_part looks.part]
  cases first.faults.read (first.reads + 1) <;> rfl

theorem load (looks : LooksLike executionId first second) :
    (second.load executionId).1 = (first.load executionId).1 := by
  simp only [Store.load, looks.history]

theorem loadLog (looks : LooksLike executionId first second) :
    (OperationLog.load second executionId).1 = (OperationLog.load first executionId).1 ∧
      LooksLike executionId (OperationLog.load first executionId).2
        (OperationLog.load second executionId).2 := by
  have frame := OperationLog.load_frame first executionId
  have otherFrame := OperationLog.load_frame second executionId
  refine ⟨by simp only [OperationLog.load, looks.load], ?_, ?_, ?_⟩
  · rw [frame.1, otherFrame.1, looks.part]
  · rw [frame.2, otherFrame.2, looks.faults]
  · rw [frame.2]
    exact looks.uniform

end LooksLike

theorem looksLike_answerAlike (executionId : String) :
    AnswerAlike (LooksLike executionId) executionId := by
  constructor
  intro first second operation looks
  have answered := looks.uniform.append (second.appends + 1) (first.appends + 1)
  simp only [append, looks.faults, answered]
  cases first.faults.append (first.appends + 1) with
  | some error => exact ⟨rfl, looks.part, rfl, looks.uniform⟩
  | none =>
      refine ⟨rfl, ?_, rfl, looks.uniform⟩
      simp only [Medium.part_append, looks.part]

end Store

/-- An invocation of one of the executions that share a store. -/
structure Request (V O : Type) where
  executionId : String
  visit : Visit V O

namespace Request

def answer (request : Request V O) (store : Store) : Answer V O :=
  request.visit.answer request.executionId store

end Request

namespace Answer

/-- All that an answer says, without the store that it leaves behind. -/
def account (answer : Answer V O) : Verdict O × Clock × List (Occurrence V) :=
  (answer.verdict, answer.clock, answer.occurrences)

end Answer

namespace Traffic

/-- The answers to requests that are made one after the other of one store, each under its
execution. -/
def answers (store : Store) : List (Request V O) → List (String × Answer V O)
  | [] => []
  | request :: rest =>
    (request.executionId, request.answer store) :: answers (request.answer store).store rest

/-- The answers to the invocations of one execution, in order. -/
def answersOf (executionId : String) (store : Store) (requests : List (Request V O)) :
    List (Answer V O) :=
  ((answers store requests).filter (·.1 == executionId)).map Prod.snd

/-- The store that the requests leave behind. -/
def storeAfter (store : Store) : List (Request V O) → Store
  | [] => store
  | request :: rest => storeAfter (request.answer store).store rest

/-- The invocations of one execution, in order. -/
def visitsOf (executionId : String) (requests : List (Request V O)) : List (Visit V O) :=
  (requests.filter (·.executionId == executionId)).map Request.visit

end Traffic

/-- Over stores that look the same to its execution, an invocation gives the same account,
and leaves stores that look the same to it. -/
theorem Visit.answer_looksLike (visit : Visit V O) {executionId : String} {first second : Store}
    (looks : Store.LooksLike executionId first second) :
    (visit.answer executionId second).account = (visit.answer executionId first).account ∧
      Store.LooksLike executionId (visit.answer executionId first).store
        (visit.answer executionId second).store := by
  obtain ⟨store, answered, lasting⟩ := visit.answer_upon
    (Store.looksLike_answerAlike executionId) looks.loadLog.1 looks.loadLog.2
  rw [answered]
  exact ⟨rfl, lasting⟩

/-- To the other executions an invocation leaves its store as it was. -/
theorem Visit.answer_looksLike_other (visit : Visit V O) {executionId other : String}
    (different : other ≠ executionId) {first second : Store}
    (looks : Store.LooksLike executionId first second) :
    Store.LooksLike executionId first (visit.answer other second).store := by
  constructor
  · rw [answer_medium, Medium.part_appendAll_other _ different, looks.part]
  · rw [answer_faults, looks.faults]
  · exact looks.uniform

namespace Traffic

/-- Each execution is answered as if it were alone with the store. -/
theorem alone {executionId : String} {own shared : Store}
    (looks : Store.LooksLike executionId own shared) (requests : List (Request V O)) :
    (answersOf executionId shared requests).map Answer.account =
        (Session.answers executionId own (visitsOf executionId requests)).map Answer.account ∧
      Store.LooksLike executionId
        (Session.storeAfter executionId own (visitsOf executionId requests))
        (storeAfter shared requests) := by
  induction requests generalizing own shared with
  | nil => exact ⟨rfl, looks⟩
  | cons request rest induction =>
      by_cases same : request.executionId = executionId
      · subst same
        obtain ⟨accounts, left⟩ := request.visit.answer_looksLike looks
        obtain ⟨later, leftLater⟩ := induction left
        simp only [answersOf, visitsOf] at later leftLater ⊢
        simp only [answers, storeAfter, Request.answer, List.filter_cons_of_pos, beq_self_eq_true,
          List.map_cons, Session.answers, Session.storeAfter, accounts, later]
        exact ⟨trivial, leftLater⟩
      · have left := request.visit.answer_looksLike_other same looks
        obtain ⟨later, leftLater⟩ := induction left
        simp only [answersOf, visitsOf] at later leftLater ⊢
        simp only [answers, storeAfter, Request.answer, beq_iff_eq, same, not_false_eq_true,
          List.filter_cons_of_neg]
        exact ⟨later, leftLater⟩

end Traffic

/-- Executions are independent.  Let requests be made of one store, whatever it holds, in two
orders that agree on the requests of each execution.  Then each execution is answered alike
in both: with the same verdicts, clocks, bodies, attempts and log calls; and both orders
leave the same histories, the same latest states and the same list of executions.  Every
invocation only puts records of its own execution behind all that is stored, and leaves the
histories of the other executions as they are.  That a call to the store fails must not
depend on how many calls were made before it. -/
theorem executions_are_independent {store : Store} (uniform : store.faults.Uniform)
    {requests again : List (Request V O)}
    (sameOrder : ∀ executionId, requests.filter (·.executionId == executionId) =
      again.filter (·.executionId == executionId)) :
    (∀ executionId,
      (Traffic.answersOf executionId store requests).map Answer.account =
          (Traffic.answersOf executionId store again).map Answer.account ∧
        ((Traffic.storeAfter store requests).history executionId).1 =
          ((Traffic.storeAfter store again).history executionId).1 ∧
        ((Traffic.storeAfter store requests).load executionId).1 =
          ((Traffic.storeAfter store again).load executionId).1) ∧
      (Traffic.storeAfter store requests).executions =
        (Traffic.storeAfter store again).executions ∧
      ∀ (request : Request V O) (found : Store),
        Medium.Grows request.executionId found.medium (request.answer found).store.medium ∧
          ∀ other, other ≠ request.executionId →
            (request.answer found).store.medium.history other = found.medium.history other := by
  have ownView : ∀ executionId, Store.LooksLike executionId store store :=
    fun executionId => .refl uniform
  have sameVisits : ∀ executionId,
      Traffic.visitsOf executionId requests = Traffic.visitsOf executionId again := by
    intro executionId
    rw [Traffic.visitsOf, sameOrder, Traffic.visitsOf]
  have first := fun executionId => Traffic.alone (ownView executionId) requests
  have second := fun executionId => Traffic.alone (ownView executionId) again
  simp only [sameVisits] at first
  refine ⟨?_, ?_, ?_⟩
  · intro executionId
    obtain ⟨accounts, left⟩ := first executionId
    obtain ⟨accountsAgain, leftAgain⟩ := second executionId
    exact ⟨accounts.trans accountsAgain.symm, left.history.trans leftAgain.history.symm,
      left.load.trans leftAgain.load.symm⟩
  · exact Medium.executions_of_parts fun executionId =>
      (first executionId).2.part.trans (second executionId).2.part.symm
  · intro request found
    rw [Request.answer, Visit.answer_medium]
    refine ⟨Medium.grows_appendAll _ _ _, ?_⟩
    intro other different
    exact Medium.history_of_part (Medium.part_appendAll_other _ (Ne.symm different) _)

/-- Two executions of one step each, in either order. -/
theorem two_executions_are_independent :
    let left : Request Unit Unit := ⟨"left", Visit.ofOneStep⟩
    let right : Request Unit Unit := ⟨"right", Visit.ofOneStep⟩
    (Traffic.storeAfter .empty [left, right]).executions = ["left", "right"] ∧
      (Traffic.storeAfter .empty [right, left]).executions = ["left", "right"] ∧
      ((Traffic.storeAfter .empty [left, right]).history "left").1 =
        ((Traffic.storeAfter .empty [right, left]).history "left").1 := by
  intro left right
  have sameOrder : ∀ executionId, [left, right].filter (·.executionId == executionId) =
      [right, left].filter (·.executionId == executionId) := by
    intro executionId
    by_cases isLeft : "left" = executionId
    · subst isLeft
      rfl
    · simp [left, right, isLeft, List.filter_cons]
  obtain ⟨each, executions, _⟩ :=
    executions_are_independent (show Store.empty.faults.Uniform from FaultPlan.none_uniform)
      sameOrder
  have listed : (Traffic.storeAfter .empty [left, right]).executions = ["left", "right"] := by
    decide
  exact ⟨listed, executions.symm.trans listed, (each "left").2.1⟩

end Durable
