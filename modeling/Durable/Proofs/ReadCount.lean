import Durable.Proofs.StoreChange

/-!
# The count of reads

A pass never looks at the number of reads of its store.  Two visits whose stores differ in
that number only do the same, and leave stores that differ in it only.
-/

namespace Durable

variable {V O : Type}

namespace Store

/-- The store with another count of reads. -/
def withReads (store : Store) (reads : Nat) : Store :=
  { store with reads := reads }

theorem append_withReads (store : Store) (reads : Nat) (executionId : String)
    (operation : Operation) :
    (store.withReads reads).append executionId operation =
      ((store.append executionId operation).1,
        (store.append executionId operation).2.withReads reads) := by
  simp only [append, withReads]
  cases store.faults.append (store.appends + 1) <;> rfl

theorem withReads_answerAlike (reads : Nat) (executionId : String) :
    AnswerAlike (fun first second => second = first.withReads reads) executionId := by
  constructor
  rintro first _ operation rfl
  rw [append_withReads]
  exact ⟨rfl, rfl⟩

end Store

namespace Answer

/-- The answer with another count of reads left behind. -/
def withReads (answer : Answer V O) (reads : Nat) : Answer V O :=
  { answer with store := answer.store.withReads reads }

end Answer

/-- Over a store that loses nothing, an invocation does not depend on how often the store has
been read. -/
theorem Visit.answer_withReads (visit : Visit V O) (executionId : String) {store : Store}
    (reliable : store.faults = .none) (reads : Nat) :
    visit.answer executionId (store.withReads reads) =
      (visit.answer executionId store).withReads (reads + 1) := by
  have loads : OperationLog.load (store.withReads reads) executionId =
      ((OperationLog.load store executionId).1,
        (OperationLog.load store executionId).2.withReads (reads + 1)) := by
    simp only [OperationLog.load, Store.load, Store.history, Store.withReads, reliable,
      FaultPlan.none]
  have sameLog : (OperationLog.load (store.withReads reads) executionId).1 =
      (OperationLog.load store executionId).1 := by
    rw [loads]
  have sameStore : (OperationLog.load (store.withReads reads) executionId).2 =
      (OperationLog.load store executionId).2.withReads (reads + 1) := by
    rw [loads]
  obtain ⟨left, answered, rfl⟩ := visit.answer_upon
    (Store.withReads_answerAlike (reads + 1) executionId) sameLog sameStore
  exact answered

end Durable
