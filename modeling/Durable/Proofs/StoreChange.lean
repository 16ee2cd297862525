import Durable.Proofs.GroundChange
import Durable.Proofs.StoreFailures

/-!
# Invocations over different stores

An invocation sees its store only in what loading the log gives and in how its appends are
answered.  Two stores that answer the appends of an execution alike, and stay alike as they
do so, let a workflow make the same pass: everything but the store is the same at its end.
-/

namespace Durable

variable {V O : Type}

/-- Stores that are related answer an append of the execution alike, and are related
afterwards. -/
structure Store.AnswerAlike (related : Store → Store → Prop) (executionId : String) : Prop where
  append : ∀ {first second : Store} (operation : Operation), related first second →
    (second.append executionId operation).1 = (first.append executionId operation).1 ∧
      related (first.append executionId operation).2 (second.append executionId operation).2

namespace Ground

/-- Grounds with one log, which is of the execution, over related stores. -/
structure OneLog (related : Store → Store → Prop) (executionId : String)
    (first second : Ground) : Prop where
  log : second.log = first.log
  own : first.log.executionId = executionId
  stores : related first.store second.store

end Ground

/-- A call sees of its store only how the appends are answered. -/
theorem Store.AnswerAlike.grounds {related : Store → Store → Prop} {executionId : String}
    (alike : AnswerAlike related executionId) :
    Ground.Alike (Ground.OneLog related executionId) where
  executionId := by
    intro first second oneLog
    rw [oneLog.log]
  records := by
    intro first second oneLog ordinal
    rw [oneLog.log]
    exact Operation.Twins.refl? _
  commit := by
    intro first second operation oneLog
    obtain ⟨log, own, stores⟩ := oneLog
    obtain ⟨answered, lasting⟩ := alike.append operation stores
    subst own
    simp only [Ground.commit, OperationLog.commit, log]
    cases here : first.store.append first.log.executionId operation with
    | mk result left =>
        cases there : second.store.append first.log.executionId operation with
        | mk again other =>
            rw [here, there] at answered lasting
            obtain rfl : again = result := answered
            cases again with
            | error error => exact ⟨rfl, ⟨rfl, rfl, lasting⟩⟩
            | ok given => exact ⟨rfl, ⟨rfl, rfl, lasting⟩⟩

namespace Invocation

/-- The invocation over another store. -/
def overStore (invocation : Invocation V) (store : Store) : Invocation V :=
  invocation.upon ⟨invocation.log, store⟩

theorem step_oneLog {related : Store → Store → Prop} {executionId : String}
    (alike : Store.AnswerAlike related executionId) {invocation : Invocation V} {ground : Ground}
    (oneLog : Ground.OneLog related executionId invocation.ground ground) (name : String)
    (config : StepConfig) (codec : Codec V) (body : StepBody V) :
    Mirrors (Ground.OneLog related executionId) (invocation.step name config codec body)
      ((invocation.upon ground).step name config codec body) := by
  apply step_mirrors alike.grounds oneLog
  intro first second here there
  have found : ground.log.lookup? invocation.nextOrdinal = some second := there.found
  rw [oneLog.log] at found
  have same : some first = some second := here.found.symm.trans found
  cases same
  rfl

end Invocation

theorem Workflow.run_mirrors {related : Store → Store → Prop} {executionId : String}
    (alike : Store.AnswerAlike related executionId) (workflow : Workflow V O)
    {invocation : Invocation V} {ground : Ground}
    (oneLog : Ground.OneLog related executionId invocation.ground ground) :
    Invocation.Mirrors (Ground.OneLog related executionId) (workflow.run invocation)
      (workflow.run (invocation.upon ground)) := by
  induction workflow generalizing invocation ground with
  | done outcome => exact ⟨ground, rfl, oneLog⟩
  | step name config codec body next induction =>
      obtain ⟨other, same, lasting⟩ :=
        Invocation.step_oneLog alike oneLog name config codec body
      simp only [run, same]
      cases stepped : invocation.step name config codec body with
      | mk reply after =>
          rw [stepped] at lasting
          cases reply with
          | crashed => exact ⟨other, rfl, lasting⟩
          | returned outcome => exact induction outcome lasting
  | wait name duration next induction =>
      obtain ⟨other, same, lasting⟩ :=
        Invocation.wait_mirrors alike.grounds oneLog name duration
      simp only [run, same]
      exact induction _ lasting
  | log level message next induction =>
      simp only [run, Invocation.logCall_upon]
      apply induction
      rw [Invocation.logCall_ground]
      exact oneLog
  | observe next induction =>
      have sameView : (invocation.upon ground).observation = invocation.observation := by
        have sameExecution : (invocation.upon ground).executionId = invocation.executionId :=
          alike.grounds.executionId oneLog
        simp only [Invocation.observation, sameExecution]
        rfl
      have emitted : Ground.OneLog related executionId
          (invocation.emit (.observed invocation.observation)).ground ground := oneLog
      simp only [run, sameView]
      exact induction invocation.observation emitted
  | advance duration next induction =>
      have advanced : Ground.OneLog related executionId (invocation.advance duration).ground
          ground := oneLog
      exact induction advanced

namespace Answer

/-- The answer with another store left behind. -/
def upon (answer : Answer V O) (store : Store) : Answer V O :=
  { answer with store := store }

end Answer

theorem Execution.finish_upon (executionId : String) (outcome : Except DurableError O)
    (invocation : Invocation V) (store : Store) :
    finish executionId outcome (invocation.overStore store) =
      (finish executionId outcome invocation).upon store := by
  have closes : (invocation.overStore store).close =
      (invocation.close.1, invocation.close.2.overStore store) := rfl
  have diagnoses : ∀ diagnostic : Option Diagnostic,
      (invocation.close.2.overStore store).diagnose? diagnostic =
        (invocation.close.2.diagnose? diagnostic).overStore store := by
    intro diagnostic
    cases diagnostic <;> rfl
  simp only [finish, closes, diagnoses]
  cases invocation.close.1.result executionId outcome <;> rfl

theorem Execution.finish_store (executionId : String) (outcome : Except DurableError O)
    (invocation : Invocation V) :
    (finish executionId outcome invocation).store = invocation.store :=
  congrArg Answer.store (finish_upon executionId outcome invocation invocation.store)

/-- Over stores from which the same log is loaded, and which stay alike, an invocation is
answered alike. -/
theorem Visit.answer_upon {related : Store → Store → Prop} {executionId : String}
    (alike : Store.AnswerAlike related executionId) (visit : Visit V O) {first second : Store}
    (loads : (OperationLog.load second executionId).1 = (OperationLog.load first executionId).1)
    (stores : related (OperationLog.load first executionId).2
      (OperationLog.load second executionId).2) :
    ∃ store, visit.answer executionId second = (visit.answer executionId first).upon store ∧
      related (visit.answer executionId first).store store := by
  cases loaded : OperationLog.load first executionId with
  | mk loading left =>
      cases loadedAgain : OperationLog.load second executionId with
      | mk again other =>
          rw [loaded, loadedAgain] at loads stores
          obtain rfl : again = loading := loads
          simp only [answer, Execution.invoke, loaded, loadedAgain]
          cases again with
          | error error => exact ⟨other, rfl, stores⟩
          | ok log =>
              have own : log.executionId = executionId := OperationLog.load_executionId loaded
              have oneLog : Ground.OneLog related executionId
                  (visit.begun executionId log left).ground ⟨log, other⟩ := ⟨rfl, own, stores⟩
              obtain ⟨⟨keptLog, store⟩, same, keeps⟩ := visit.workflow.run_mirrors alike oneLog
              have begins : (visit.begun executionId log left).upon ⟨log, other⟩ =
                  visit.begun executionId log other := rfl
              rw [begins] at same
              simp only [begun] at same keeps
              dsimp only
              rw [same]
              cases ran : visit.workflow.run
                  ((Execution.mk executionId visit.suppressReplayLogs).begin log left
                    visit.clock) with
              | mk ending final =>
                  rw [ran] at keeps
                  obtain ⟨sameLog, _, lasting⟩ := keeps
                  cases ending with
                  | crashed => exact ⟨store, rfl, lasting⟩
                  | returned outcome =>
                      have kept : final.upon ⟨keptLog, store⟩ = final.overStore store :=
                        congrArg (fun log => final.upon ⟨log, store⟩) sameLog
                      dsimp only
                      rw [kept]
                      refine ⟨store, Execution.finish_upon executionId outcome final store, ?_⟩
                      rw [Execution.finish_store]
                      exact lasting

end Durable
