import Durable.Proofs.InstantOrder
import Durable.Proofs.InterruptedCalls
import Durable.Proofs.LogShape

/-!
# The next ready time

The next ready time is the earliest one among the operations that are not terminal, so it
depends only on which operations there are.  An invocation that was suspended has left a
pending record with a ready time, and gives the same time as the history in which its
records were stored.
-/

namespace Durable

variable {V O : Type}

open Occurrence

namespace History

/-- No operation wants attention earlier. -/
structure Earliest (operations : List Operation) (readyAt : Instant) : Prop where
  attained : ∃ operation ∈ operations, wakeTime? operation = some readyAt
  least : ∀ operation ∈ operations, ∀ other, wakeTime? operation = some other → readyAt ≤ other

theorem nextReadyTime?_eq_none {operations : List Operation} :
    nextReadyTime? operations = none ↔
      ∀ operation ∈ operations, wakeTime? operation = none := by
  induction operations with
  | nil => simp [nextReadyTime?]
  | cons operation rest induction =>
      have fold : nextReadyTime? (operation :: rest) =
          earlier? (wakeTime? operation) (nextReadyTime? rest) := rfl
      rw [fold, List.forall_mem_cons, ← induction]
      cases wakeTime? operation <;> cases nextReadyTime? rest <;> simp [earlier?]

theorem nextReadyTime?_earliest {operations : List Operation} {readyAt : Instant}
    (next : nextReadyTime? operations = some readyAt) : Earliest operations readyAt := by
  induction operations generalizing readyAt with
  | nil => cases next
  | cons operation rest induction =>
      have fold : nextReadyTime? (operation :: rest) =
          earlier? (wakeTime? operation) (nextReadyTime? rest) := rfl
      rw [fold] at next
      cases own : wakeTime? operation with
      | none =>
          rw [own] at next
          obtain ⟨attained, least⟩ := @induction readyAt (by
            cases later : nextReadyTime? rest with
            | none =>
                rw [later] at next
                cases next
            | some time =>
                rw [later] at next
                exact next)
          obtain ⟨earliest, member, wakes⟩ := attained
          refine ⟨⟨earliest, List.mem_cons_of_mem _ member, wakes⟩, ?_⟩
          intro other isOther time wakesThen
          rcases List.mem_cons.mp isOther with rfl | inRest
          · rw [own] at wakesThen
            cases wakesThen
          · exact least other inRest time wakesThen
      | some first =>
          rw [own] at next
          cases later : nextReadyTime? rest with
          | none =>
              rw [later] at next
              obtain rfl : first = readyAt := Option.some.inj next
              refine ⟨⟨operation, List.mem_cons_self, own⟩, ?_⟩
              intro other isOther time wakesThen
              rcases List.mem_cons.mp isOther with rfl | inRest
              · rw [own] at wakesThen
                obtain rfl := Option.some.inj wakesThen
                exact le_refl first
              · rw [nextReadyTime?_eq_none.mp later other inRest] at wakesThen
                cases wakesThen
          | some second =>
              rw [later] at next
              obtain rfl : first.min second = readyAt := Option.some.inj next
              obtain ⟨⟨earliest, member, wakes⟩, least⟩ := induction later
              obtain ⟨notLater, notLaterRest⟩ := Instant.min_le first second
              constructor
              · rcases Instant.min_eq first second with same | same
                · exact ⟨operation, List.mem_cons_self, by rw [own, same]⟩
                · exact ⟨earliest, List.mem_cons_of_mem _ member, by rw [wakes, same]⟩
              · intro other isOther time wakesThen
                rcases List.mem_cons.mp isOther with rfl | inRest
                · rw [own] at wakesThen
                  obtain rfl := Option.some.inj wakesThen
                  exact notLater
                · exact notLaterRest.trans (least other inRest time wakesThen)

/-- The next ready time does not depend on the order of the operations. -/
theorem nextReadyTime?_congr {first second : List Operation}
    (same : ∀ operation, operation ∈ first ↔ operation ∈ second) :
    nextReadyTime? first = nextReadyTime? second := by
  cases one : nextReadyTime? first with
  | none =>
      symm
      rw [nextReadyTime?_eq_none] at one ⊢
      intro operation member
      exact one operation ((same operation).mpr member)
  | some time =>
      cases two : nextReadyTime? second with
      | none =>
          obtain ⟨operation, member, wakes⟩ := (nextReadyTime?_earliest one).attained
          rw [nextReadyTime?_eq_none.mp two operation ((same operation).mp member)] at wakes
          cases wakes
      | some other =>
          obtain ⟨⟨operation, member, wakes⟩, least⟩ := nextReadyTime?_earliest one
          obtain ⟨⟨again, memberAgain, wakesAgain⟩, leastAgain⟩ := nextReadyTime?_earliest two
          congr 1
          apply le_antisymm
          · exact least again ((same again).mpr memberAgain) other wakesAgain
          · exact leastAgain operation ((same operation).mp member) time wakes

end History

namespace Operation

/-- The operation is put off until the given time. -/
structure Waits (operation : Operation) (wake : Instant) : Prop where
  pending : operation.status = .pending
  readyAt : operation.readyAt = some wake

theorem Waits.wakeTime? {operation : Operation} {wake : Instant} (waits : operation.Waits wake) :
    History.wakeTime? operation = some wake := by
  have unfinished : operation.isTerminal = false := isTerminal_of_status waits.pending
  rw [History.wakeTime?, unfinished]
  exact waits.readyAt

theorem Waits.stepPlan {operation : Operation} {wake : Instant} (waits : operation.Waits wake)
    (semantics : StepSemantics) (now : Instant) :
    StepPlan.ofRecord (some operation) semantics now =
      if wake ≤ now then .attempt (operation.attempt + 1) else .fail (.suspended wake) := by
  simp only [StepPlan.ofRecord, isReady, waits.pending, waits.readyAt, Option.getD_some,
    decide_eq_true_eq]

theorem Waits.waitPlan {operation : Operation} {wake : Instant} (waits : operation.Waits wake)
    (now : Instant) :
    WaitPlan.ofRecord (some operation) now =
      if wake ≤ now then .elapse operation else .fail (.suspended wake) := by
  simp only [WaitPlan.ofRecord, isReady, waits.pending, waits.readyAt, Option.getD_some,
    decide_eq_true_eq]

/-- The operation is neither pending nor put off. -/
structure Past (operation : Operation) : Prop where
  notPending : operation.status ≠ .pending
  asleep : History.wakeTime? operation = none

theorem past_of_isTerminal {operation : Operation} (terminal : operation.isTerminal = true) :
    operation.Past := by
  constructor
  · intro pending
    rw [isTerminal, pending] at terminal
    cases terminal
  · rw [History.wakeTime?, terminal]
    rfl

end Operation

/-- Behind operations that are past, the last one decides the next ready time. -/
theorem History.nextReadyTime?_of_waits {front : List Operation} {last : Operation}
    {wake : Instant} (past : ∀ operation ∈ front, operation.Past) (waits : last.Waits wake) :
    nextReadyTime? (front ++ [last]) = some wake := by
  induction front with
  | nil =>
      have only : nextReadyTime? ([] ++ [last]) = earlier? (wakeTime? last) none := rfl
      rw [only, waits.wakeTime?]
      rfl
  | cons operation front induction =>
      have rest := induction fun other member => past other (List.mem_cons_of_mem _ member)
      have fold : nextReadyTime? (operation :: (front ++ [last])) =
          earlier? (wakeTime? operation) (nextReadyTime? (front ++ [last])) := rfl
      rw [List.cons_append, fold, (past operation List.mem_cons_self).asleep, rest]
      rfl

namespace OperationLog

theorem mem_operations {log : OperationLog} (sorted : log.Sorted) {operation : Operation} :
    operation ∈ log.operations ↔ log.lookup? operation.ordinal = some operation := by
  constructor
  · intro member
    have distinct : History.Distinct log.operations := sorted.imp fun less => by omega
    cases found : log.lookup? operation.ordinal with
    | none =>
        have absent := List.find?_eq_none.mp found operation member
        simp at absent
    | some other =>
        have otherMember : other ∈ log.operations := List.mem_of_find?_eq_some found
        have nodup : (log.operations.map Operation.ordinal).Nodup := List.pairwise_map.mpr distinct
        rw [List.inj_on_of_nodup_map nodup otherMember member (lookup?_ordinal found)]
  · intro found
    exact List.mem_of_find?_eq_some found

/-- A log and a history that agree on the latest records have the same next ready time. -/
theorem nextReadyTime?_of_history {log : OperationLog} (sorted : log.Sorted)
    {history : List Operation}
    (agrees : ∀ ordinal, log.lookup? ordinal = History.latest? history ordinal) :
    log.nextReadyTime? = History.nextReadyTime? (History.latestStates history) := by
  apply History.nextReadyTime?_congr
  intro operation
  rw [mem_operations sorted, agrees]
  constructor
  · intro latest
    exact (History.latest?_mem_latestStates latest).1
  · exact History.latest?_of_mem_latestStates

end OperationLog

section Courses

variable {invocation : Invocation V} {wake : Instant}

/-- The log has a pending record of the ordinal that is put off until the given time. -/
def OperationLog.PutsOff (log : OperationLog) (ordinal : Nat) (wake : Instant) : Prop :=
  ∃ record, log.lookup? ordinal = some record ∧ record.status = .pending ∧
    record.readyAt = some wake

theorem Operation.readyAt_of_early {operation : Operation} {now : Instant}
    (early : ¬operation.isReady now = true) :
    ∃ readyAt, operation.readyAt = some readyAt ∧ ¬readyAt ≤ now := by
  unfold isReady at early
  split at early
  · exact absurd rfl early
  · next readyAt found => exact ⟨readyAt, found, by simpa using early⟩

/-- A step call that suspends the invocation leaves its operation put off to that time. -/
theorem StepCourse.of_suspended {call : StepCall V} {middle : List (Occurrence V)}
    (course : StepCourse invocation call (.returned (.error (.suspended wake))) middle) :
    (invocation.log.insertAll (records middle)).PutsOff invocation.nextOrdinal wake := by
  cases course with
  | planned recorded fresh found same course =>
      generalize planned : StepPlan.ofRecord recorded call.config.semantics invocation.now =
        plan at course
      generalize replied : Reply.returned (.error (.suspended wake)) = reply at course
      cases course with
      | replay operation =>
          rcases Operation.replay_error (Reply.returned.inj replied).symm with
            ⟨_, _, same⟩ | ⟨_, same⟩ <;> cases same
      | fail error =>
          cases replied
          cases recorded with
          | none => cases planned
          | some operation =>
              cases status : operation.status with
              | succeeded => simp [StepPlan.ofRecord, status] at planned
              | failed => simp [StepPlan.ofRecord, status] at planned
              | started => cases semantics : call.config.semantics <;>
                  simp [StepPlan.ofRecord, status, semantics] at planned
              | pending =>
                  simp only [StepPlan.ofRecord, status] at planned
                  split at planned
                  · cases planned
                  · next early =>
                      obtain ⟨readyAt, ready, _⟩ := Operation.readyAt_of_early early
                      rw [ready, Option.getD_some] at planned
                      cases planned
                      exact ⟨operation, found, status, ready⟩
      | reported operation noted => cases replied
      | annotated operation unnoted => cases replied
      | unannotated operation unnoted error faulty => cases replied
      | attempted number unfinished notDecreasing course =>
          cases course with
          | unmarked error guarded faulty => cases replied
          | crashed chatter logs dies => cases replied
          | lost chatter logs reading update outcome closes error faulty => cases replied
          | closed chatter logs reading update outcome closes diagnostic =>
              cases replied
              refine ⟨(call.base invocation).withState update, ?_, ?_⟩
              · rw [OperationLog.lookup?_insertAll,
                  call.latest?_closing invocation number logs reading update diagnostic,
                  Option.some_or]
              · unfold StepCall.closing? BodyOutcome.closing? at closes
                split at closes
                · cases closes
                · split at closes <;> cases closes
                · split at closes <;> cases closes
                  exact ⟨rfl, rfl⟩

/-- A wait call that suspends the invocation leaves its timer running until that time. -/
theorem WaitCourse.of_suspended {call : WaitCall} {middle : List (Occurrence V)}
    (course : WaitCourse invocation call (.error (.suspended wake)) middle) :
    (invocation.log.insertAll (records middle)).PutsOff invocation.nextOrdinal wake := by
  cases course with
  | planned recorded fresh found same course =>
      generalize planned : WaitPlan.ofRecord recorded invocation.now = plan at course
      cases course with
      | fail error =>
          cases recorded with
          | none => cases planned
          | some timer =>
              cases status : timer.status with
              | succeeded => simp [WaitPlan.ofRecord, status] at planned
              | failed => simp [WaitPlan.ofRecord, status] at planned
              | started => simp [WaitPlan.ofRecord, status] at planned
              | pending =>
                  simp only [WaitPlan.ofRecord, status] at planned
                  split at planned
                  · cases planned
                  · next early =>
                      obtain ⟨readyAt, ready, _⟩ := Operation.readyAt_of_early early
                      rw [ready, Option.getD_some] at planned
                      cases planned
                      exact ⟨timer, found, status, ready⟩
      | started notDue diagnostic =>
          refine ⟨call.timer invocation, ?_, rfl, rfl⟩
          rw [OperationLog.lookup?_insertAll]
          simp [Effect.record?, History.latest?, WaitCall.timer, Operation.timer]

end Courses

namespace Invocation

/-- The operation for which the invocation was suspended is in its log. -/
def Wakeful (invocation : Invocation V) : Prop :=
  ∀ wake, invocation.halt = some (.suspended wake) →
    ∃ ordinal, invocation.log.PutsOff ordinal wake

theorem haltOf?_eq_suspended {outcome : Except DurableError α} {wake : Instant}
    (halts : haltOf? outcome = some (.suspended wake)) : outcome = .error (.suspended wake) := by
  cases outcome with
  | ok value => cases halts
  | error error =>
      cases error <;> simp [haltOf?, Halt.ofError?, DurableError.isFatal] at halts
      rw [halts]

theorem wakeful_preserved :
    Preserved (fun _ : StepCall V => True) Wakeful Wakeful := by
  refine ⟨id, ?_, ?_, ?_⟩
  · intro before after emitted extension isQuiet place wakeful wake halted
    rw [extension.log, isQuiet.records, OperationLog.insertAll_nil]
    exact wakeful wake (place.halt.symm.trans halted)
  · intro before after call reply middle _ free course called wakeful
    have next : Wakeful after := by
      intro wake halted
      rw [called.halt] at halted
      rw [called.log, (reply.returning_quiet call.name after).records_append]
      cases reply with
      | crashed => cases halted
      | returned outcome =>
          obtain rfl := haltOf?_eq_suspended halted
          exact ⟨before.nextOrdinal, course.of_suspended⟩
    exact ⟨next, fun _ => next⟩
  · intro before after call outcome middle free course called wakeful wake halted
    rw [called.halt] at halted
    obtain rfl := haltOf?_eq_suspended halted
    refine ⟨before.nextOrdinal, ?_⟩
    rw [called.log]
    simpa [Effect.record?] using course.of_suspended

end Invocation

theorem PassEnd.verdict_finished {ending : PassEnd O} {executionId : String}
    {final : Invocation V} {result : ExecutionResult O}
    (verdict : ending.verdict executionId final = .finished result) :
    ∃ outcome, ending = .returned outcome ∧ result.operations = final.log.operations ∧
      (result.isTerminal = true ∧ result.nextReadyAt = final.log.nextReadyTime? ∨
        ∃ wake, final.halt = some (.suspended wake) ∧ result.status = .pending ∧
          result.nextReadyAt = some (final.log.nextReadyTime?.getD wake)) := by
  cases ending with
  | crashed => cases verdict
  | returned outcome =>
      refine ⟨outcome, rfl, ?_⟩
      simp only [PassEnd.verdict, Invocation.close, Snapshot.result] at verdict
      cases halted : final.halt with
      | none =>
          rw [halted] at verdict
          cases outcome <;> cases verdict <;> exact ⟨rfl, .inl ⟨rfl, rfl⟩⟩
      | some halt =>
          rw [halted] at verdict
          cases halt with
          | suspended wake =>
              cases verdict
              exact ⟨rfl, .inr ⟨wake, rfl, rfl, rfl⟩⟩
          | fatal error =>
              cases verdict
              exact ⟨rfl, .inl ⟨rfl, rfl⟩⟩
          | store error => cases verdict

theorem Invocation.Wakeful.nextReadyTime? {final : Invocation V} (wakeful : final.Wakeful)
    {wake : Instant} (halted : final.halt = some (.suspended wake)) :
    ∃ readyAt, final.log.nextReadyTime? = some readyAt := by
  obtain ⟨ordinal, record, found, pending, ready⟩ := wakeful wake halted
  cases next : final.log.nextReadyTime? with
  | some readyAt => exact ⟨readyAt, rfl⟩
  | none =>
      have member : record ∈ final.log.operations := List.mem_of_find?_eq_some found
      have asleep := History.nextReadyTime?_eq_none.mp next record member
      simp [History.wakeTime?, Operation.isTerminal, pending, OperationStatus.isTerminal,
        ready] at asleep

namespace Medium

theorem memory_appendAll (kept : List (String × Operation)) (executionId : String)
    (records : List Operation) :
    (memory kept).appendAll executionId records =
      memory (kept ++ records.map fun record => (executionId, record)) := by
  induction records generalizing kept with
  | nil => simp
  | cons record records induction =>
      rw [appendAll_cons, append, induction]
      simp

theorem history_memory {kept : List (String × Operation)} {executionId : String}
    {before : List Operation} (read : (memory kept).history executionId = .ok before)
    (records : List Operation) :
    ((memory kept).appendAll executionId records).history executionId =
      .ok (before ++ records) := by
  rw [memory_appendAll]
  simp only [history, Except.ok.injEq] at read ⊢
  rw [List.filter_append, List.map_append, read]
  simp [List.filter_map, Function.comp_def]

end Medium

/-- In memory a pending result has the next ready time of the history that is stored. -/
theorem Visit.nextReadyAt_of_history {visit : Visit V O} {executionId : String} {store : Store}
    {result : ExecutionResult O} {rows : List (String × Operation)}
    (inMemory : store.medium = .memory rows)
    (verdict : (visit.answer executionId store).verdict = .finished result)
    (pending : result.isTerminal = false) :
    ∃ readyAt history,
      (visit.answer executionId store).store.medium.history executionId = .ok history ∧
        result.status = .pending ∧ result.nextReadyAt = some readyAt ∧
        History.nextReadyTime? (History.latestStates history) = some readyAt := by
  rcases visit.answer_cases executionId store with
    ⟨error, after, failed, answered⟩ |
      ⟨log, after, ending, final, closing, loaded, ran, closingQuiet, _, sameStore, sameVerdict⟩
  · rw [answered] at verdict
    cases verdict
  · rw [sameVerdict] at verdict
    have kept := ((Invocation.reached_preserved (fun _ : StepCall V => True) _).and
      Invocation.wakeful_preserved).run visit.workflow.everyStep_true
        ⟨visit.begun_reached executionId log after, fun _ halted => by cases halted⟩
    rw [ran] at kept
    obtain ⟨reached, wakeful⟩ := kept
    obtain ⟨outcome, rfl, _, ⟨terminal, _⟩ | ⟨wake, halted, status, next⟩⟩ :=
      PassEnd.verdict_finished verdict
    · rw [pending] at terminal
      cases terminal
    · obtain ⟨readyAt, time⟩ := wakeful.nextReadyTime? halted
      obtain ⟨before, read, rfl, sameMedium, _⟩ := OperationLog.load_ok loaded
      rw [inMemory] at read
      have stored : final.store.medium.history executionId =
          .ok (before ++ records final.occurrences) := by
        rw [reached.medium, Visit.begun_store, Visit.begun_log, sameMedium, inMemory,
          OperationLog.ofRecords_executionId]
        exact Medium.history_memory read _
      refine ⟨readyAt, before ++ records final.occurrences, ?_, status, ?_, ?_⟩
      · rw [sameStore]
        exact stored
      · rw [next, time, Option.getD_some]
      · rw [← time, reached.log, Visit.begun_log]
        symm
        apply OperationLog.nextReadyTime?_of_history
        · exact (OperationLog.ofRecords_sorted executionId _).insertAll _
        · intro ordinal
          rw [OperationLog.lookup?_insertAll, OperationLog.lookup?_latestStates,
            History.latest?_append]

end Durable
