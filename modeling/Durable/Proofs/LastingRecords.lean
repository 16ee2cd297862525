import Durable.Proofs.Durability
import Durable.Proofs.Independence

/-!
# Lasting records

A terminal record that was appended last of its ordinal stays the last one.  Whatever
requests of whatever executions are made of the store after it, a log that is loaded for its
execution holds what the medium gives back for it.
-/

namespace Durable

variable {V O : Type}

open Occurrence

namespace Medium

/-- If the history of the execution can be read, what the medium gives back for the record is
the last record of its ordinal. -/
def Retains (medium : Medium) (executionId : String) (record : Operation) : Prop :=
  ∀ history, medium.history executionId = .ok history →
    ∃ read, medium.GivesBack record read ∧
      History.latest? history record.ordinal = some read

namespace Retains

variable {medium : Medium} {executionId : String} {record : Operation}

theorem append (medium : Medium) (executionId : String) (record : Operation) :
    (medium.append executionId record).Retains executionId record := by
  intro history read
  obtain ⟨earlier, last, _, rfl, restores⟩ := history_append read
  refine ⟨last, ?_, ?_⟩
  · rw [GivesBack, restore_append]
    exact restores.givesBack
  · rw [History.latest?_append_singleton, if_pos restores.givesBack.ordinal]

theorem appendAll (retains : medium.Retains executionId record) {records : List Operation}
    (others : ∀ other ∈ records, other.ordinal ≠ record.ordinal) :
    (medium.appendAll executionId records).Retains executionId record := by
  intro history read
  obtain ⟨earlier, later, earlierRead, rfl, given⟩ := history_appendAll read
  obtain ⟨back, givesBack, latest⟩ := retains earlier earlierRead
  have untouched : History.latest? later record.ordinal = none := by
    have related := History.latest?_forall₂ (fun _ _ => GivesBack.ordinal) given record.ordinal
    rw [History.latest?_eq_none others] at related
    generalize History.latest? later record.ordinal = found at related ⊢
    cases related
    rfl
  refine ⟨back, ?_, ?_⟩
  · rw [GivesBack, restore_appendAll]
    exact givesBack
  · rw [History.latest?_append, untouched, Option.none_or, latest]

theorem appendAll_other (retains : medium.Retains executionId record) {other : String}
    (different : other ≠ executionId) (records : List Operation) :
    (medium.appendAll other records).Retains executionId record := by
  intro history read
  rw [history_of_part (part_appendAll_other medium different records)] at read
  obtain ⟨back, givesBack, latest⟩ := retains history read
  refine ⟨back, ?_, latest⟩
  rw [GivesBack, restore_appendAll]
  exact givesBack

end Retains

end Medium

namespace Invocation

/-- The log holds a terminal record, and so does the medium from which it will be loaded. -/
structure Retains (executionId : String) (record read : Operation) (invocation : Invocation V) :
    Prop where
  execution : invocation.log.executionId = executionId
  found : invocation.log.lookup? record.ordinal = some read
  stored : invocation.store.medium.Retains executionId record

variable {executionId : String} {record read : Operation}

theorem Retains.extend {before after : Invocation V} {emitted : List (Occurrence V)}
    (retains : before.Retains executionId record read) (extension : Extends before after emitted)
    (others : ∀ other ∈ records emitted, other.ordinal ≠ record.ordinal) :
    after.Retains executionId record read := by
  constructor
  · rw [extension.log, OperationLog.insertAll_executionId, retains.execution]
  · rw [extension.lookup?, History.latest?_eq_none others, Option.none_or, retains.found]
  · rw [extension.medium, retains.execution]
    exact retains.stored.appendAll others

theorem Called.retains {before after : Invocation V} {kind : OperationKind} {name : String}
    {emitted : List (Occurrence V)} {halt : Option Halt}
    (called : Called before after kind name emitted halt)
    (execution : before.log.executionId = executionId) {earlier : List Operation}
    (ends : Occurrence.records emitted = earlier ++ [record]) :
    after.Retains executionId record record := by
  constructor
  · rw [called.log, OperationLog.insertAll_executionId, execution]
  · rw [called.log, OperationLog.lookup?_insertAll, ends, History.latest?_append_singleton,
      if_pos rfl, Option.some_or]
  · have appended : Occurrence.records
        (⟨before.now, .declared before.nextOrdinal kind name⟩ :: emitted) =
          earlier ++ [record] := by simpa [Effect.record?] using ends
    rw [called.extension.medium, appended, execution, Medium.appendAll_append,
      Medium.appendAll_cons, Medium.appendAll_nil]
    exact Medium.Retains.append _ _ _

theorem retains_preserved (terminal : read.isTerminal = true) :
    Preserved (V := V) (fun _ => True) (Retains executionId record read)
      (Retains executionId record read) := by
  refine ⟨id, ?_, ?_, ?_⟩
  · intro before after emitted extension isQuiet place retains
    apply retains.extend extension
    simp [isQuiet.records]
  · intro before after call reply middle _ free course called retains
    suffices kept : after.Retains executionId record read from ⟨kept, fun _ => kept⟩
    apply retains.extend called.extension
    intro other member
    have settled : read.Settled fun _ => call.config.semantics := .inl terminal
    apply course.apart_of_settled retains.found settled rfl
    simpa [Effect.record?, (reply.returning_quiet call.name after).records] using member
  · intro before after call outcome middle free course called retains
    apply retains.extend called.extension
    intro other member
    have settled : read.Settled fun _ => .atMostOnce := .inl terminal
    apply course.apart_of_settled retains.found settled
    simpa [Effect.record?] using member

end Invocation

namespace Visit

variable {visit : Visit V O} {executionId : String} {store : Store} {record : Operation}

theorem begun_retains (retains : store.medium.Retains executionId record) {log : OperationLog}
    {after : Store} (loaded : OperationLog.load store executionId = (.ok log, after))
    (visit : Visit V O) :
    ∃ read, store.medium.GivesBack record read ∧
      (visit.begun executionId log after).Retains executionId record read := by
  obtain ⟨history, historyRead, rfl, medium, _⟩ := OperationLog.load_ok loaded
  obtain ⟨read, given, latest⟩ := retains history historyRead
  refine ⟨read, given, OperationLog.load_executionId loaded, ?_, ?_⟩
  · rw [begun_log, OperationLog.lookup?_latestStates, latest]
  · rw [begun_store, medium]
    exact retains

theorem answer_retains (terminal : record.isTerminal = true)
    (retains : store.medium.Retains executionId record) :
    (visit.answer executionId store).store.medium.Retains executionId record := by
  refine answer_induction (motive := fun _ medium => medium.Retains executionId record)
    visit.workflow.everyStep_true retains ?_
  intro log after loaded
  obtain ⟨read, given, begun⟩ := begun_retains retains loaded visit
  have ended : read.isTerminal = true := by rwa [Operation.isTerminal, given.status]
  exact ⟨_, _, Invocation.retains_preserved ended, begun,
    fun _ _ lasts _ _ _ => lasts.stored⟩

theorem calls_retain (terminal : record.isTerminal = true)
    (retains : store.medium.Retains executionId record) {made : MadeCall V}
    (member : made ∈ visit.calls executionId store) :
    ∃ read, store.medium.GivesBack record read ∧
      made.before.log.lookup? record.ordinal = some read := by
  obtain ⟨log, after, loaded, inPass⟩ := mem_calls member
  obtain ⟨read, given, begun⟩ := begun_retains retains loaded visit
  have ended : read.isTerminal = true := by rwa [Operation.isTerminal, given.status]
  have lasts := ((Invocation.retains_preserved ended).calls visit.workflow.everyStep_true begun
    inPass).1
  exact ⟨read, given, lasts.found⟩

theorem answer_retains_of_call {read : Operation} (terminal : read.isTerminal = true)
    {made : MadeCall V} (member : made ∈ visit.calls executionId store)
    (returns : made.reply ≠ .crashed) (retains : made.after.Retains executionId record read) :
    (visit.answer executionId store).store.medium.Retains executionId record := by
  obtain ⟨log, after, loaded, inPass⟩ := mem_calls member
  obtain ⟨ending, final, closing, ran, _, _, left, _⟩ := visit.answer_of_loaded loaded
  have lasts := (Invocation.retains_preserved terminal).runAfter visit.workflow.everyStep_true
    inPass returns retains
  rw [ran] at lasts
  rw [left]
  exact lasts.stored

theorem calls_frame {made : MadeCall V} (member : made ∈ visit.calls executionId store) :
    made.before.log.executionId = executionId ∧ made.before.store.faults = store.faults := by
  obtain ⟨log, after, loaded, inPass⟩ := mem_calls member
  have frame := OperationLog.load_frame store executionId
  rw [loaded] at frame
  have reached := ((Invocation.reached_preserved (fun _ => True) _).calls
    visit.workflow.everyStep_true (visit.begun_reached executionId log after) inPass).1
  constructor
  · rw [reached.log, OperationLog.insertAll_executionId, begun_log,
      OperationLog.load_executionId loaded]
  · rw [reached.faults, begun_store, frame.2]

end Visit

namespace Traffic

theorem storeAfter_restore (store : Store) (requests : List (Request V O)) :
    (storeAfter store requests).medium.restore = store.medium.restore := by
  induction requests generalizing store with
  | nil => rfl
  | cons request requests induction =>
      rw [storeAfter, induction, Request.answer, Visit.answer_medium, Medium.restore_appendAll]

/-- Whatever is asked of the store, it retains a terminal record. -/
theorem storeAfter_retains {executionId : String} {record : Operation} {store : Store}
    (terminal : record.isTerminal = true) (retains : store.medium.Retains executionId record)
    (requests : List (Request V O)) :
    (storeAfter store requests).medium.Retains executionId record := by
  induction requests generalizing store with
  | nil => exact retains
  | cons request requests induction =>
      apply induction
      by_cases same : request.executionId = executionId
      · subst same
        exact Visit.answer_retains terminal retains
      · rw [Request.answer, Visit.answer_medium]
        exact retains.appendAll_other same _

end Traffic

end Durable
