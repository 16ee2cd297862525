import Durable.Proofs.Plan
import Durable.Proofs.NextReadyTime

/-!
# Positions in a log

An invocation that has passed some operations and finds others beyond them stands at a
position of its log.  What a call does there is decided by the record that it finds, and
moves the invocation one position further or writes the record of its position.
-/

namespace Durable

variable {V : Type}

open Occurrence

namespace OperationLog

/-- The log holds these operations, at the ordinals from zero on. -/
def Holds (log : OperationLog) (operations : List Operation) : Prop :=
  ∀ ordinal, log.lookup? ordinal = operations[ordinal]?

namespace Holds

variable {log : OperationLog} {done rest : List Operation}

theorem operations {states : List Operation} (holds : log.Holds states) (sorted : log.Sorted) :
    log.operations = states := by
  have shown : log.operations.map id = states := by
    apply operations_map sorted
    intro ordinal
    rw [Option.map_id, id, holds]
  rwa [List.map_id] at shown

theorem next (holds : log.Holds (done ++ rest)) : log.lookup? done.length = rest.head? := by
  rw [holds, List.getElem?_append_right (Nat.le_refl _), Nat.sub_self, List.head?_eq_getElem?]

theorem put (holds : log.Holds (done ++ rest)) (last : rest.length ≤ 1)
    {records : List Operation} {record : Operation}
    (own : ∀ operation ∈ records, operation.ordinal = done.length)
    (latest : History.latest? records done.length = some record) :
    (log.insertAll records).Holds (done ++ [record]) := by
  intro ordinal
  rw [lookup?_insertAll]
  by_cases here : ordinal = done.length
  · rw [here, latest]
    simp
  · have untouched : History.latest? records ordinal = none := by
      apply History.latest?_eq_none
      intro operation member same
      exact here (same.symm.trans (own operation member))
    rw [untouched, Option.none_or, holds]
    by_cases below : ordinal < done.length
    · rw [List.getElem?_append_left below, List.getElem?_append_left below]
    · rw [List.getElem?_eq_none (by simp; omega), List.getElem?_eq_none (by simp; omega)]

end Holds

end OperationLog

namespace Invocation

/-- No error has halted the invocation; it has passed the operations `done`, and its log
holds the operations `rest` beyond them. -/
structure Stands (done rest : List Operation) (invocation : Invocation V) : Prop where
  free : invocation.halt = none
  holds : invocation.log.Holds (done ++ rest)
  ordinal : invocation.nextOrdinal = done.length
  names : ∀ name, invocation.declaredAt? name = Plan.declaredAt? done name

theorem Stands.begun {visit : Visit V O} {executionId : String} {log : OperationLog}
    {store : Store} {operations : List Operation} (holds : log.Holds operations) :
    (visit.begun executionId log store).Stands [] operations := by
  constructor
  · rfl
  · exact holds
  · rfl
  · intro name
    rfl

namespace Stands

variable {done rest : List Operation} {before after : Invocation V}

theorem quiet (stands : before.Stands done rest) {emitted : List (Occurrence V)}
    (extension : Extends before after emitted) (isQuiet : Quiet emitted)
    (place : SamePlace before after) : after.Stands done rest := by
  constructor
  · exact place.halt.trans stands.free
  · rw [extension.log, isQuiet.records, OperationLog.insertAll_nil]
    exact stands.holds
  · exact place.nextOrdinal.trans stands.ordinal
  · intro name
    rw [← stands.names, Invocation.declaredAt?, place.names, ← Invocation.declaredAt?]

theorem logCall (stands : before.Stands done rest) (level : LogLevel) (message : String) :
    (before.logCall level message).Stands done rest := by
  obtain ⟨chatter, logs, extension, place⟩ := Invocation.logCall_course before level message
  exact stands.quiet extension logs.quiet place

theorem observe (stands : before.Stands done rest) :
    (before.emit (.observed before.observation)).Stands done rest :=
  stands.quiet (.emit before _ rfl) (emit_quiet before _ rfl rfl) ⟨rfl, rfl, rfl⟩

theorem advance (stands : before.Stands done rest) (duration : Duration) :
    (before.advance duration).Stands done rest :=
  stands.quiet (advance_extends before duration) ⟨rfl, rfl⟩ ⟨rfl, rfl, rfl⟩

theorem found (stands : before.Stands done rest) :
    before.log.lookup? before.nextOrdinal = rest.head? := by
  rw [stands.ordinal]
  exact stands.holds.next

variable {kind : OperationKind} {name : String} {emitted : List (Occurrence V)}
  {halt : Option Halt}

theorem unwritten (stands : before.Stands done rest)
    (called : Called before after kind name emitted halt) (silent : records emitted = []) :
    after.log.Holds (done ++ rest) := by
  rw [called.log, silent, OperationLog.insertAll_nil]
  exact stands.holds

theorem wrote (stands : before.Stands done rest) (last : rest.length ≤ 1)
    (called : Called before after kind name emitted halt) {record : Operation}
    (own : ∀ operation ∈ records emitted, operation.ordinal = before.nextOrdinal)
    (latest : History.latest? (records emitted) before.nextOrdinal = some record) :
    after.log.Holds (done ++ [record]) := by
  rw [stands.ordinal] at own latest
  rw [called.log]
  exact stands.holds.put last own latest

theorem wroteOne (stands : before.Stands done rest) (last : rest.length ≤ 1)
    (called : Called before after kind name emitted halt) {record : Operation}
    (only : records emitted = [record]) (own : record.ordinal = before.nextOrdinal) :
    after.log.Holds (done ++ [record]) := by
  apply stands.wrote last called
  · intro operation member
    rw [only, List.mem_singleton] at member
    rw [member]
    exact own
  · rw [only, ← List.nil_append [record], History.latest?_append_singleton, if_pos own]

theorem proceed (stands : before.Stands done rest) {record : Operation}
    {later : List Operation} (called : Called before after kind record.name emitted none)
    (holds : after.log.Holds (done ++ record :: later)) :
    after.Stands (done ++ [record]) later := by
  constructor
  · exact called.halt
  · rw [List.append_assoc, List.singleton_append]
    exact holds
  · rw [called.nextOrdinal, stands.ordinal, List.length_append, List.length_singleton]
  · intro other
    have names : after.declaredAt? other = (before.declare kind record.name).declaredAt? other := by
      rw [Invocation.declaredAt?, called.names, ← Invocation.declaredAt?]
    rw [names, declaredAt?_declare, stands.names, stands.ordinal, Plan.declaredAt?,
      Plan.declaredAt?, List.findIdx?_append]
    by_cases here : record.name = other <;> simp [here]

theorem base (stands : before.Stands done rest) (call : StepCall V) :
    call.base before = rest.head?.getD (.step done.length call.name) := by
  rw [← stands.found, ← stands.ordinal]
  rfl

/-- What a step call does at a position whose record, if there is one, is its own: it is
refused for its name, or it follows the record. -/
theorem step (stands : before.Stands done rest) {call : StepCall V} {reply : Reply V}
    {middle : List (Occurrence V)} (course : StepCourse before call reply middle)
    (fits : ∀ record, rest.head? = some record → record.kind = .step ∧ record.name = call.name) :
    (∃ first, Plan.declaredAt? done call.name = some first ∧
        reply = .returned (.error (.duplicateOperationName call.name first)) ∧ middle = []) ∨
      Plan.declaredAt? done call.name = none ∧
        PlanCourse before call (.ofRecord rest.head? call.config.semantics before.now) reply
          middle := by
  rw [← stands.names]
  cases course with
  | duplicate first known => exact .inl ⟨first, known, rfl, rfl⟩
  | mismatched operation fresh found other =>
      rw [stands.found] at found
      exact absurd (fits operation found) other
  | planned recorded fresh found same course =>
      rw [← stands.found, found]
      exact .inr ⟨fresh, course⟩

theorem wait (stands : before.Stands done rest) {call : WaitCall}
    {outcome : Except DurableError Unit} {middle : List (Occurrence V)}
    (course : WaitCourse before call outcome middle)
    (fits : ∀ record, rest.head? = some record → record.kind = .timer ∧ record.name = call.name) :
    (∃ first, Plan.declaredAt? done call.name = some first ∧
        outcome = .error (.duplicateOperationName call.name first) ∧ middle = []) ∨
      Plan.declaredAt? done call.name = none ∧
        TimerCourse before call (.ofRecord rest.head? before.now) outcome middle := by
  rw [← stands.names]
  cases course with
  | duplicate first known => exact .inl ⟨first, known, rfl, rfl⟩
  | mismatched operation fresh found other =>
      rw [stands.found] at found
      exact absurd (fits operation found) other
  | planned recorded fresh found same course =>
      rw [← stands.found, found]
      exact .inr ⟨fresh, course⟩

end Stands

end Invocation

end Durable
