import Durable.Proofs.Session

/-!
# Ledgers

A ledger ties a trace to the latest records that it leaves.  What every part of a
pass keeps of it, and what does not depend on more of a record than comes back from
a medium, is kept by a whole session: a visit finds in its log what the earlier
visits have left.
-/

namespace Durable

variable {V O : Type}

open Occurrence

/-- The record that was read back has the attempt and the status of the written one. -/
def Operation.SameState (written read : Operation) : Prop :=
  read.attempt = written.attempt ∧ read.status = written.status

/-- A property of a trace and of the latest records that it leaves, where a function
finds the latest record of an ordinal. -/
structure Ledger (condition : StepCall V → Prop)
    (property : List (Occurrence V) → (Nat → Option Operation) → Prop) : Prop where
  quiet : ∀ {trace emitted : List (Occurrence V)} {latest : Nat → Option Operation},
    property trace latest → Quiet emitted → property (trace ++ emitted) latest
  step : ∀ {trace : List (Occurrence V)} {invocation : Invocation V} {call : StepCall V}
    {reply : Reply V} {middle : List (Occurrence V)},
    condition call → property trace invocation.log.lookup? →
    StepCourse invocation call reply middle →
    property (trace ++ middle) (invocation.log.insertAll (records middle)).lookup?
  wait : ∀ {trace : List (Occurrence V)} {invocation : Invocation V} {call : WaitCall}
    {outcome : Except DurableError Unit} {middle : List (Occurrence V)},
    property trace invocation.log.lookup? → WaitCourse invocation call outcome middle →
    property (trace ++ middle) (invocation.log.insertAll (records middle)).lookup?
  reread : ∀ {trace : List (Occurrence V)} {latest read : Nat → Option Operation},
    property trace latest →
    (∀ ordinal, Option.Rel Operation.SameState (latest ordinal) (read ordinal)) →
    property trace read

/-- What holds of a ledger between the visits of a session that began over this
medium.  When the records cannot be read, only the conclusion that was drawn from the
ledger earlier is left. -/
structure LedgerSession (executionId : String) (initial : Medium)
    (property : List (Occurrence V) → (Nat → Option Operation) → Prop)
    (conclusion : List (Occurrence V) → Prop) (trace : List (Occurrence V))
    (medium : Medium) : Prop where
  appended : medium = initial.appendAll executionId (records trace)
  concluded : conclusion trace
  ledger : ∀ history, medium.history executionId = .ok history →
    property trace (History.latest? history)

namespace Ledger

variable {condition : StepCall V → Prop}
  {property : List (Occurrence V) → (Nat → Option Operation) → Prop}
  {conclusion : List (Occurrence V) → Prop}

/-- Every part of a pass keeps the ledger, in which the earlier visits stand first. -/
theorem preserved (ledger : Ledger condition property) (earlier : List (Occurrence V)) :
    Invocation.Preserved condition
      (fun invocation => property (earlier ++ invocation.occurrences) invocation.log.lookup?)
      (fun invocation => property (earlier ++ invocation.occurrences)
        invocation.log.lookup?) := by
  refine ⟨id, ?_, ?_, ?_⟩
  · intro before after emitted extension isQuiet place holds
    rw [extension.occurrences, extension.log, isQuiet.records, OperationLog.insertAll_nil,
      ← List.append_assoc]
    exact ledger.quiet holds isQuiet
  · intro before after call reply middle allowed free course called holds
    have declaring : Quiet
        [(⟨before.now, .declared before.nextOrdinal .step call.name⟩ : Occurrence V)] :=
      ⟨rfl, rfl⟩
    have returning := reply.returning_quiet call.name after
    have stepped := ledger.quiet (ledger.step allowed (ledger.quiet holds declaring) course)
      returning
    suffices kept : property (earlier ++ after.occurrences) after.log.lookup? from
      ⟨kept, fun _ => kept⟩
    rw [called.extension.occurrences, called.extension.log]
    simpa [returning.records, Effect.record?] using stepped
  · intro before after call outcome middle free course called holds
    have declaring : Quiet
        [(⟨before.now, .declared before.nextOrdinal .timer call.name⟩ : Occurrence V)] :=
      ⟨rfl, rfl⟩
    have returning : Quiet
        [(⟨after.now, .waitReturned call.name outcome after.isReplaying⟩ : Occurrence V)] :=
      ⟨rfl, rfl⟩
    have waited := ledger.quiet (ledger.wait (ledger.quiet holds declaring) course) returning
    rw [called.extension.occurrences, called.extension.log]
    simpa [Effect.record?] using waited

theorem begun (ledger : Ledger condition property) {executionId : String} {initial : Medium}
    {trace : List (Occurrence V)} {store after : Store} {log : OperationLog}
    (session : LedgerSession executionId initial property conclusion trace store.medium)
    (loaded : OperationLog.load store executionId = (.ok log, after)) (visit : Visit V O) :
    property (trace ++ (visit.begun executionId log after).occurrences) log.lookup? := by
  obtain ⟨history, read, rfl, _⟩ := OperationLog.load_ok loaded
  have lookup := funext (OperationLog.lookup?_latestStates executionId history)
  rw [lookup]
  exact ledger.quiet (session.ledger history read) (visit.begun_quiet executionId _ after)

theorem visit (ledger : Ledger condition property)
    (concludes : ∀ {trace latest}, property trace latest → conclusion trace)
    {executionId : String} {initial : Medium} {trace : List (Occurrence V)} {store : Store}
    (session : LedgerSession executionId initial property conclusion trace store.medium)
    {visit : Visit V O} (each : visit.workflow.EveryStep condition) :
    LedgerSession executionId initial property conclusion
      (trace ++ (visit.answer executionId store).occurrences)
      (visit.answer executionId store).store.medium := by
  refine ⟨visit.appended session.appended, ?_, ?_⟩
  · refine Visit.answer_induction (motive := fun emitted _ => conclusion (trace ++ emitted))
      each (by rw [List.append_nil]; exact session.concluded) ?_
    intro log after loaded
    refine ⟨_, _, ledger.preserved trace, ledger.begun session loaded visit, ?_⟩
    intro ended closing holds closingQuiet _ _
    rw [← List.append_assoc]
    exact concludes (ledger.quiet holds closingQuiet)
  · refine Visit.answer_induction (motive := fun emitted medium => ∀ history,
      medium.history executionId = .ok history →
        property (trace ++ emitted) (History.latest? history))
      each (by rw [List.append_nil]; exact session.ledger) ?_
    intro log after loaded
    refine ⟨_, _, ledger.preserved trace, ledger.begun session loaded visit, ?_⟩
    intro ended closing holds closingQuiet sameLog sameMedium finalHistory finalRead
    obtain ⟨history, read, rfl, _⟩ := OperationLog.load_ok loaded
    rw [← List.append_assoc]
    apply ledger.reread (ledger.quiet holds closingQuiet)
    intro ordinal
    rw [sameMedium] at finalRead
    have reread := OperationLog.lookup?_reread read finalRead ordinal
    rw [← sameLog] at reread
    generalize History.latest? finalHistory ordinal = latest at reread ⊢
    generalize ended.log.lookup? ordinal = written at reread ⊢
    cases reread with
    | none => exact .none
    | some given =>
        rcases given with rfl | given
        · exact .some ⟨rfl, rfl⟩
        · exact .some ⟨given.attempt, given.status⟩

theorem session (ledger : Ledger condition property)
    (concludes : ∀ {trace latest}, property trace latest → conclusion trace)
    {executionId : String} {store : Store} (visits : List (Visit V O)) (nothing : conclusion [])
    (initially : ∀ history, store.medium.history executionId = .ok history →
      property [] (History.latest? history))
    (each : ∀ visit ∈ visits, visit.workflow.EveryStep condition) :
    LedgerSession executionId store.medium property conclusion
      (Session.occurrences executionId store visits)
      (Session.storeAfter executionId store visits).medium := by
  have visited := Session.preserved
    (fun trace visited => LedgerSession executionId store.medium property conclusion trace
      visited.medium)
    (fun visit member trace visited session => ledger.visit concludes session (each visit member))
    ⟨rfl, nothing, initially⟩
  rwa [List.nil_append] at visited

end Ledger

end Durable
