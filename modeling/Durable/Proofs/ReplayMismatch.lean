import Durable.Proofs.CallTraces
import Durable.Proofs.FixedPoint
import Mathlib.Data.List.TakeWhile

/-!
# Replay mismatches

A declaration is refused when its name was used before, or when the log holds something
else at its ordinal.  What is checked is the log that was loaded: the records that a pass
appends lie at ordinals that it has passed, so none of them is ever found by a later call.
A pass in which no declaration was refused has therefore declared what the log recorded.
-/

namespace Durable

variable {V O : Type}

open Occurrence

namespace DurableError

/-- The errors with which a declaration is refused. -/
def refuses : DurableError → Bool
  | .replayMismatch .. | .duplicateOperationName .. => true
  | _ => false

end DurableError

section Admitted

variable {invocation : Invocation V} {error : DurableError} {middle : List (Occurrence V)}

theorem StepCourse.not_refused {call : StepCall V}
    (course : StepCourse invocation call (.returned (.error error)) middle)
    (admitted : invocation.findRecord .step call.name =
      .ok (invocation.log.lookup? invocation.nextOrdinal)) : error.refuses = false := by
  generalize replied : Reply.returned (.error error) = reply at course
  cases course with
  | duplicate first known => simp [Invocation.findRecord, known] at admitted
  | mismatched operation fresh found other =>
      simp [Invocation.findRecord, fresh, found, other] at admitted
  | planned recorded fresh found same course =>
      generalize planned : StepPlan.ofRecord recorded call.config.semantics invocation.now =
        plan at course
      cases course with
      | replay operation =>
          rcases Operation.replay_error (Reply.returned.inj replied).symm with
            ⟨_, _, rfl⟩ | ⟨_, rfl⟩ <;> rfl
      | fail given =>
          cases replied
          obtain ⟨_, _, ⟨_, rfl⟩ | ⟨_, _, rfl⟩⟩ := StepPlan.ofRecord_eq_fail planned <;> rfl
      | reported operation noted => cases replied; rfl
      | annotated operation unnoted => cases replied; rfl
      | unannotated operation unnoted failure faulty => cases replied; rfl
      | attempted number unfinished notDecreasing course =>
          cases course with
          | unmarked failure guarded faulty => cases replied; rfl
          | crashed chatter logs dies => cases replied
          | lost chatter logs reading update outcome closes failure faulty => cases replied; rfl
          | closed chatter logs reading update outcome closes diagnostic =>
              cases replied
              unfold StepCall.closing? BodyOutcome.closing? at closes
              split at closes
              · cases closes
              · split at closes <;> cases closes
                rfl
              · split at closes <;> cases closes <;> rfl

theorem WaitCourse.not_refused {call : WaitCall}
    (course : WaitCourse invocation call (.error error) middle)
    (admitted : invocation.findRecord .timer call.name =
      .ok (invocation.log.lookup? invocation.nextOrdinal)) : error.refuses = false := by
  cases course with
  | duplicate first known => simp [Invocation.findRecord, known] at admitted
  | mismatched operation fresh found other =>
      simp [Invocation.findRecord, fresh, found, other] at admitted
  | planned recorded fresh found same course =>
      generalize planned : WaitPlan.ofRecord recorded invocation.now = plan at course
      cases course with
      | fail given =>
          unfold WaitPlan.ofRecord at planned
          split at planned
          · cases planned
          · split at planned
            · cases planned
            · split at planned <;> cases planned
              rfl
            · cases planned; rfl
            · cases planned; rfl
      | unelapsed timer failure faulty => rfl
      | started notDue diagnostic => rfl
      | lost written failure faulty => rfl

end Admitted

namespace Invocation

/-- Between the two states nothing was recorded, no body was begun and the store was not
called. -/
structure Inert (before after : Invocation V) : Prop where
  records : records after.occurrences = records before.occurrences
  bodies : bodies after.occurrences = bodies before.occurrences
  log : after.log = before.log
  store : after.store = before.store

theorem declare_settle_inert (invocation : Invocation V) (kind : OperationKind) (name : String)
    (outcome : Except DurableError α) {effect : Effect V} (silent : effect.record? = none)
    (idle : effect.isBody = false) :
    Inert invocation (((invocation.declare kind name).settle outcome).emit effect) := by
  have isQuiet := emit_quiet ((invocation.declare kind name).settle outcome) effect silent idle
  have emitted : (((invocation.declare kind name).settle outcome).emit effect).occurrences =
      invocation.occurrences ++ [⟨invocation.now, .declared invocation.nextOrdinal kind name⟩]
        ++ [⟨((invocation.declare kind name).settle outcome).now, effect⟩] := by
    rw [Invocation.emit, (settle_extends (invocation.declare kind name) outcome).occurrences,
      (declare_extends invocation kind name).occurrences, List.append_nil]
  constructor
  · rw [emitted, isQuiet.records_append, records_append]
    simp [Effect.record?]
  · rw [emitted, isQuiet.bodies_append, bodies_append]
    simp [Effect.isBody]
  · exact (settle_extends (invocation.declare kind name) outcome).log
  · exact settle_store (invocation.declare kind name) outcome

end Invocation

namespace MadeCall

variable {made : MadeCall V}

theorem of_refused (free : made.before.halt = none) {error : DurableError}
    (refused : made.before.findRecord made.declaration.kind made.declaration.name =
      .error error) :
    made.reply = .returned (.error error) ∧ Invocation.Inert made.before made.after := by
  obtain ⟨before, declaration⟩ := made
  cases declaration with
  | step call =>
      have refusedStep : before.findRecord .step call.name = .error error := refused
      have stepped : (before.callStep call.name call.config call.codec call.body) =
          (.returned (.error error), before.declare .step call.name) := by
        simp only [Invocation.callStep, show before.halt = none from free, refusedStep]
      simp only [reply, after, result, Invocation.step, stepped]
      exact ⟨rfl, before.declare_settle_inert _ _ _ rfl rfl⟩
  | wait call =>
      have refusedWait : before.findRecord .timer call.name = .error error := refused
      have waited : before.callWait call.name call.duration =
          (.error error, before.declare .timer call.name) := by
        simp only [Invocation.callWait, show before.halt = none from free, refusedWait]
      simp only [reply, after, result, Invocation.wait, waited]
      exact ⟨rfl, before.declare_settle_inert _ _ _ rfl rfl⟩

theorem called (free : made.before.halt = none) :
    ∃ emitted halt, Invocation.Called made.before made.after made.declaration.kind
        made.declaration.name emitted halt ∧
      ∀ record ∈ records emitted, record.ordinal = made.before.nextOrdinal := by
  cases declared : made.declaration with
  | step call =>
      obtain ⟨reply, middle, course, called, _⟩ := step_called free declared
      refine ⟨_, _, called, ?_⟩
      rw [(reply.returning_quiet call.name made.after).records_append]
      exact fun record member => (course.ownRecords.own record member).1
  | wait call =>
      obtain ⟨outcome, middle, course, called, _⟩ := wait_called free declared
      refine ⟨_, _, called, ?_⟩
      intro record member
      have own : record ∈ records middle := by simpa [Effect.record?] using member
      exact (course.ownRecords.own record own).1

theorem of_admitted (free : made.before.halt = none)
    (admitted : made.before.findRecord made.declaration.kind made.declaration.name =
      .ok (made.before.log.lookup? made.before.nextOrdinal))
    {error : DurableError} (replied : made.reply = .returned (.error error)) :
    error.refuses = false := by
  cases declared : made.declaration with
  | step call =>
      rw [declared] at admitted
      obtain ⟨reply, middle, course, _, same⟩ := step_called free declared
      rw [same, Reply.map_eq_error] at replied
      rw [replied] at course
      exact course.not_refused admitted
  | wait call =>
      rw [declared] at admitted
      obtain ⟨outcome, middle, course, _, same⟩ := wait_called free declared
      rw [same] at replied
      cases outcome with
      | ok value => cases replied
      | error given =>
          cases replied
          exact course.not_refused admitted

end MadeCall

namespace Invocation

/-- The place of an invocation that has made the given declarations over a loaded log: it
knows the first use of every name, and behind them the log is as it was loaded. -/
structure Declared (loaded : OperationLog) (declarations : List (Declaration V))
    (invocation : Invocation V) : Prop where
  position : invocation.nextOrdinal = declarations.length
  firstUse : ∀ name,
    invocation.declaredAt? name = declarations.findIdx? fun earlier => earlier.name == name
  unread : ∀ ordinal, declarations.length ≤ ordinal →
    invocation.log.lookup? ordinal = loaded.lookup? ordinal

namespace Declared

variable {loaded : OperationLog} {declarations : List (Declaration V)}
  {before after : Invocation V}

theorem idle (declared : Declared loaded declarations before) (idle : Idle before after) :
    Declared loaded declarations after := by
  constructor
  · rw [idle.place.nextOrdinal, declared.position]
  · intro name
    rw [declaredAt?, idle.place.names, ← declaredAt?, declared.firstUse]
  · intro ordinal ahead
    rw [idle.log, declared.unread ordinal ahead]

theorem made {made : MadeCall V} (declared : Declared loaded declarations made.before)
    (free : made.before.halt = none) :
    Declared loaded (declarations ++ [made.declaration]) made.after := by
  obtain ⟨emitted, halt, called, own⟩ := MadeCall.called free
  constructor
  · rw [called.nextOrdinal, declared.position, List.length_append, List.length_singleton]
  · intro name
    rw [declaredAt?, called.names, ← declaredAt?, declaredAt?_declare, declared.firstUse,
      declared.position, List.findIdx?_append]
    by_cases same : made.declaration.name = name <;> simp [List.findIdx?_cons, same]
  · intro ordinal ahead
    rw [List.length_append, List.length_singleton] at ahead
    rw [called.log, OperationLog.lookup?_insertAll, History.latest?_eq_none, Option.none_or,
      declared.unread ordinal (by omega)]
    intro record member here
    have position := declared.position
    have ordinal := own record member
    omega

end Declared

end Invocation

namespace Workflow

/-- Before each call of a pass that no halt stops, the calls before it have been
declared. -/
theorem calls_declared {workflow : Workflow V O} {before : Invocation V}
    {loaded : OperationLog} {declarations : List (Declaration V)}
    (declared : Invocation.Declared loaded declarations before)
    {passed later : List (MadeCall V)} {made : MadeCall V}
    (split : workflow.calls before = passed ++ made :: later)
    (free : made.before.halt = none) :
    Invocation.Declared loaded (declarations ++ passed.map MadeCall.declaration)
      made.before := by
  induction passed generalizing workflow before declarations with
  | nil =>
      rw [List.map_nil, List.append_nil]
      exact declared.idle (calls_head_idle split)
  | cons head passed induction =>
      have first : workflow.calls before = [] ++ head :: (passed ++ made :: later) := split
      rcases calls_split first with ⟨_, none, _⟩ | ⟨rest, _, same, _⟩
      · simp at none
      · have member : made ∈ rest.calls head.after := by rw [← same]; simp
        have headFree : head.before.halt = none := by
          cases halted : head.before.halt with
          | none => rfl
          | some halt =>
              have idle := (MadeCall.of_halted halted).2
              have stays := calls_halted (idle.place.halt.trans halted) member
              simp [free] at stays
        have headDeclared := (declared.idle (calls_head_idle split)).made headFree
        have rest := induction headDeclared same.symm
        rwa [List.append_assoc] at rest

end Workflow

namespace OperationLog

/-- Why a declaration that follows some others is refused: its name was used before, or the
loaded log holds something else at its ordinal. -/
def refusal? (loaded : OperationLog) (earlier : List (Declaration V))
    (declaration : Declaration V) : Option DurableError :=
  match earlier.findIdx? fun other => other.name == declaration.name with
  | some first => some (.duplicateOperationName declaration.name first)
  | none =>
    match loaded.lookup? earlier.length with
    | none => none
    | some operation =>
      if operation.kind = declaration.kind ∧ operation.name = declaration.name then none
      else
        some (.replayMismatch earlier.length operation.kind operation.name declaration.kind
          declaration.name)

variable {loaded : OperationLog} {earlier : List (Declaration V)} {declaration : Declaration V}

theorem refusal?_eq_duplicate {name : String} {first : Nat} :
    loaded.refusal? earlier declaration = some (.duplicateOperationName name first) ↔
      name = declaration.name ∧
        (earlier.findIdx? fun other => other.name == declaration.name) = some first := by
  unfold refusal?
  split
  · next found used => simp [used, eq_comm]
  · next unused =>
      split
      · simp [unused]
      · split <;> simp [unused]

theorem refusal?_eq_mismatch {ordinal : Nat} {recordedKind declaredKind : OperationKind}
    {recordedName declaredName : String} :
    loaded.refusal? earlier declaration =
        some (.replayMismatch ordinal recordedKind recordedName declaredKind declaredName) ↔
      ordinal = earlier.length ∧ declaredKind = declaration.kind ∧
        declaredName = declaration.name ∧
        (∀ other ∈ earlier, other.name ≠ declaration.name) ∧
        ∃ operation, loaded.lookup? ordinal = some operation ∧
          operation.kind = recordedKind ∧ operation.name = recordedName ∧
          ¬(recordedKind = declaredKind ∧ recordedName = declaredName) := by
  unfold refusal?
  split
  · next first used =>
      obtain ⟨found, same, _⟩ := List.findIdx?_eq_some_iff_getElem.mp used
      simp only [Option.some.injEq, reduceCtorEq, false_iff, not_and]
      intro _ _ _ unused
      exact absurd (by simpa using same) (unused _ (List.getElem_mem found))
  · next unused =>
      have fresh : ∀ other ∈ earlier, other.name ≠ declaration.name := by
        simpa using List.findIdx?_eq_none_iff.mp unused
      split
      · next absent =>
          simp only [reduceCtorEq, false_iff, not_and]
          rintro rfl _ _ _
          simp [absent]
      · next operation found =>
          split
          · next same =>
              simp only [reduceCtorEq, false_iff, not_and]
              rintro rfl rfl rfl _ ⟨other, foundOther, rfl, rfl, differs⟩
              rw [found, Option.some.injEq] at foundOther
              subst foundOther
              exact differs same.1 same.2
          · next differs =>
              simp only [Option.some.injEq, DurableError.replayMismatch.injEq]
              constructor
              · rintro ⟨rfl, rfl, rfl, rfl, rfl⟩
                exact ⟨rfl, rfl, rfl, fresh, operation, found, rfl, rfl, differs⟩
              · rintro ⟨rfl, rfl, rfl, _, other, foundOther, rfl, rfl, _⟩
                rw [found, Option.some.injEq] at foundOther
                subst foundOther
                exact ⟨rfl, rfl, rfl, rfl, rfl⟩

theorem refuses_of_refusal? {error : DurableError}
    (refused : loaded.refusal? earlier declaration = some error) : error.refuses = true := by
  unfold refusal? at refused
  split at refused
  · cases refused; rfl
  · split at refused
    · cases refused
    · split at refused <;> cases refused
      rfl

theorem of_not_refused (admitted : loaded.refusal? earlier declaration = none) :
    (∀ other ∈ earlier, other.name ≠ declaration.name) ∧
      ∀ operation, loaded.lookup? earlier.length = some operation →
        operation.kind = declaration.kind ∧ operation.name = declaration.name := by
  unfold refusal? at admitted
  split at admitted
  · cases admitted
  · next unused =>
      refine ⟨by simpa using List.findIdx?_eq_none_iff.mp unused, ?_⟩
      intro operation found
      simp only [found] at admitted
      split at admitted
      · next same => exact same
      · cases admitted

end OperationLog

theorem Invocation.Declared.findRecord {loaded : OperationLog}
    {declarations : List (Declaration V)} {invocation : Invocation V}
    (declared : Declared loaded declarations invocation) (declaration : Declaration V) :
    invocation.findRecord declaration.kind declaration.name =
      match loaded.refusal? declarations declaration with
      | some error => .error error
      | none => .ok (invocation.log.lookup? invocation.nextOrdinal) := by
  have unread := declared.unread _ (Nat.le_refl _)
  rw [Invocation.findRecord, declared.firstUse, declared.position, unread,
    OperationLog.refusal?]
  cases declarations.findIdx? fun other => other.name == declaration.name with
  | some first => rfl
  | none =>
      cases loaded.lookup? declarations.length with
      | none => rfl
      | some operation =>
          by_cases same : operation.kind = declaration.kind ∧ operation.name = declaration.name
          · simp [same]
          · simp [same]

namespace MadeCall

variable {made : MadeCall V} {loaded : OperationLog} {declarations : List (Declaration V)}
  (declared : Invocation.Declared loaded declarations made.before)
  (free : made.before.halt = none) {error : DurableError}

include declared free

/-- A call that no halt stops is refused exactly as the check says. -/
theorem refused_iff (refuses : error.refuses = true) :
    made.reply = .returned (.error error) ↔
      loaded.refusal? declarations made.declaration = some error := by
  have found := declared.findRecord made.declaration
  cases refused : loaded.refusal? declarations made.declaration with
  | none =>
      rw [refused] at found
      simp only [reduceCtorEq, iff_false]
      intro replied
      simp [of_admitted free found replied] at refuses
  | some given =>
      rw [refused] at found
      rw [(of_refused free found).1]
      simp

theorem inert_of_refused (refuses : error.refuses = true)
    (replied : made.reply = .returned (.error error)) :
    Invocation.Inert made.before made.after := by
  have found := declared.findRecord made.declaration
  rw [(refused_iff declared free refuses).mp replied] at found
  exact (of_refused free found).2

end MadeCall

theorem DurableError.isFatal_of_refuses {error : DurableError} (refuses : error.refuses = true) :
    error.isFatal = true ∧ error.halts = true := by
  cases error <;> first | exact ⟨rfl, rfl⟩ | cases refuses

namespace Visit

/-- The declarations of a visit: the calls that no halt stopped, each at the ordinal that is
its position. -/
def declarations (visit : Visit V O) (executionId : String) (store : Store) :
    List (Declaration V) :=
  ((visit.calls executionId store).takeWhile fun made => made.before.halt.isNone).map
    MadeCall.declaration

theorem begun_declared (visit : Visit V O) (executionId : String) (log : OperationLog)
    (store : Store) :
    Invocation.Declared log [] (visit.begun executionId log store) :=
  ⟨rfl, fun _ => rfl, fun _ _ => rfl⟩

variable {visit : Visit V O} {executionId : String} {store after : Store} {log : OperationLog}

theorem calls_declared (loaded : OperationLog.load store executionId = (.ok log, after))
    {passed later : List (MadeCall V)} {made : MadeCall V}
    (split : visit.calls executionId store = passed ++ made :: later)
    (free : made.before.halt = none) :
    Invocation.Declared log (passed.map MadeCall.declaration) made.before := by
  simp only [calls, loaded] at split
  exact Workflow.calls_declared (visit.begun_declared executionId log after) split free

theorem failed_of_fatal {result : ExecutionResult O}
    (finished : (visit.answer executionId store).verdict = .finished result)
    {made : MadeCall V} (member : made ∈ visit.calls executionId store)
    (free : made.before.halt = none) {error : DurableError} (fatal : error.isFatal = true)
    (replied : made.reply = .returned (.error error)) : result.status = .failed := by
  obtain ⟨log, after, loaded, made⟩ := mem_calls member
  obtain ⟨passed, later, split⟩ := List.append_of_mem made
  have halted := MadeCall.halt_after free replied
  rw [Invocation.haltOf?_of_isFatal fatal] at halted
  rcases Workflow.calls_split split with ⟨crashed, _⟩ | ⟨rest, _, _, ran, _⟩
  · rw [replied] at crashed
    cases crashed
  · obtain ⟨outcome, ended, restRan, haltedEnd, _⟩ := rest.run_halted halted
    obtain ⟨ending, final, closing, ranHere, _, _, _, verdict⟩ := visit.answer_of_loaded loaded
    rw [ran, restRan] at ranHere
    cases ranHere
    rw [verdict] at finished
    simp only [PassEnd.verdict, Invocation.close, haltedEnd, Snapshot.result] at finished
    cases finished
    rfl

theorem of_declarations {ordinal : Nat} {declaration : Declaration V}
    (declared : (visit.declarations executionId store)[ordinal]? = some declaration) :
    ∃ passed made later, visit.calls executionId store = passed ++ made :: later ∧
      made.before.halt = none ∧ made.declaration = declaration ∧
      passed.map MadeCall.declaration =
        (visit.declarations executionId store).take ordinal := by
  obtain ⟨bound, here⟩ := List.getElem?_eq_some_iff.mp declared
  have whole := List.take_append_drop ordinal (visit.declarations executionId store)
  rw [List.drop_eq_getElem_cons bound, here] at whole
  obtain ⟨passed, rest, taken, same, restSame⟩ := List.map_eq_append_iff.mp whole.symm
  obtain ⟨made, later, rfl, madeSame, _⟩ := List.map_eq_cons_iff.mp restSame
  have free : made.before.halt.isNone = true := by
    have member : made ∈ (visit.calls executionId store).takeWhile
        fun made => made.before.halt.isNone := by
      simp [taken]
    exact List.mem_takeWhile_imp (p := fun made : MadeCall V => made.before.halt.isNone) member
  refine ⟨passed, made, later ++ (visit.calls executionId store).dropWhile
    fun made => made.before.halt.isNone, ?_, Option.isNone_iff_eq_none.mp free, madeSame, same⟩
  rw [← List.cons_append, ← List.append_assoc, ← taken, List.takeWhile_append_dropWhile]

end Visit

/-- Replay mismatches are detected exactly.  Over any store, in any visit that loads its log,
a call that no halt stops stands at the ordinal that counts the calls before it.  It is
refused as a duplicate if and only if one of them declared its name, with the ordinal of
the first one that did, and it is refused as a mismatch if and only if none of them did and
the loaded log holds an operation of another kind or name at its ordinal, with both kinds
and names.  A call that is refused appends nothing and runs no body.  So in a visit that
ends as pending or succeeded, or that no call failed, the declared names are distinct, and
every declaration agrees with the operation that was loaded at its ordinal. -/
theorem replay_mismatch_is_exact (visit : Visit V O) {executionId : String}
    {store after : Store} {log : OperationLog}
    (loaded : OperationLog.load store executionId = (.ok log, after)) :
    (∀ passed made later, visit.calls executionId store = passed ++ made :: later →
        made.before.halt = none →
        made.before.nextOrdinal = passed.length ∧
        (∀ ordinal recordedKind recordedName declaredKind declaredName,
          made.reply = .returned (.error (.replayMismatch ordinal recordedKind recordedName
              declaredKind declaredName)) ↔
            ordinal = passed.length ∧ declaredKind = made.declaration.kind ∧
              declaredName = made.declaration.name ∧
              (∀ earlier ∈ passed, earlier.declaration.name ≠ made.declaration.name) ∧
              ∃ operation, log.lookup? ordinal = some operation ∧
                operation.kind = recordedKind ∧ operation.name = recordedName ∧
                ¬(recordedKind = declaredKind ∧ recordedName = declaredName)) ∧
        (∀ name first,
          made.reply = .returned (.error (.duplicateOperationName name first)) ↔
            name = made.declaration.name ∧
              (passed.findIdx? fun earlier =>
                earlier.declaration.name == made.declaration.name) = some first) ∧
        ∀ error, error.refuses = true → made.reply = .returned (.error error) →
          Invocation.Inert made.before made.after) ∧
      ∀ result, (visit.answer executionId store).verdict = .finished result →
        (result.status = .failed → ∀ made ∈ visit.calls executionId store, ¬made.Halts) →
        ((visit.declarations executionId store).map Declaration.name).Nodup ∧
          ∀ ordinal declaration operation,
            (visit.declarations executionId store)[ordinal]? = some declaration →
            log.lookup? ordinal = some operation →
            operation.kind = declaration.kind ∧ operation.name = declaration.name := by
  constructor
  · intro passed made later split free
    have declared := Visit.calls_declared loaded split free
    refine ⟨by rw [declared.position, List.length_map], ?_, ?_, ?_⟩
    · intro ordinal recordedKind recordedName declaredKind declaredName
      rw [made.refused_iff declared free rfl, OperationLog.refusal?_eq_mismatch, List.length_map]
      simp
    · intro name first
      rw [made.refused_iff declared free rfl, OperationLog.refusal?_eq_duplicate,
        List.findIdx?_map]
      rfl
    · intro error refuses replied
      exact made.inert_of_refused declared free refuses replied
  · intro result finished ownError
    -- No declaration was refused: the refusal would have failed the visit.
    have admitted : ∀ ordinal declaration,
        (visit.declarations executionId store)[ordinal]? = some declaration →
        log.refusal? ((visit.declarations executionId store).take ordinal) declaration =
          none := by
      intro ordinal declaration declared
      obtain ⟨passed, made, later, split, free, rfl, same⟩ := Visit.of_declarations declared
      rw [← same]
      cases refused : log.refusal? (passed.map MadeCall.declaration) made.declaration with
      | none => rfl
      | some error =>
          have refuses := OperationLog.refuses_of_refusal? refused
          have replied :=
            (made.refused_iff (Visit.calls_declared loaded split free) free refuses).mpr refused
          have member : made ∈ visit.calls executionId store := by simp [split]
          obtain ⟨fatal, halts⟩ := error.isFatal_of_refuses refuses
          have failed := Visit.failed_of_fatal finished member free fatal replied
          exact absurd ⟨error, replied, halts⟩ (ownError failed made member)
    constructor
    · rw [List.nodup_iff_getElem?_ne_getElem?]
      intro first second less bound
      rw [List.length_map] at bound
      have declared := List.getElem?_eq_getElem bound
      have fresh := (OperationLog.of_not_refused (admitted second _ declared)).1
      have earlier := List.getElem?_eq_getElem (less.trans bound)
      rw [List.getElem?_map, List.getElem?_map, declared, earlier]
      simpa using fresh _ (List.mem_take_iff_getElem.mpr ⟨first, by omega, rfl⟩)
    · intro ordinal declaration operation declared found
      have length : ((visit.declarations executionId store).take ordinal).length = ordinal := by
        obtain ⟨bound, _⟩ := List.getElem?_eq_some_iff.mp declared
        rw [List.length_take, Nat.min_eq_left (Nat.le_of_lt bound)]
      have agrees := (OperationLog.of_not_refused (admitted ordinal declaration declared)).2
      rw [length] at agrees
      exact agrees operation found

/-- A step is declared where a timer was recorded under the same name. -/
theorem recorded_timer_refuses_step :
    let timer := Operation.timer 0 "x" ⟨60, 0⟩
    let store := Store.ofMedium (.memory [("run", timer)]) .none
    ∃ made, Visit.ofOneStep.calls "run" store = [made] ∧
      made.reply = .returned (.error (.replayMismatch 0 .timer "x" .step "x")) ∧
      Invocation.Inert made.before made.after := by
  intro timer store
  obtain ⟨_, mismatch, _, inert⟩ :=
    (replay_mismatch_is_exact Visit.ofOneStep (Eq.refl (OperationLog.load store "run"))).1
      [] _ [] rfl rfl
  have refused := (mismatch 0 .timer "x" .step "x").mpr
    ⟨rfl, rfl, rfl, by simp, timer, rfl, rfl, rfl, by decide⟩
  exact ⟨_, rfl, refused, inert _ rfl refused⟩

end Durable
