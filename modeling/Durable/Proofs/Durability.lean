import Durable.Proofs.PassCalls

/-!
# Observed outcomes are durable

An outcome with which the workflow goes on is recorded before the workflow sees it, and
its record is never written over.  Whatever workflows are run later, with whatever
faults and clocks, a call of the same kind, name and result type at the same ordinal
gets the same outcome, and no body runs for it.
-/

namespace Durable

variable {V O : Type}

open Occurrence

/-- Over a medium that held nothing of an execution, the history that is read after some
appends is what the medium gives back for them. -/
theorem Medium.latest?_related {initial : Medium} {executionId : String}
    {records history : List Operation} (empty : initial.history executionId = .ok [])
    (read : (initial.appendAll executionId records).history executionId = .ok history)
    (ordinal : Nat) :
    Option.Rel initial.GivesBack (History.latest? records ordinal)
      (History.latest? history ordinal) := by
  obtain ⟨earlier, later, earlierRead, rfl, given⟩ := history_appendAll read
  rw [empty, Except.ok.injEq] at earlierRead
  subst earlierRead
  exact History.latest?_forall₂ (fun _ _ => GivesBack.ordinal) given ordinal

/-- A log that is loaded in a session is what the medium gives back for the records that
the session has appended. -/
theorem OperationLog.load_related {initial : Medium} {store after : Store}
    {executionId : String} {records : List Operation} {log : OperationLog}
    (empty : initial.history executionId = .ok [])
    (appended : store.medium = initial.appendAll executionId records)
    (loaded : load store executionId = (.ok log, after)) (ordinal : Nat) :
    Option.Rel initial.GivesBack (History.latest? records ordinal) (log.lookup? ordinal) := by
  obtain ⟨history, read, rfl, _⟩ := load_ok loaded
  rw [appended] at read
  rw [lookup?_latestStates]
  exact Medium.latest?_related empty read ordinal

/-- The records of a session that began over this medium stand in order. -/
structure OrderlySession (executionId : String) (initial : Medium)
    (trace : List (Occurrence V)) (medium : Medium) : Prop where
  appended : medium = initial.appendAll executionId (records trace)
  orderly : Orderly fun ordinal => (History.latest? (records trace) ordinal).map Operation.name

namespace OrderlySession

variable {executionId : String} {initial : Medium} {trace : List (Occurrence V)} {store : Store}

theorem load_named {log : OperationLog} {after : Store}
    (session : OrderlySession executionId initial trace store.medium)
    (empty : initial.history executionId = .ok [])
    (loaded : OperationLog.load store executionId = (.ok log, after)) (ordinal : Nat) :
    log.named ordinal = (History.latest? (records trace) ordinal).map Operation.name := by
  have related := OperationLog.load_related empty session.appended loaded ordinal
  rw [OperationLog.named]
  generalize History.latest? (records trace) ordinal = latest at related ⊢
  generalize log.lookup? ordinal = found at related ⊢
  cases related with
  | none => rfl
  | some given =>
      obtain ⟨result, readyAt, rfl, _⟩ := given
      rfl

theorem regular {log : OperationLog} {after : Store}
    (session : OrderlySession executionId initial trace store.medium)
    (empty : initial.history executionId = .ok [])
    (loaded : OperationLog.load store executionId = (.ok log, after)) (visit : Visit V O) :
    (visit.begun executionId log after).Regular := by
  have named : log.named = _ := funext (session.load_named empty loaded)
  refine ⟨?_, fun _ => ⟨?_, ?_⟩, ?_⟩
  · rw [Visit.begun_log, named]
    exact session.orderly
  · intro ordinal below
    exact absurd below (Nat.not_lt_zero ordinal)
  · intro name
    have undeclared : (visit.begun executionId log after).declaredAt? name = none := rfl
    rw [undeclared]
    constructor
    · intro declared
      exact absurd rfl declared
    · rintro ⟨ordinal, below, _⟩
      exact absurd below (Nat.not_lt_zero ordinal)
  · rw [(visit.begun_quiet executionId log after).records]
    simp

theorem visit {semantics : String → StepSemantics} {visit : Visit V O}
    (session : OrderlySession executionId initial trace store.medium)
    (empty : initial.history executionId = .ok [])
    (steady : visit.workflow.EveryStep (StepCall.Steady semantics initial)) :
    OrderlySession executionId initial (trace ++ (visit.answer executionId store).occurrences)
      (visit.answer executionId store).store.medium := by
  refine ⟨visit.appended session.appended, ?_⟩
  refine Visit.answer_induction (motive := fun emitted _ => Orderly fun ordinal =>
    (History.latest? (records (trace ++ emitted)) ordinal).map Operation.name)
    steady (by rw [List.append_nil]; exact session.orderly) ?_
  intro log after loaded
  refine ⟨_, _, (Invocation.regular_preserved semantics).weaken fun _ steady => steady.semantics,
    session.regular empty loaded visit, ?_⟩
  intro ended closing orderly closingQuiet sameLog _
  have named : ended.log.named = fun ordinal =>
      (History.latest? (records (trace ++ (ended.occurrences ++ closing))) ordinal).map
        Operation.name := by
    funext ordinal
    have before := session.load_named empty loaded ordinal
    rw [OperationLog.named] at before ⊢
    rw [sameLog, OperationLog.lookup?_insertAll, ← List.append_assoc,
      closingQuiet.records_append, records_append, History.latest?_append]
    cases History.latest? (records ended.occurrences) ordinal with
    | some operation => rfl
    | none => simpa using before
  rw [← named]
  exact orderly

end OrderlySession

/-- The log finds `read` at the ordinal, and the session appended `written` there last. -/
structure Fixed (ordinal : Nat) (earlier : List Operation) (written read : Operation)
    (invocation : Invocation V) : Prop where
  found : invocation.log.lookup? ordinal = some read
  latest : History.latest? (earlier ++ records invocation.occurrences) ordinal = some written

namespace Fixed

variable {ordinal : Nat} {earlier : List Operation} {written read : Operation}

theorem call {before after : Invocation V} {emitted : List (Occurrence V)}
    (fixed : Fixed ordinal earlier written read before)
    (extension : Invocation.Extends before after emitted)
    (others : ∀ operation ∈ records emitted, operation.ordinal ≠ ordinal) :
    Fixed ordinal earlier written read after := by
  have untouched := History.latest?_eq_none others
  constructor
  · rw [extension.lookup?, untouched, Option.none_or]
    exact fixed.found
  · rw [extension.occurrences, records_append, ← List.append_assoc, History.latest?_append,
      untouched, Option.none_or]
    exact fixed.latest

theorem preserved {semantics : String → StepSemantics} (medium : Medium)
    (settled : read.Settled semantics) :
    Invocation.Preserved (StepCall.Steady (V := V) semantics medium)
      (Fixed ordinal earlier written read) (Fixed ordinal earlier written read) := by
  refine ⟨id, ?_, ?_, ?_⟩
  · intro before after emitted extension isQuiet place fixed
    apply fixed.call extension
    simp [isQuiet.records]
  · intro before after call reply middle steady free course called fixed
    suffices kept : Fixed ordinal earlier written read after from ⟨kept, fun _ => kept⟩
    apply fixed.call called.extension
    intro operation member
    apply course.apart_of_settled fixed.found settled steady.semantics
    simpa [Effect.record?, (reply.returning_quiet call.name after).records] using member
  · intro before after call outcome middle free course called fixed
    apply fixed.call called.extension
    intro operation member
    apply course.apart_of_settled fixed.found settled
    simpa [Effect.record?] using member

end Fixed

/-- The session has appended a settled record for the ordinal last. -/
structure SettledSession (executionId : String) (initial : Medium) (ordinal : Nat)
    (written : Operation) (trace : List (Occurrence V)) (medium : Medium) : Prop where
  appended : medium = initial.appendAll executionId (records trace)
  latest : History.latest? (records trace) ordinal = some written

namespace SettledSession

variable {executionId : String} {initial : Medium} {ordinal : Nat} {written : Operation}
  {trace : List (Occurrence V)} {store : Store}

theorem fixed {log : OperationLog} {after : Store}
    (session : SettledSession executionId initial ordinal written trace store.medium)
    (empty : initial.history executionId = .ok [])
    (loaded : OperationLog.load store executionId = (.ok log, after)) (visit : Visit V O) :
    ∃ read, initial.GivesBack written read ∧
      Fixed ordinal (records trace) written read (visit.begun executionId log after) := by
  have related := OperationLog.load_related empty session.appended loaded ordinal
  rw [session.latest] at related
  generalize found : log.lookup? ordinal = lookup at related
  cases related with
  | @some _ read given =>
      refine ⟨read, given, found, ?_⟩
      rw [(visit.begun_quiet executionId log after).records, List.append_nil]
      exact session.latest

theorem visit {semantics : String → StepSemantics} {visit : Visit V O}
    (session : SettledSession executionId initial ordinal written trace store.medium)
    (empty : initial.history executionId = .ok []) (settled : written.Settled semantics)
    (steady : visit.workflow.EveryStep (StepCall.Steady semantics initial)) :
    SettledSession executionId initial ordinal written
      (trace ++ (visit.answer executionId store).occurrences)
      (visit.answer executionId store).store.medium := by
  refine ⟨visit.appended session.appended, ?_⟩
  refine Visit.answer_induction (motive := fun emitted _ =>
    History.latest? (records (trace ++ emitted)) ordinal = some written)
    steady (by rw [List.append_nil]; exact session.latest) ?_
  intro log after loaded
  obtain ⟨read, given, begun⟩ := session.fixed empty loaded visit
  refine ⟨_, _, Fixed.preserved initial (given.settled.mpr settled), begun, ?_⟩
  intro ended closing fixed closingQuiet _ _
  rw [← List.append_assoc, closingQuiet.records_append, records_append]
  exact fixed.latest

end SettledSession

namespace OrderlySession

variable {executionId : String} {initial : Medium} {trace : List (Occurrence V)} {store : Store}
  {semantics : String → StepSemantics} {visit : Visit V O} {made : MadeCall V}

theorem call (session : OrderlySession executionId initial trace store.medium)
    (empty : initial.history executionId = .ok [])
    (steady : visit.workflow.EveryStep (StepCall.Steady semantics initial))
    (member : made ∈ visit.calls executionId store) :
    ∃ log after, OperationLog.load store executionId = (.ok log, after) ∧
      (visit.begun executionId log after).Reached made.before ∧ made.before.Regular ∧
      ∀ call, made.declaration = .step call → call.Steady semantics initial := by
  obtain ⟨log, after, loaded, inPass⟩ := Visit.mem_calls member
  have preserved := (Invocation.reached_preserved (StepCall.Steady semantics initial)
    (visit.begun executionId log after)).and
      ((Invocation.regular_preserved semantics).weaken fun _ steady => steady.semantics)
  obtain ⟨⟨reached, regular⟩, steadyCall⟩ := preserved.calls steady
    ⟨visit.begun_reached executionId log after, session.regular empty loaded visit⟩ inPass
  exact ⟨log, after, loaded, reached, regular, steadyCall⟩

/-- When a call returns an outcome with which the workflow goes on, the session has
appended a settled record from which the outcome is recalled. -/
theorem recorded (session : OrderlySession executionId initial trace store.medium)
    (empty : initial.history executionId = .ok [])
    (steady : visit.workflow.EveryStep (StepCall.Steady semantics initial))
    (member : made ∈ visit.calls executionId store) (free : made.before.halt = none)
    {outcome : Except DurableError (Option V)} (returned : made.reply = .returned outcome)
    (goesOn : Invocation.haltOf? outcome = none) :
    made.after.store.medium =
        store.medium.appendAll executionId (records made.after.occurrences) ∧
      ∃ written read, written.Settled semantics ∧ read.Settled semantics ∧
        written.kind = made.declaration.kind ∧ written.name = made.declaration.name ∧
        (∀ again, initial.GivesBack written again →
          made.declaration.outcomeIn? again = some outcome) ∧
        Fixed made.before.nextOrdinal (records trace) written read made.after := by
  obtain ⟨log, after, loaded, reached, regular, steadyCall⟩ :=
    session.call empty steady member
  obtain ⟨emitted, called, record, kind, name, settled, leaves⟩ :=
    made.settles free steadyCall returned goesOn
  have frame := OperationLog.load_frame store executionId
  rw [loaded] at frame
  have reachedAfter := reached.extend called.extension
  have appended : made.after.store.medium =
      store.medium.appendAll executionId (records made.after.occurrences) := by
    rw [reachedAfter.medium, Visit.begun_store, frame.1, Visit.begun_log,
      OperationLog.load_executionId loaded]
  refine ⟨appended, ?_⟩
  have found : made.after.log.lookup? made.before.nextOrdinal = some record := by
    rw [called.log]
    exact leaves.found
  -- Nothing was appended at the ordinal before the call.
  have ahead : History.latest? (records made.before.occurrences) made.before.nextOrdinal =
      none := by
    apply History.latest?_eq_none
    intro operation earlier
    have below := regular.behind operation earlier
    omega
  cases leaves with
  | recalled unwritten foundBefore told =>
      rw [reached.log, OperationLog.lookup?_insertAll, ahead, Option.none_or,
        Visit.begun_log] at foundBefore
      have related :=
        OperationLog.load_related empty session.appended loaded made.before.nextOrdinal
      rw [foundBefore] at related
      generalize latest : History.latest? (records trace) made.before.nextOrdinal = found?
        at related
      cases related with
      | @some written _ given =>
          have facts : written.kind = record.kind ∧ written.name = record.name := by
            obtain ⟨result, readyAt, rfl, _⟩ := given
            exact ⟨rfl, rfl⟩
          refine ⟨written, record, given.settled.mp settled, settled, facts.1.trans kind,
            facts.2.trans name, ?_, found, ?_⟩
          · intro again givenAgain
            rw [given.outcomeIn?_unique givenAgain]
            exact told
          · rw [called.records, unwritten, List.append_nil, History.latest?_append, ahead,
              Option.none_or, latest]
  | written latest told =>
      refine ⟨record, record, settled, settled, kind, name, told, found, ?_⟩
      rw [called.records, ← List.append_assoc, History.latest?_append, latest, Option.some_or]

end OrderlySession

namespace SettledSession

variable {executionId : String} {initial : Medium} {ordinal : Nat} {written : Operation}
  {trace : List (Occurrence V)} {store : Store} {semantics : String → StepSemantics}
  {visit : Visit V O} {made : MadeCall V}

theorem call (session : SettledSession executionId initial ordinal written trace store.medium)
    (empty : initial.history executionId = .ok []) (settled : written.Settled semantics)
    (steady : visit.workflow.EveryStep (StepCall.Steady semantics initial))
    (member : made ∈ visit.calls executionId store) :
    ∃ read, initial.GivesBack written read ∧
      made.before.log.lookup? ordinal = some read := by
  obtain ⟨log, after, loaded, inPass⟩ := Visit.mem_calls member
  obtain ⟨read, given, begun⟩ := session.fixed empty loaded visit
  have fixed := ((Fixed.preserved initial (given.settled.mpr settled)).calls steady begun
    inPass).1
  exact ⟨read, given, fixed.found⟩

theorem of_call {trace : List (Occurrence V)} {read : Operation}
    (appended : store.medium = initial.appendAll executionId (records trace))
    (steady : visit.workflow.EveryStep (StepCall.Steady semantics initial))
    (member : made ∈ visit.calls executionId store) (returns : made.reply ≠ .crashed)
    (settled : read.Settled semantics)
    (fixed : Fixed ordinal (records trace) written read made.after) :
    SettledSession executionId initial ordinal written
      (trace ++ (visit.answer executionId store).occurrences)
      (visit.answer executionId store).store.medium := by
  refine ⟨visit.appended appended, ?_⟩
  obtain ⟨ended, closing, lasts, closingQuiet, occurrences⟩ :=
    Visit.answer_after (Fixed.preserved initial settled) steady member returns fixed
  rw [occurrences, ← List.append_assoc, closingQuiet.records_append, records_append]
  exact lasts.latest

end SettledSession

theorem Invocation.Regular.fresh {invocation : Invocation V} (regular : invocation.Regular)
    (free : invocation.halt = none) {record : Operation}
    (found : invocation.log.lookup? invocation.nextOrdinal = some record) :
    invocation.declaredAt? record.name = none := by
  by_contra declared
  obtain ⟨ordinal, below, named⟩ := ((regular.placed free).declared record.name).mp declared
  have here : invocation.log.named invocation.nextOrdinal = some record.name := by
    rw [OperationLog.named, found, Option.map_some]
  have same := regular.orderly.distinct named here
  omega

theorem OrderlySession.session {semantics : String → StepSemantics} {executionId : String}
    {store : Store} (visits : List (Visit V O))
    (empty : store.medium.history executionId = .ok [])
    (steady : ∀ visited ∈ visits,
      visited.workflow.EveryStep (StepCall.Steady semantics store.medium)) :
    OrderlySession executionId store.medium (Session.occurrences executionId store visits)
      (Session.storeAfter executionId store visits).medium := by
  have initially : OrderlySession executionId store.medium ([] : List (Occurrence V))
      store.medium := by
    refine ⟨rfl, fun _ _ => rfl, ?_⟩
    intro first second name named
    simp at named
  exact Session.preserved
    (fun trace visited => OrderlySession executionId store.medium trace visited.medium)
    (fun visit member trace visited session => session.visit empty (steady visit member))
    initially

/-- Observed outcomes are durable.  In a session over a store that held nothing of the
execution, when a call has returned an outcome with which its workflow goes on, the
store holds a record for its ordinal that recalls the outcome whenever it is read back.
Every later invocation that reaches the ordinal without a halt, and declares the same
kind, name and result type there, gets the same outcome and runs no body. -/
theorem observed_outcome_is_durable {semantics : String → StepSemantics} {executionId : String}
    {store : Store} {earlier between rest : List (Visit V O)} {visit later : Visit V O}
    (empty : store.medium.history executionId = .ok [])
    (steady : ∀ visited ∈ earlier ++ visit :: between ++ later :: rest,
      visited.workflow.EveryStep (StepCall.Steady semantics store.medium))
    {made : MadeCall V}
    (member : made ∈ visit.calls executionId (Session.storeAfter executionId store earlier))
    (free : made.before.halt = none) {outcome : Except DurableError (Option V)}
    (returned : made.reply = .returned outcome)
    (goesOn : Invocation.haltOf? outcome = none) :
    (∃ appended written,
        made.after.store.medium = store.medium.appendAll executionId appended ∧
        History.latest? appended made.before.nextOrdinal = some written ∧
        ∀ read, store.medium.GivesBack written read →
          made.declaration.outcomeIn? read = some outcome) ∧
      (∀ history, made.after.store.medium.history executionId = .ok history →
        ∃ read, History.latest? history made.before.nextOrdinal = some read ∧
          made.declaration.outcomeIn? read = some outcome) ∧
      ∀ again ∈ later.calls executionId
          (Session.storeAfter executionId store (earlier ++ visit :: between)),
        again.before.halt = none → again.before.nextOrdinal = made.before.nextOrdinal →
        made.declaration.Agrees again.declaration →
        again.reply = .returned outcome ∧
          bodies again.after.occurrences = bodies again.before.occurrences := by
  have steadyVisit := steady visit (by simp)
  have steadyLater := steady later (by simp)
  have first := OrderlySession.session earlier empty
    fun visited before => steady visited (by simp [before])
  obtain ⟨appended, written, read, settled, readSettled, kind, name, told, fixed⟩ :=
    first.recorded empty steadyVisit member free returned goesOn
  have inStore : made.after.store.medium = store.medium.appendAll executionId
      (records (Session.occurrences executionId store earlier)
        ++ records made.after.occurrences) := by
    rw [appended, first.appended, ← Medium.appendAll_append]
  refine ⟨⟨_, written, inStore, fixed.latest, told⟩, ?_, ?_⟩
  · intro history historyRead
    rw [inStore] at historyRead
    have related := Medium.latest?_related empty historyRead made.before.nextOrdinal
    rw [fixed.latest] at related
    generalize History.latest? history made.before.nextOrdinal = latest at related ⊢
    cases related with
    | @some _ reread given => exact ⟨reread, rfl, told reread given⟩
  · intro again againMember againFree sameOrdinal agrees
    have afterVisit := SettledSession.of_call first.appended steadyVisit member
      (by simp [returned]) readSettled fixed
    have steadyBetween : ∀ visited ∈ between,
        visited.workflow.EveryStep (StepCall.Steady semantics store.medium) :=
      fun visited inside => steady visited (by simp [inside])
    have settledSession := Session.preserved
      (fun trace visited => SettledSession executionId store.medium made.before.nextOrdinal
        written trace visited.medium)
      (fun visited inside trace kept session => session.visit empty settled
        (steadyBetween visited inside)) afterVisit
    have second := OrderlySession.session (earlier ++ visit :: between) empty
      fun visited before => steady visited (List.mem_append_left _ before)
    rw [Session.storeAfter_append] at againMember second
    obtain ⟨reread, given, found⟩ :=
      settledSession.call empty settled steadyLater againMember
    obtain ⟨_, _, _, _, regular, steadyAgain⟩ := second.call empty steadyLater againMember
    obtain ⟨sameKind, sameName, sameRecall⟩ := agrees.facts
    have facts : reread.kind = again.declaration.kind ∧
        reread.name = again.declaration.name := by
      obtain ⟨result, readyAt, rfl, _⟩ := given
      exact ⟨kind.trans sameKind.symm, name.trans sameName.symm⟩
    rw [← sameOrdinal] at found
    have fresh := regular.fresh againFree found
    rw [facts.2] at fresh
    have tells : again.declaration.outcomeIn? reread = some outcome := by
      rw [sameRecall]
      exact told reread given
    obtain ⟨replied, _, ran⟩ := again.of_settled againFree
      (fun call same => (steadyAgain call same).semantics) found (given.settled.mpr settled)
      fresh facts.1 facts.2 tells
    exact ⟨replied, ran⟩

/-- The call of a visit with one step. -/
def oneStepCall : MadeCall Unit where
  before := Visit.ofOneStep.begun "run" (.ofRecords "run" []) (Store.empty.load "run").2
  declaration := .step ⟨"x", .standard, ⟨fun _ => .ok .null, fun _ => .ok ()⟩,
    fun _ => ⟨[], .value ()⟩⟩

theorem one_step_outcome_is_durable :
    oneStepCall.reply = .returned (.ok (some ())) ∧
      ∀ again ∈ Visit.ofOneStep.calls "run"
          (Session.storeAfter "run" .empty ([] ++ Visit.ofOneStep :: [])),
        again.before.halt = none → again.before.nextOrdinal = 0 →
        oneStepCall.declaration.Agrees again.declaration →
        again.reply = .returned (.ok (some ())) ∧
          bodies again.after.occurrences = bodies again.before.occurrences := by
  have returned : oneStepCall.reply = .returned (.ok (some ())) := rfl
  have steady : ∀ visited ∈ [] ++ Visit.ofOneStep :: [] ++ Visit.ofOneStep :: [],
      visited.workflow.EveryStep
        (StepCall.Steady (fun _ => .atMostOnce) Store.empty.medium) := by
    intro visited member
    have same : visited = Visit.ofOneStep := by simpa using member
    subst same
    exact ⟨⟨rfl, fun _ _ _ _ _ => rfl⟩, fun _ => trivial⟩
  exact ⟨returned, (observed_outcome_is_durable rfl steady List.mem_cons_self rfl returned
    rfl).2.2⟩

end Durable
