import Durable.Proofs.CallAdvance
import Durable.Proofs.Durability

/-!
# Sessions write chronicles

What a session appends to a store that held nothing of the execution is a chronicle, and
so is the history that is read back.  Along a pass each operation is called once at most,
so a visit begins at most one attempt of it.
-/

namespace Durable

variable {V O : Type} {semantics : String → StepSemantics} {medium : Medium}

open Occurrence OperationUpdate

/-- The attempt of the latest record of an ordinal; none has been begun before the first
record. -/
def History.attemptAt (history : List Operation) (ordinal : Nat) : Nat :=
  ((latest? history ordinal).map Operation.attempt).elim 0 id

/-- The records of one visit: a chronicle in which every operation gets one attempt
further at most. -/
structure VisitChronicle (semantics : String → StepSemantics) (medium : Medium)
    (earlier added : List Operation) : Prop where
  chronicle : Chronicle semantics medium earlier added
  single : ∀ record ∈ added,
    record.attempt ≤ History.attemptAt earlier record.ordinal + 1

/-- The pass begins with what comes back for legal records. -/
structure Continues (semantics : String → StepSemantics) (medium : Medium)
    (earlier : List Operation) (begun : Invocation V) : Prop where
  legal : ∀ record ∈ earlier, record.Legal semantics
  related : ∀ ordinal, Option.Rel medium.Restores (History.latest? earlier ordinal)
    (begun.log.lookup? ordinal)

/-- What holds throughout a pass that goes on from them: it appends a chronicle, and has left
settled operations behind it unless it was halted. -/
structure Chronicled (semantics : String → StepSemantics) (medium : Medium)
    (earlier : List Operation) (begun invocation : Invocation V) : Prop where
  reached : begun.Reached invocation
  regular : invocation.Regular
  visit : VisitChronicle semantics medium earlier (records invocation.occurrences)
  settled : invocation.halt = none → ∀ ordinal, ordinal < invocation.nextOrdinal →
    ∃ record, History.latest? (earlier ++ records invocation.occurrences) ordinal = some record ∧
      record.Settled semantics

theorem OperationUpdate.Advance.attempt_le {kind : OperationKind} {name : String}
    {before : Option OperationUpdate} {updates : List OperationUpdate}
    (advance : Advance semantics medium kind name before updates) :
    ∀ update ∈ updates, update.attempt ≤ (before.map OperationUpdate.attempt).elim 0 id + 1 := by
  have begun : ∀ {attempt : Nat}, Begins before attempt →
      attempt = (before.map OperationUpdate.attempt).elim 0 id + 1 := by
    intro attempt begins
    cases begins <;> rfl
  have outcome : ∀ {attempt : Nat} {update : OperationUpdate}, Outcome attempt update →
      update.attempt = attempt := by
    intro attempt update ends
    cases ends <;> rfl
  cases kind with
  | step =>
      cases advance with
      | marked guarded begins => simp [started, begun begins]
      | closed guarded begins ends => simp [started, outcome ends, begun begins]
      | attempted unguarded begins ends => simp [outcome ends, begun begins]
      | reported attempt guarded => simp [reported, interrupted, started]
  | timer => cases advance <;> simp [runsUntil, elapsedAt]

namespace Chronicled

variable {earlier : List Operation} {begun invocation : Invocation V}
  (chronicled : Chronicled semantics medium earlier begun invocation)

include chronicled

theorem ahead {ordinal : Nat} (notReached : invocation.nextOrdinal ≤ ordinal) :
    History.latest? (records invocation.occurrences) ordinal = none := by
  apply History.latest?_eq_none
  intro operation member
  have := chronicled.regular.behind operation member
  omega

variable (continues : Continues semantics medium earlier begun)

include continues

theorem legal : ∀ record ∈ earlier ++ records invocation.occurrences,
    record.Legal semantics := by
  intro record member
  rcases List.mem_append.mp member with before | here
  · exact continues.legal record before
  · exact chronicled.visit.chronicle.legal continues.legal record here

theorem related {ordinal : Nat} (notReached : invocation.nextOrdinal ≤ ordinal) :
    Option.Rel medium.Restores
      (History.latest? (earlier ++ records invocation.occurrences) ordinal)
      (invocation.log.lookup? ordinal) := by
  rw [chronicled.reached.log, OperationLog.lookup?_insertAll, History.latest?_append,
    chronicled.ahead notReached, Option.none_or, Option.none_or]
  exact continues.related ordinal

theorem found : Option.Rel medium.Restores (History.latest? earlier invocation.nextOrdinal)
    (invocation.log.lookup? invocation.nextOrdinal) := by
  have related := chronicled.related continues (Nat.le_refl _)
  rw [History.latest?_append, chronicled.ahead (Nat.le_refl _), Option.none_or] at related
  exact related

theorem named (ordinal : Nat) : invocation.log.named ordinal =
    (History.latest? (earlier ++ records invocation.occurrences) ordinal).map
      Operation.name := by
  rw [OperationLog.named, chronicled.reached.log, OperationLog.lookup?_insertAll,
    History.latest?_append]
  cases History.latest? (records invocation.occurrences) ordinal with
  | some operation => rfl
  | none =>
      have given := continues.related ordinal
      rw [Option.none_or, Option.none_or]
      generalize History.latest? earlier ordinal = latest at given ⊢
      generalize begun.log.lookup? ordinal = found at given ⊢
      cases given with
      | none => rfl
      | some given => rw [Option.map_some, Option.map_some, given.identity.2]

/-- What a call appends at its ordinal goes on with the chronicle. -/
theorem append (free : invocation.halt = none) {kind : OperationKind} {name : String}
    {added : List Operation} (own : OwnRecords invocation kind name added)
    (appends : Appends semantics medium kind invocation.nextOrdinal name
      ((History.latest? (earlier ++ records invocation.occurrences)
        invocation.nextOrdinal).map Operation.state) added) :
    VisitChronicle semantics medium earlier (records invocation.occurrences ++ added) := by
  cases appends with
  | nothing =>
      rw [List.append_nil]
      exact chronicled.visit
  | advance updates advance =>
      have related := chronicled.related continues (Nat.le_refl _)
      obtain ⟨reached, declared⟩ := chronicled.regular.placed free
      have written : updates.map
          (Operation.unwritten kind invocation.nextOrdinal name).withState ≠ [] := by
        obtain ⟨rest, last, rfl⟩ := advance.exists_last
        simp
      constructor
      · refine .call chronicled.visit.chronicle ⟨chronicled.settled free, ?_, ?_, advance⟩
        · intro latest found
          rw [found] at related
          generalize lookup : invocation.log.lookup? invocation.nextOrdinal = read at related
          cases related with
          | some given =>
              obtain ⟨sameKind, sameName⟩ := own.fits written _ lookup
              exact ⟨given.identity.1.symm.trans sameKind, given.identity.2.symm.trans sameName⟩
        · intro absent other latest found sameName
          have named := chronicled.named continues
          have otherNamed : invocation.log.named other = some name := by
            rw [named, found, Option.map_some, sameName]
          by_cases passed : other < invocation.nextOrdinal
          · exact (declared name).mpr ⟨other, passed, otherNamed⟩ (own.fresh written)
          · have none : invocation.log.named invocation.nextOrdinal = none := by
              rw [named, absent, Option.map_none]
            rw [chronicled.regular.orderly.contiguous (by omega) none] at otherNamed
            cases otherNamed
      · intro record member
        rcases List.mem_append.mp member with before | here
        · exact chronicled.visit.single record before
        · obtain ⟨update, inUpdates, rfl⟩ := List.mem_map.mp here
          have bound := advance.attempt_le update inUpdates
          rw [History.latest?_append, chronicled.ahead (Nat.le_refl _), Option.none_or,
            Option.map_map] at bound
          exact bound

/-- A call that leaves a settled record keeps everything behind the pass settled. -/
theorem settled_append (free : invocation.halt = none) {kind : OperationKind} {name : String}
    {added : List Operation} (own : OwnRecords invocation kind name added)
    {tells : Operation → Prop} {record : Operation} (isSettled : record.Settled semantics)
    (leaves : Leaves invocation medium added tells record) {ordinal : Nat}
    (passed : ordinal < invocation.nextOrdinal + 1) :
    ∃ latest, History.latest? (earlier ++ (records invocation.occurrences ++ added)) ordinal =
      some latest ∧ latest.Settled semantics := by
  rw [← List.append_assoc, History.latest?_append]
  by_cases here : ordinal = invocation.nextOrdinal
  · subst here
    cases leaves with
    | recalled unwritten found told =>
        have related := chronicled.related continues (Nat.le_refl _)
        rw [found] at related
        generalize History.latest? (earlier ++ records invocation.occurrences)
          invocation.nextOrdinal = latest at related ⊢
        cases related with
        | some given =>
            rw [unwritten, History.latest?_nil, Option.none_or]
            exact ⟨_, rfl, given.givesBack.settled.mp isSettled⟩
    | written latest told => exact ⟨record, by rw [latest, Option.some_or], isSettled⟩
  · rw [History.latest?_eq_none, Option.none_or]
    · exact chronicled.settled free ordinal (by omega)
    · intro operation member
      have := (own.own operation member).1
      omega

end Chronicled

theorem chronicled_preserved {earlier : List Operation} {begun : Invocation V}
    (continues : Continues semantics medium earlier begun) :
    Invocation.Preserved (StepCall.Agreed (V := V) semantics)
      (Chronicled semantics medium earlier begun) fun invocation =>
        VisitChronicle semantics medium earlier (records invocation.occurrences) := by
  have regular := Invocation.regular_preserved (V := V) semantics
  refine ⟨Chronicled.visit, ?_, ?_, ?_⟩
  · intro before after emitted extension isQuiet place chronicled
    have sameRecords : records after.occurrences = records before.occurrences := by
      rw [extension.occurrences, isQuiet.records_append]
    refine ⟨chronicled.reached.extend extension,
      regular.quiet extension isQuiet place chronicled.regular, ?_, ?_⟩
    · rw [sameRecords]
      exact chronicled.visit
    · intro free
      rw [sameRecords, place.nextOrdinal]
      exact chronicled.settled (place.halt.symm.trans free)
  · intro before after call reply middle agreed free course called chronicled
    have sameRecords : records after.occurrences =
        records before.occurrences ++ records middle := by
      rw [called.records, (reply.returning_quiet call.name after).records_append]
    have visit := chronicled.append continues free course.ownRecords
      (course.appends agreed (chronicled.related continues (Nat.le_refl _)) fun record found =>
        chronicled.legal continues record (History.latest?_mem found).1)
    rw [← sameRecords] at visit
    refine ⟨visit, fun returns => ⟨chronicled.reached.extend called.extension,
      (regular.step agreed free course called chronicled.regular).2 returns, visit, ?_⟩⟩
    intro goesOn ordinal passed
    rw [called.nextOrdinal] at passed
    rw [sameRecords]
    cases reply with
    | crashed => exact absurd rfl returns
    | returned outcome =>
        rw [called.halt] at goesOn
        obtain ⟨_, record, _, _, isSettled, leaves⟩ := course.leaves medium goesOn agreed
        exact chronicled.settled_append continues free course.ownRecords isSettled leaves passed
  · intro before after call outcome middle free course called chronicled
    have sameRecords : records after.occurrences =
        records before.occurrences ++ records middle := by
      rw [called.records]
      simp [Effect.record?]
    have visit := chronicled.append continues free course.ownRecords
      (course.appends (chronicled.related continues (Nat.le_refl _)) fun record found =>
        chronicled.legal continues record (History.latest?_mem found).1)
    rw [← sameRecords] at visit
    refine ⟨chronicled.reached.extend called.extension,
      regular.wait free course called chronicled.regular, visit, ?_⟩
    intro goesOn ordinal passed
    rw [called.nextOrdinal] at passed
    rw [called.halt] at goesOn
    rw [sameRecords]
    obtain ⟨_, record, _, _, isSettled, leaves⟩ := course.settles semantics medium goesOn
    exact chronicled.settled_append continues free course.ownRecords isSettled leaves passed

/-- The session has appended a chronicle to its medium. -/
structure ChronicledSession (semantics : String → StepSemantics) (executionId : String)
    (initial : Medium) (trace : List (Occurrence V)) (medium : Medium) : Prop where
  appended : medium = initial.appendAll executionId (records trace)
  chronicle : Chronicle semantics initial [] (records trace)

namespace ChronicledSession

variable {executionId : String} {initial : Medium} {trace : List (Occurrence V)} {store : Store}
  (session : ChronicledSession semantics executionId initial trace store.medium)

include session

theorem orderly : OrderlySession executionId initial trace store.medium :=
  ⟨session.appended, session.chronicle.orderly⟩

variable (empty : initial.history executionId = .ok [])

include empty

/-- A history that is read back is what comes back for the records of the session. -/
theorem restores {history : List Operation}
    (read : store.medium.history executionId = .ok history) :
    List.Forall₂ initial.Restores (records trace) history := by
  rw [session.appended] at read
  obtain ⟨earlier, later, earlierRead, rfl, given⟩ := Medium.history_restored read
  rw [empty, Except.ok.injEq] at earlierRead
  subst earlierRead
  exact given

theorem chronicled {log : OperationLog} {after : Store}
    (loaded : OperationLog.load store executionId = (.ok log, after)) (visit : Visit V O) :
    Continues semantics initial (records trace) (visit.begun executionId log after) ∧
      Chronicled semantics initial (records trace) (visit.begun executionId log after)
        (visit.begun executionId log after) := by
  have silent := (visit.begun_quiet executionId log after).records
  refine ⟨⟨session.chronicle.legal (by simp), ?_⟩, ?_⟩
  · intro ordinal
    obtain ⟨history, read, rfl, _⟩ := OperationLog.load_ok loaded
    rw [Visit.begun_log, OperationLog.lookup?_latestStates]
    exact History.latest?_forall₂ (fun _ _ given => given.givesBack.ordinal)
      (session.restores empty read) ordinal
  · refine ⟨visit.begun_reached executionId log after,
      session.orderly.regular empty loaded visit, ?_, ?_⟩
    · rw [silent]
      exact ⟨.nil, by simp⟩
    · intro _ ordinal below
      exact absurd below (Nat.not_lt_zero ordinal)

theorem visit {visit : Visit V O}
    (agreed : visit.workflow.EveryStep (StepCall.Agreed semantics)) :
    VisitChronicle semantics initial (records trace)
      (records (visit.answer executionId store).occurrences) := by
  refine Visit.answer_induction (motive := fun emitted _ =>
    VisitChronicle semantics initial (records trace) (records emitted))
    agreed ⟨.nil, by simp⟩ ?_
  intro log after loaded
  obtain ⟨continues, begun⟩ := session.chronicled empty loaded visit
  refine ⟨_, _, chronicled_preserved continues, begun, ?_⟩
  intro ended closing visited closingQuiet _ _
  rw [closingQuiet.records_append]
  exact visited

theorem extend {visit : Visit V O}
    (agreed : visit.workflow.EveryStep (StepCall.Agreed semantics)) :
    ChronicledSession semantics executionId initial
      (trace ++ (visit.answer executionId store).occurrences)
      (visit.answer executionId store).store.medium := by
  refine ⟨visit.appended session.appended, ?_⟩
  rw [records_append]
  exact session.chronicle.trans (session.visit empty agreed).chronicle

theorem call {visit : Visit V O} {made : MadeCall V}
    (agreed : visit.workflow.EveryStep (StepCall.Agreed semantics))
    (member : made ∈ visit.calls executionId store) :
    ∃ begun, Continues semantics initial (records trace) begun ∧
      Chronicled semantics initial (records trace) begun made.before ∧
      ∀ call, made.declaration = .step call → call.Agreed semantics := by
  obtain ⟨log, after, loaded, inPass⟩ := Visit.mem_calls member
  obtain ⟨continues, begun⟩ := session.chronicled empty loaded visit
  obtain ⟨chronicled, agreedCall⟩ :=
    (chronicled_preserved continues).calls agreed begun inPass
  exact ⟨_, continues, chronicled, agreedCall⟩

/-- Further visits go on with the chronicle. -/
theorem visits (visits : List (Visit V O))
    (agreed : ∀ visit ∈ visits, visit.workflow.EveryStep (StepCall.Agreed semantics)) :
    ChronicledSession semantics executionId initial
        (trace ++ Session.occurrences executionId store visits)
        (Session.storeAfter executionId store visits).medium ∧
      Chronicle semantics initial (records trace)
        (records (Session.occurrences executionId store visits)) := by
  have goesOn : ChronicledSession semantics executionId initial
        (trace ++ Session.occurrences executionId store visits)
        (Session.storeAfter executionId store visits).medium ∧
      ∃ added, trace ++ Session.occurrences executionId store visits = trace ++ added ∧
        Chronicle semantics initial (records trace) (records added) := by
    refine Session.preserved
      (fun longer visited =>
        ChronicledSession semantics executionId initial longer visited.medium ∧
          ∃ added, longer = trace ++ added ∧
            Chronicle semantics initial (records trace) (records added))
      ?_ ⟨session, [], (List.append_nil trace).symm, .nil⟩
    rintro visit member _ visited ⟨before, added, rfl, chronicle⟩
    have visitChronicle := (before.visit empty (agreed visit member)).chronicle
    rw [records_append] at visitChronicle
    refine ⟨before.extend empty (agreed visit member),
      added ++ (visit.answer executionId visited).occurrences, List.append_assoc .., ?_⟩
    rw [records_append]
    exact chronicle.trans visitChronicle
  obtain ⟨longer, added, same, chronicle⟩ := goesOn
  rw [List.append_cancel_left same] at longer ⊢
  exact ⟨longer, chronicle⟩

end ChronicledSession

/-- A session over a store that held nothing of the execution writes a chronicle. -/
theorem ChronicledSession.session {executionId : String} {store : Store}
    (visits : List (Visit V O)) (empty : store.medium.history executionId = .ok [])
    (agreed : ∀ visit ∈ visits, visit.workflow.EveryStep (StepCall.Agreed semantics)) :
    ChronicledSession semantics executionId store.medium
      (Session.occurrences executionId store visits)
      (Session.storeAfter executionId store visits).medium := by
  have initially : ChronicledSession semantics executionId store.medium
      ([] : List (Occurrence V)) store.medium := ⟨rfl, .nil⟩
  exact (initially.visits empty visits agreed).1

end Durable
