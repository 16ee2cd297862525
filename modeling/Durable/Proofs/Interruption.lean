import Durable.Proofs.InterruptedCalls

/-!
# Interruptions are exact and permanent

A session tells of the interruption of an attempt exactly where an invocation recorded the
begin of the attempt and no outcome, and it keeps to that for good: no call begins another
attempt, none runs a body, and nothing is recorded but the report.
-/

namespace Durable

variable {V O : Type} {semantics : String → StepSemantics} {medium : Medium}

open Occurrence OperationUpdate

theorem Invocation.Called.bodyOrdinals {before after : Invocation V} {kind : OperationKind}
    {name : String} {emitted : List (Occurrence V)} {halt : Option Halt}
    (called : Called before after kind name emitted halt) :
    Occurrence.bodyOrdinals after.occurrences =
      Occurrence.bodyOrdinals before.occurrences ++ Occurrence.bodyOrdinals emitted := by
  simp [called.extension.occurrences, Effect.bodyOrdinal?]

/-- Along a pass over a started record no body runs for its ordinal. -/
theorem idle_preserved {earlier : List Operation} {begun : Invocation V} {ordinal attempt : Nat}
    {name : String} (continues : Continues semantics medium earlier begun)
    (stands : StandsStarted ordinal name attempt earlier)
    (guarded : semantics name = .atMostOnce) :
    Invocation.Preserved (StepCall.Agreed (V := V) semantics)
      (fun invocation => Chronicled semantics medium earlier begun invocation ∧
        ordinal ∉ bodyOrdinals invocation.occurrences)
      fun invocation => ordinal ∉ bodyOrdinals invocation.occurrences := by
  have chronicled := chronicled_preserved (V := V) continues
  refine ⟨And.right, ?_, ?_, ?_⟩
  · rintro before after emitted extension isQuiet place ⟨holds, idle⟩
    refine ⟨chronicled.quiet extension isQuiet place holds, ?_⟩
    rw [extension.occurrences, bodyOrdinals_append, bodyOrdinals_of_bodies isQuiet.bodies,
      List.append_nil]
    exact idle
  · rintro before after call reply middle agreed free course called ⟨holds, idle⟩
    suffices stillIdle : ordinal ∉ bodyOrdinals after.occurrences from
      ⟨stillIdle, fun returns =>
        ⟨(chronicled.step agreed free course called holds).2 returns, stillIdle⟩⟩
    rw [called.bodyOrdinals, bodyOrdinals_append,
      bodyOrdinals_of_bodies (reply.returning_quiet call.name after).bodies, List.append_nil]
    intro begun
    have inMiddle := (List.mem_append.mp begun).resolve_left idle
    obtain ⟨rfl, notStarted⟩ := course.bodyOrdinals inMiddle
    obtain ⟨sameName, unguarded⟩ : name = call.name ∧ call.config.semantics = .atLeastOnce := by
      rcases stands.read (holds.found continues) with marked | reported
      · exact notStarted _ marked rfl
      · exact notStarted _ reported rfl
    have agrees : call.config.semantics = semantics call.name := agreed
    rw [← sameName, guarded, unguarded] at agrees
    cases agrees
  · rintro before after call outcome middle free course called ⟨holds, idle⟩
    refine ⟨chronicled.wait free course called holds, ?_⟩
    have silent : bodyOrdinals (middle
        ++ [⟨after.now, .waitReturned call.name outcome after.isReplaying⟩]) = [] :=
      bodyOrdinals_of_bodies (by simp [course.bodies, Effect.isBody])
    rw [called.bodyOrdinals, silent, List.append_nil]
    exact idle

/-- From these records on, nothing but the report of the interruption is appended for the
ordinal, no body runs for it, and nothing is appended behind it before the report. -/
structure StaysInterrupted (ordinal : Nat) (name : String) (attempt : Nat)
    (earlier : List Operation) (trace : List (Occurrence V)) : Prop where
  idle : ordinal ∉ bodyOrdinals trace
  latest : History.StartedAt (earlier ++ records trace) ordinal name attempt
  further : History.ofOrdinal (records trace) ordinal = [] ∨
    History.ofOrdinal (records trace) ordinal = [.interruption ordinal name attempt]
  ordered : ∀ front record back, earlier ++ records trace = front ++ record :: back →
    ordinal < record.ordinal → .interruption ordinal name attempt ∈ front

namespace ChronicledSession

variable {executionId : String} {initial : Medium} {trace : List (Occurrence V)} {store : Store}
  (session : ChronicledSession semantics executionId initial trace store.medium)
  (empty : initial.history executionId = .ok [])
  {ordinal attempt : Nat} {name : String}

include session empty

theorem idle_visit {visit : Visit V O}
    (agreed : visit.workflow.EveryStep (StepCall.Agreed semantics))
    (stands : StandsStarted ordinal name attempt (records trace))
    (guarded : semantics name = .atMostOnce) :
    ordinal ∉ bodyOrdinals (visit.answer executionId store).occurrences := by
  refine Visit.answer_induction (motive := fun emitted _ => ordinal ∉ bodyOrdinals emitted)
    agreed (by simp) ?_
  intro log after loaded
  obtain ⟨continues, begun⟩ := session.chronicled empty loaded visit
  have silent := bodyOrdinals_of_bodies (visit.begun_quiet executionId log after).bodies
  refine ⟨_, _, idle_preserved continues stands guarded, ⟨begun, by simp [silent]⟩, ?_⟩
  intro ended closing idle closingQuiet _ _
  rw [bodyOrdinals_append, bodyOrdinals_of_bodies closingQuiet.bodies, List.append_nil]
  exact idle

theorem idle_visits (visits : List (Visit V O))
    (agreed : ∀ visit ∈ visits, visit.workflow.EveryStep (StepCall.Agreed semantics))
    (stands : StandsStarted ordinal name attempt (records trace))
    (guarded : semantics name = .atMostOnce) :
    ordinal ∉ bodyOrdinals (Session.occurrences executionId store visits) := by
  induction visits generalizing trace store with
  | nil => simp [Session.occurrences, Session.answers]
  | cons visit rest induction =>
      have agreedVisit := agreed visit List.mem_cons_self
      have chronicle := (session.visit empty agreedVisit).chronicle
      have standsAfter := (chronicle.standsStarted stands).1
      rw [← records_append] at standsAfter
      have later := induction (session.extend empty agreedVisit)
        (fun visited member => agreed visited (List.mem_cons_of_mem _ member)) standsAfter
      have here := session.idle_visit empty agreedVisit stands guarded
      rw [Session.occurrences, Session.answers, List.flatMap_cons, bodyOrdinals_append,
        List.mem_append]
      rintro (begun | begun)
      · exact here begun
      · exact later begun

/-- A started record stays throughout the later visits. -/
theorem staysInterrupted (visits : List (Visit V O))
    (agreed : ∀ visit ∈ visits, visit.workflow.EveryStep (StepCall.Agreed semantics))
    (stands : StandsStarted ordinal name attempt (records trace))
    (guarded : semantics name = .atMostOnce) :
    StaysInterrupted ordinal name attempt (records trace)
        (Session.occurrences executionId store visits) ∧
      ∀ history,
        (Session.storeAfter executionId store visits).medium.history executionId = .ok history →
        StandsStarted ordinal name attempt history := by
  obtain ⟨longer, chronicle⟩ := session.visits empty visits agreed
  obtain ⟨standsAfter, further⟩ := chronicle.standsStarted stands
  have whole := longer.chronicle
  rw [records_append] at whole
  refine ⟨⟨session.idle_visits empty visits agreed stands guarded, standsAfter.startedAt, further,
    fun front record back => whole.reported_before standsAfter⟩, ?_⟩
  intro history read
  have restores := longer.restores empty read
  rw [records_append] at restores
  exact standsAfter.restored restores

theorem stands_of_leavesOpen {visit : Visit V O}
    (agreed : visit.workflow.EveryStep (StepCall.Agreed semantics))
    (leftOpen : LeavesOpen ordinal attempt
      (records (visit.answer executionId store).occurrences)) :
    ∃ name, semantics name = .atMostOnce ∧
      StandsStarted ordinal name attempt
        (records (trace ++ (visit.answer executionId store).occurrences)) := by
  have chronicle := (session.visit empty agreed).chronicle
  obtain ⟨latest, found, started, rfl⟩ := chronicle.latest_of_leavesOpen leftOpen
  rw [← records_append] at found
  have legal := (session.extend empty agreed).chronicle.legal (by simp) latest
    (History.latest?_mem found).1
  exact ⟨latest.name, StandsStarted.of_legal found legal started⟩

section Finds

variable {visit : Visit V O} {made : MadeCall V} {call : StepCall V} {record : Operation}
  (agreed : visit.workflow.EveryStep (StepCall.Agreed semantics))
  (member : made ∈ visit.calls executionId store) (free : made.before.halt = none)
  (declared : made.declaration = .step call)
  (found : made.before.log.lookup? made.before.nextOrdinal = some record)
  (sameName : record.name = call.name)

include agreed member free declared found sameName

theorem stands_of_finds (finds : made.FindsInterruption attempt) :
    call.config.semantics = .atMostOnce ∧
      StandsStarted made.before.nextOrdinal call.name attempt (records trace) := by
  obtain ⟨begun, continues, chronicled, _⟩ := session.call empty agreed member
  obtain ⟨reply, middle, course, tells⟩ := MadeCall.findsInterruption_iff free declared
  obtain ⟨read, lookup, started, rfl, guarded⟩ := course.of_tells ((tells attempt).mp finds)
  obtain rfl := Option.some.inj (found.symm.trans lookup)
  have related := chronicled.found continues
  rw [found] at related
  generalize latest : History.latest? (records trace) made.before.nextOrdinal = last at related
  cases related with
  | @some written _ given =>
      have legal := session.chronicle.legal (by simp) written (History.latest?_mem latest).1
      have stands := (StandsStarted.of_legal latest legal
        (given.state.status.symm.trans started)).2
      have sameAttempt : record.attempt = written.attempt := given.state.attempt
      rw [← given.identity.2, sameName, ← sameAttempt] at stands
      exact ⟨guarded, stands⟩

theorem finds_of_stands (guarded : call.config.semantics = .atMostOnce)
    (stands : StandsStarted made.before.nextOrdinal name attempt (records trace)) :
    made.FindsInterruption attempt := by
  obtain ⟨begun, continues, chronicled, _⟩ := session.call empty agreed member
  obtain ⟨reply, middle, course, tells⟩ := MadeCall.findsInterruption_iff free declared
  have fresh := chronicled.regular.fresh free found
  rw [sameName] at fresh
  apply (tells attempt).mpr
  rcases stands.read (chronicled.found continues) with marked | reported
  · obtain rfl := Option.some.inj (found.symm.trans marked)
    exact course.tells found fresh rfl rfl sameName rfl guarded
  · obtain rfl := Option.some.inj (found.symm.trans reported)
    exact course.tells found fresh rfl rfl sameName rfl guarded

end Finds

end ChronicledSession

namespace Session

variable {executionId : String} {store : Store} {visits : List (Visit V O)}
  {ordinal attempt : Nat} {name : String}

theorem stands_of_leavesOpen (empty : store.medium.history executionId = .ok [])
    (agreed : ∀ visit ∈ visits, visit.workflow.EveryStep (StepCall.Agreed semantics))
    {answer : Answer V O} (member : answer ∈ answers executionId store visits)
    (leftOpen : LeavesOpen ordinal attempt (records answer.occurrences)) :
    ∃ name, StandsStarted ordinal name attempt
      (records (occurrences executionId store visits)) := by
  obtain ⟨earlier, visit, later, rfl, rfl⟩ := mem_answers member
  have agreedVisit := agreed visit (by simp)
  have first := ChronicledSession.session earlier empty fun visited before =>
    agreed visited (List.mem_append_left _ before)
  obtain ⟨name, _, stands⟩ := first.stands_of_leavesOpen empty agreedVisit leftOpen
  obtain ⟨_, chronicle⟩ := (first.extend empty agreedVisit).visits empty later
    fun visited behind => agreed visited (by simp [behind])
  have whole := (chronicle.standsStarted stands).1
  rw [← records_append, List.append_assoc] at whole
  refine ⟨name, ?_⟩
  rw [occurrences_append]
  exact whole

theorem leavesOpen_of_stands
    (stands : StandsStarted ordinal name attempt (records (occurrences executionId store visits))) :
    ∃ answer ∈ answers executionId store visits,
      LeavesOpen ordinal attempt (records answer.occurrences) := by
  obtain ⟨latest, found, _, started, rfl, _⟩ := stands.startedAt
  suffices answered : ∃ answer ∈ answers executionId store visits,
      History.latest? (records answer.occurrences) ordinal = some latest by
    obtain ⟨answer, member, here⟩ := answered
    exact ⟨answer, member, .of_latest? here started⟩
  rw [occurrences] at found
  generalize answers executionId store visits = given at found ⊢
  induction given with
  | nil => cases found
  | cons answer rest induction =>
      rw [List.flatMap_cons, records_append, History.latest?_append] at found
      cases later : History.latest? (records (rest.flatMap Answer.occurrences)) ordinal with
      | none =>
          rw [later, Option.none_or] at found
          exact ⟨answer, List.mem_cons_self, found⟩
      | some record =>
          rw [later, Option.some_or] at found
          obtain ⟨other, member, here⟩ := induction (later.trans found)
          exact ⟨other, List.mem_cons_of_mem _ member, here⟩

end Session

/-- The interruption of an attempt is found exactly where it happened, and for good.  A
step call that finds a record of its name is told of an interruption of an attempt if and
only if the step is guarded, and an earlier invocation recorded the begin of the attempt
and no outcome.  From then on no body runs for the ordinal, its latest record stays as it
is but for the report of the interruption, and nothing behind it is recorded before the
report. -/
theorem interruption_is_exact_and_permanent {semantics : String → StepSemantics}
    {executionId : String} {store : Store} {earlier later : List (Visit V O)} {visit : Visit V O}
    (empty : store.medium.history executionId = .ok [])
    (agreed : ∀ visited ∈ earlier ++ visit :: later,
      visited.workflow.EveryStep (StepCall.Agreed semantics))
    {made : MadeCall V}
    (member : made ∈ visit.calls executionId (Session.storeAfter executionId store earlier))
    (free : made.before.halt = none) {call : StepCall V}
    (declared : made.declaration = .step call) {record : Operation}
    (found : made.before.log.lookup? made.before.nextOrdinal = some record)
    (sameName : record.name = call.name) (attempt : Nat) :
    (made.FindsInterruption attempt ↔
      call.config.semantics = .atMostOnce ∧
        ∃ answer ∈ Session.answers executionId store earlier,
          LeavesOpen made.before.nextOrdinal attempt (records answer.occurrences)) ∧
      (made.FindsInterruption attempt →
        StaysInterrupted made.before.nextOrdinal call.name attempt
            (records (Session.occurrences executionId store earlier))
            (Session.occurrences executionId (Session.storeAfter executionId store earlier)
              (visit :: later)) ∧
          ∀ history, (Session.storeAfter executionId store
              (earlier ++ visit :: later)).medium.history executionId = .ok history →
            History.StartedAt history made.before.nextOrdinal call.name attempt) := by
  have agreedEarlier : ∀ visited ∈ earlier,
      visited.workflow.EveryStep (StepCall.Agreed semantics) :=
    fun visited before => agreed visited (List.mem_append_left _ before)
  have agreedLater : ∀ visited ∈ visit :: later,
      visited.workflow.EveryStep (StepCall.Agreed semantics) :=
    fun visited behind => agreed visited (List.mem_append_right _ behind)
  have first := ChronicledSession.session earlier empty agreedEarlier
  have agreedVisit := agreedLater visit List.mem_cons_self
  obtain ⟨_, _, _, agreedCall⟩ := first.call empty agreedVisit member
  have stands := fun finds : made.FindsInterruption attempt =>
    first.stands_of_finds empty agreedVisit member free declared found sameName finds
  refine ⟨⟨?_, ?_⟩, ?_⟩
  · intro finds
    obtain ⟨guarded, started⟩ := stands finds
    exact ⟨guarded, Session.leavesOpen_of_stands started⟩
  · rintro ⟨guarded, answer, answered, leftOpen⟩
    obtain ⟨name, started⟩ := Session.stands_of_leavesOpen empty agreedEarlier answered leftOpen
    exact first.finds_of_stands empty agreedVisit member free declared found sameName guarded
      started
  · intro finds
    obtain ⟨guarded, started⟩ := stands finds
    obtain ⟨stays, readBack⟩ := first.staysInterrupted empty (visit :: later) agreedLater started
      ((agreedCall call declared).symm.trans guarded)
    refine ⟨stays, fun history read => (readBack history ?_).startedAt⟩
    rwa [Session.storeAfter_append] at read

/-- The call of a visit that finds the marker of a step in whose body the process died. -/
def crashedStepCall : MadeCall Unit where
  before := Visit.ofCrashedStep.begun "run"
    (.ofRecords "run" [(Operation.unwritten .step 0 "x").withState (.started 1)])
    ((Session.storeAfter "run" .empty [Visit.ofCrashedStep]).load "run").2
  declaration := .step ⟨"x", .standard, ⟨fun _ => .ok .null, fun _ => .ok ()⟩,
    fun _ => ⟨[], .crash⟩⟩

/-- The second invocation finds the interruption, and the third one changes nothing. -/
theorem crashed_step_stays_interrupted :
    crashedStepCall.FindsInterruption 1 ∧
      StaysInterrupted 0 "x" 1 [(Operation.unwritten .step 0 "x").withState (.started 1)]
        (Session.occurrences "run" (Session.storeAfter "run" .empty [Visit.ofCrashedStep])
          [Visit.ofCrashedStep, .ofCrashedStep]) := by
  have agreed : ∀ visited ∈ [Visit.ofCrashedStep] ++ Visit.ofCrashedStep :: [.ofCrashedStep],
      visited.workflow.EveryStep (StepCall.Agreed fun _ => .atMostOnce) := by
    intro visited member
    have same : visited = Visit.ofCrashedStep := by simpa using member
    subst same
    exact ⟨rfl, fun _ => trivial⟩
  have leftOpen : LeavesOpen 0 1 [(Operation.unwritten .step 0 "x").withState (.started 1)] :=
    ⟨[], _, [], rfl, rfl, rfl, rfl, by simp⟩
  have empty : Store.empty.medium.history "run" = .ok [] := rfl
  have facts := interruption_is_exact_and_permanent empty agreed
    (List.mem_cons_self : crashedStepCall ∈ _) rfl rfl rfl rfl 1
  have finds := facts.1.mpr ⟨rfl, _, List.mem_cons_self, leftOpen⟩
  exact ⟨finds, (facts.2 finds).1⟩

end Durable
