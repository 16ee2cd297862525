import Durable.Proofs.FaithfulRecords
import Durable.Proofs.TimeGate
import Durable.Proofs.WaitingOperation

/-!
# The wake-up time

A pending result tells exactly when the execution goes on: its next ready time is the time
until which a call was suspended, and the ready time of the one operation that is pending.
Visits that come to this operation earlier change nothing; a visit that comes to it in time
takes it up again.
-/

namespace Durable

variable {V O : Type}

open Occurrence

/-- The result of an invocation that is suspended until the given time. -/
def ExecutionResult.suspended (executionId : String) (operations : List Operation)
    (wake : Instant) : ExecutionResult O :=
  { executionId := executionId, status := .pending, result := none, error := none,
    operations := operations, nextReadyAt := some wake }

/-- The result is pending until the given time, because of its last operation only. -/
structure ExecutionResult.WakesAt (result : ExecutionResult O) (operation : Operation)
    (wake : Instant) : Prop where
  status : result.status = .pending
  nextReadyAt : result.nextReadyAt = some wake
  last : result.operations.getLast? = some operation
  waits : operation.Waits wake
  only : ∀ other ∈ result.operations, other.status = .pending → other = operation

theorem ExecutionResult.wakesAt_suspended {executionId : String} {front : List Operation}
    {last : Operation} {wake : Instant} (past : ∀ operation ∈ front, operation.Past)
    (waits : last.Waits wake) :
    (suspended executionId (front ++ [last]) wake : ExecutionResult O).WakesAt last wake := by
  constructor
  · rfl
  · rfl
  · exact List.getLast?_concat
  · exact waits
  · intro other member pending
    rcases List.mem_append.mp member with inFront | here
    · exact absurd pending (past other inFront).notPending
    · exact List.mem_singleton.mp here

theorem PassEnd.verdict_suspended {final : Invocation V} {operations : List Operation}
    {wake : Instant} (halted : final.halt = some (.suspended wake))
    (same : final.log.operations = operations)
    (next : History.nextReadyTime? operations = some wake) (executionId : String)
    (outcome : Except DurableError O) :
    (PassEnd.returned outcome).verdict executionId final =
      .finished (.suspended executionId operations wake) := by
  simp only [verdict, Invocation.close, halted, Snapshot.result, OperationLog.nextReadyTime?,
    same, next, Option.getD_some]
  rfl

/-- What the result of a pass says of the operations at its end. -/
theorem Remainder.verdict {final : Invocation V} {operations : List Operation}
    (remainder : Remainder operations final.halt) (same : final.log.operations = operations)
    {executionId : String} {outcome : Except DurableError O} {result : ExecutionResult O}
    (finished : (PassEnd.returned outcome).verdict executionId final = .finished result) :
    result.operations = operations ∧
      (result.isTerminal = true ∧ result.nextReadyAt = none ∨
        ∃ front last wake, operations = front ++ [last] ∧
          (∀ operation ∈ front, operation.Past) ∧ last.Waits wake ∧
          final.halt = some (.suspended wake) ∧
          result = .suspended executionId operations wake) := by
  generalize halted : final.halt = halt at remainder
  have asleep : (∀ operation ∈ operations, operation.Past) → final.log.nextReadyTime? = none := by
    intro past
    rw [OperationLog.nextReadyTime?, same, History.nextReadyTime?_eq_none]
    exact fun operation member => (past operation member).asleep
  cases remainder with
  | whole past =>
      simp only [PassEnd.verdict, Invocation.close, halted, Snapshot.result] at finished
      cases outcome <;> cases finished <;> exact ⟨same, .inl ⟨rfl, asleep past⟩⟩
  | refused past error =>
      simp only [PassEnd.verdict, Invocation.close, halted, Snapshot.result] at finished
      cases finished
      exact ⟨same, .inl ⟨rfl, asleep past⟩⟩
  | aborted _ error =>
      simp only [PassEnd.verdict, Invocation.close, halted, Snapshot.result] at finished
      cases finished
  | @suspended front last wake past waits =>
      have next := History.nextReadyTime?_of_waits past waits
      rw [PassEnd.verdict_suspended halted same next] at finished
      cases finished
      exact ⟨rfl, .inr ⟨front, last, wake, rfl, past, waits, rfl, rfl⟩⟩

/-- The halt of a pass comes from one of its calls, and no call halts it otherwise. -/
theorem Workflow.calls_of_halt {workflow : Workflow V O} {before final : Invocation V}
    (free : before.halt = none) {outcome : Except DurableError O}
    (ran : workflow.run before = (.returned outcome, final)) {halt : Halt}
    (halted : final.halt = some halt) :
    (∃ made ∈ workflow.calls before, made.reply = .returned (.error halt.toError)) ∧
      ∀ made ∈ workflow.calls before, ∀ error, made.reply = .returned (.error error) →
        error.halts = true → error = halt.toError := by
  classical
  cases first : (workflow.calls before).find? fun made => decide made.Halts with
  | none =>
      have goesOn : ∀ made ∈ workflow.calls before, ¬made.Halts := by
        simpa using List.find?_eq_none.mp first
      rw [run_free free goesOn ran] at halted
      cases halted
  | some made =>
      obtain ⟨halts, passed, later, split, before⟩ := List.find?_eq_some_iff_append.mp first
      have goesOn : ∀ earlier ∈ passed, ¬earlier.Halts := by simpa using before
      obtain ⟨error, replied, errorHalts⟩ := of_decide_eq_true halts
      have haltedAfter := MadeCall.halt_after (calls_free free split goesOn) replied
      obtain ⟨kept, same, rfl⟩ := Halt.ofError?_of_halts errorHalts
      have stopped : made.after.halt = some kept := haltedAfter.trans same
      rcases calls_split split with ⟨crashed, _⟩ | ⟨rest, _, rfl, ranAfter, _⟩
      · cases replied.symm.trans crashed
      · obtain ⟨_, _, restRan, haltedEnd, _⟩ := rest.run_halted stopped
        rw [ran, restRan] at ranAfter
        cases ranAfter
        obtain rfl := Option.some.inj (halted.symm.trans haltedEnd)
        rw [split]
        refine ⟨⟨made, by simp, replied⟩, ?_⟩
        intro other member failure otherReplied failureHalts
        rcases List.mem_append.mp member with earlier | here
        · exact absurd ⟨failure, otherReplied, failureHalts⟩ (goesOn other earlier)
        · rcases List.mem_cons.mp here with rfl | after
          · cases otherReplied.symm.trans replied
            rfl
          · have again := (MadeCall.of_halted (calls_halted stopped after)).1
            cases otherReplied.symm.trans again
            rfl

/-- A call of the visit was suspended until the given time, and none until another. -/
def Visit.SuspendedUntil (visit : Visit V O) (executionId : String) (store : Store)
    (wake : Instant) : Prop :=
  (∃ made ∈ visit.calls executionId store,
      made.reply = .returned (.error (.suspended wake))) ∧
    ∀ made ∈ visit.calls executionId store, ∀ time,
      made.reply = .returned (.error (.suspended time)) → time = wake

theorem Visit.SuspendedUntil.of_halt {visit : Visit V O} {executionId : String}
    {store after : Store} {log : OperationLog} {outcome : Except DurableError O}
    {final : Invocation V} {wake : Instant}
    (loaded : OperationLog.load store executionId = (.ok log, after))
    (ran : visit.workflow.run (visit.begun executionId log after) = (.returned outcome, final))
    (halted : final.halt = some (.suspended wake)) :
    visit.SuspendedUntil executionId store wake := by
  obtain ⟨⟨made, member, replied⟩, others⟩ := Workflow.calls_of_halt rfl ran halted
  simp only [SuspendedUntil, Visit.calls, loaded]
  refine ⟨⟨made, member, replied⟩, ?_⟩
  intro other isCall time otherReplied
  cases others other isCall _ otherReplied rfl
  rfl

/-- A session that has left these operations along an outline. -/
structure OutlineSession (executionId : String) (initial : Medium) (outline : Outline V)
    (operations : List Operation) (trace : List (Occurrence V)) (store : Store) : Prop where
  faithful : FaithfulSession executionId initial trace store.medium
  trails : outline.Trails [] operations
  latest : ∀ ordinal, History.latest? (records trace) ordinal = operations[ordinal]?

namespace OutlineSession

variable {executionId : String} {initial : Medium} {outline : Outline V}
  {operations : List Operation} {trace : List (Occurrence V)} {store : Store}

theorem stands (session : OutlineSession executionId initial outline operations trace store)
    (empty : initial.history executionId = .ok []) {log : OperationLog} {after : Store}
    (loaded : OperationLog.load store executionId = (.ok log, after)) (visit : Visit V O) :
    (visit.begun executionId log after).Stands [] operations :=
  .begun fun ordinal =>
    (session.faithful.lookup? empty loaded ordinal).trans (session.latest ordinal)

theorem leaves {visit : Visit V O} {log : OperationLog} {after : Store} {ending : PassEnd O}
    {final : Invocation V} {rest : List Operation}
    (session : OutlineSession executionId initial outline operations trace store)
    (empty : initial.history executionId = .ok [])
    (lossless : visit.workflow.EveryStep (StepCall.Lossless initial))
    (genuine : visit.clock.now.Genuine)
    (loaded : OperationLog.load store executionId = (.ok log, after))
    (ran : visit.workflow.run (visit.begun executionId log after) = (ending, final))
    (holds : final.log.Holds rest) (trails : outline.Trails [] rest) :
    OutlineSession executionId initial outline rest
      (trace ++ (visit.answer executionId store).occurrences)
      (visit.answer executionId store).store := by
  refine ⟨session.faithful.visit empty lossless genuine, trails, fun ordinal => ?_⟩
  obtain ⟨_, _, closing, ranHere, closingQuiet, occurrences, _⟩ := visit.answer_of_loaded loaded
  cases ran.symm.trans ranHere
  have found := holds ordinal
  rw [(Visit.reached_of_run ran).log, OperationLog.lookup?_insertAll, Visit.begun_log,
    session.faithful.lookup? empty loaded] at found
  rw [occurrences, ← List.append_assoc, closingQuiet.records_append, records_append,
    History.latest?_append]
  exact found

/-- After a visit the session has left operations along the outline again, and the result
says of them when the execution goes on. -/
theorem visit {visit : Visit V O}
    (session : OutlineSession executionId initial outline operations trace store)
    (empty : initial.history executionId = .ok [])
    (realizes : visit.workflow.Realizes outline)
    (lossless : visit.workflow.EveryStep (StepCall.Lossless initial))
    (genuine : visit.clock.now.Genuine) :
    ∃ rest, OutlineSession executionId initial outline rest
        (trace ++ (visit.answer executionId store).occurrences)
        (visit.answer executionId store).store ∧
      ∀ result, (visit.answer executionId store).verdict = .finished result →
        result.operations = rest ∧
          (result.isTerminal = true ∧ result.nextReadyAt = none ∨
            ∃ front last wake, rest = front ++ [last] ∧
              (∀ operation ∈ front, operation.Past) ∧ last.Waits wake ∧
              visit.SuspendedUntil executionId store wake ∧
              result = .suspended executionId rest wake) := by
  rcases visit.answer_cases executionId store with
    ⟨error, after, failed, answered⟩ |
      ⟨log, after, ending, final, closing, loaded, ran, _, _, _, verdict⟩
  · refine ⟨operations, ⟨session.faithful.visit empty lossless genuine, session.trails, ?_⟩, ?_⟩
    · rw [answered, List.append_nil]
      exact session.latest
    · intro result finished
      rw [answered] at finished
      cases finished
  · have decodes : visit.workflow.EveryStep (StepCall.Decodes (.memory [])) := by
      apply lossless.imp
      rintro call lossless value payload restored encoded given
      cases given
      exact (lossless value payload encoded).2
    have stands := session.stands empty loaded visit
    have passed := realizes.run decodes stands session.trails
    rw [ran] at passed
    cases passed with
    | crashed holds trails =>
        refine ⟨_, session.leaves empty lossless genuine loaded ran holds trails, ?_⟩
        intro result finished
        rw [verdict] at finished
        cases finished
    | returned outcome holds trails remainder =>
        refine ⟨_, session.leaves empty lossless genuine loaded ran holds trails, ?_⟩
        intro result finished
        rw [verdict] at finished
        obtain ⟨same, ends⟩ :=
          remainder.verdict (holds.operations (Visit.sorted_of_run loaded ran)) finished
        refine ⟨same, ends.imp id ?_⟩
        rintro ⟨front, last, wake, rfl, past, waits, halted, same⟩
        exact ⟨front, last, wake, rfl, past, waits, .of_halt loaded ran halted, same⟩

/-- What a session along an outline has left when it began over a medium that held nothing of
the execution. -/
theorem of_visits {store : Store} {visits : List (Visit V O)}
    (empty : store.medium.history executionId = .ok [])
    (realizes : ∀ visit ∈ visits, visit.workflow.Realizes outline)
    (lossless : ∀ visit ∈ visits, visit.workflow.EveryStep (StepCall.Lossless store.medium))
    (genuine : ∀ visit ∈ visits, visit.clock.now.Genuine) :
    ∃ operations, OutlineSession executionId store.medium outline operations
      (Session.occurrences executionId store visits)
      (Session.storeAfter executionId store visits) := by
  have initially : ∃ operations, OutlineSession executionId store.medium outline operations
      ([] : List (Occurrence V)) store :=
    ⟨[], ⟨rfl, by simp⟩, .ahead outline [], fun _ => rfl⟩
  have visited := Session.preserved
    (fun trace found => ∃ operations,
      OutlineSession executionId store.medium outline operations trace found)
    (fun (visit : Visit V O) (member : visit ∈ visits) trace found kept => by
      obtain ⟨operations, session⟩ := kept
      obtain ⟨rest, left, _⟩ :=
        session.visit empty (realizes visit member) (lossless visit member) (genuine visit member)
      exact ⟨rest, left⟩) initially
  rw [List.nil_append] at visited
  exact visited

end OutlineSession

namespace Visit

/-- The store gives the visit its log and takes all its records. -/
structure Served (visit : Visit V O) (executionId : String) (store : Store) : Prop where
  loads : ∃ log after, OperationLog.load store executionId = (.ok log, after)
  keeps : lost (visit.answer executionId store).occurrences = []

/-- The visit calls the operation of an ordinal, at this reading. -/
def ComesTo (visit : Visit V O) (executionId : String) (store : Store) (ordinal : Nat)
    (reading : Instant) : Prop :=
  ∃ made ∈ visit.calls executionId store, made.before.halt = none ∧
    made.before.nextOrdinal = ordinal ∧ made.before.now = reading

/-- A visit comes to an operation only once. -/
theorem ComesTo.unique {visit : Visit V O} {executionId : String} {store : Store} {ordinal : Nat}
    {reading other : Instant} (comes : visit.ComesTo executionId store ordinal reading)
    (again : visit.ComesTo executionId store ordinal other) : other = reading := by
  obtain ⟨made, member, free, here, rfl⟩ := comes
  obtain ⟨later, laterMember, laterFree, there, rfl⟩ := again
  obtain ⟨log, after, loaded, inPass⟩ := mem_calls member
  obtain ⟨_, _, loadedAgain, laterInPass⟩ := mem_calls laterMember
  cases loaded.symm.trans loadedAgain
  have apart := List.pairwise_iff_getElem.mp
    (visit.workflow.calls_apart (visit.begun executionId log after))
  obtain ⟨place, bound, rfl⟩ := List.getElem_of_mem inPass
  obtain ⟨laterPlace, laterBound, rfl⟩ := List.getElem_of_mem laterInPass
  rcases Nat.lt_trichotomy place laterPlace with first | rfl | second
  · have differ := apart place laterPlace bound laterBound first free
    omega
  · rfl
  · have differ := apart laterPlace place laterBound bound second laterFree
    omega

/-- What a visit does that comes, at this reading, to the operation for which an earlier one
was suspended. -/
structure Heeds (visit : Visit V O) (executionId : String) (store : Store)
    (result : ExecutionResult O) (operation : Operation) (wake reading : Instant) : Prop where
  comes : visit.ComesTo executionId store operation.ordinal reading
  once : ∀ other, visit.ComesTo executionId store operation.ordinal other → other = reading
  /-- The reading is that of the visit, unless the workflow takes time before the call. -/
  prompt : visit.workflow.Prompt → reading = visit.clock.now
  /-- Too early, it has the same result, records nothing and runs nothing. -/
  early : ¬wake ≤ reading →
    (visit.answer executionId store).verdict = .finished result ∧
      records (visit.answer executionId store).occurrences = [] ∧
      bodies (visit.answer executionId store).occurrences = []
  /-- In time, it records something for the operation, or dies in its next attempt. -/
  due : wake ≤ reading →
    (∃ record ∈ records (visit.answer executionId store).occurrences,
        record.ordinal = operation.ordinal) ∨
      (visit.answer executionId store).verdict = .crashed ∧
        ∃ time semantics context replaying,
          ⟨time, .bodyBegun operation.ordinal semantics context replaying⟩ ∈
            (visit.answer executionId store).occurrences ∧
          operation.attempt < context.attempt
  /-- In time, it is not put off again without a further attempt. -/
  further : wake ≤ reading → ∀ again,
    (visit.answer executionId store).verdict = .finished again →
      ∀ other ∈ again.operations, other.ordinal = operation.ordinal →
        other.status = .pending → operation.attempt < other.attempt

end Visit

/-- The invocation has gone past an operation that it has recorded. -/
structure Invocation.Left (ordinal : Nat) (record : Operation) (invocation : Invocation V) :
    Prop where
  behind : ordinal < invocation.nextOrdinal
  latest : History.latest? (records invocation.occurrences) ordinal = some record

theorem Invocation.left_preserved (ordinal : Nat) (record : Operation) :
    Invocation.Preserved (fun _ : StepCall V => True) (Invocation.Left ordinal record)
      (Invocation.Left ordinal record) := by
  have extend : ∀ {before after : Invocation V} {emitted : List (Occurrence V)},
      before.Left ordinal record → Extends before after emitted →
      before.nextOrdinal ≤ after.nextOrdinal →
      (∀ operation ∈ records emitted, operation.ordinal = before.nextOrdinal) →
      after.Left ordinal record := by
    intro before after emitted left extension further own
    have others : ∀ operation ∈ records emitted, operation.ordinal ≠ ordinal := by
      intro operation member same
      have behind := left.behind
      have here := own operation member
      omega
    constructor
    · exact Nat.lt_of_lt_of_le left.behind further
    · rw [extension.occurrences, records_append, History.latest?_append,
        History.latest?_eq_none others, Option.none_or]
      exact left.latest
  refine ⟨id, ?_, ?_, ?_⟩
  · intro before after emitted extension isQuiet place left
    apply extend left extension (Nat.le_of_eq place.nextOrdinal.symm)
    simp [isQuiet.records]
  · intro before after call reply middle _ free course called left
    have kept : after.Left ordinal record := by
      apply extend left called.extension
      · rw [called.nextOrdinal]
        exact Nat.le_succ _
      · intro operation member
        apply (course.ownRecords.own operation _).1
        simpa [Effect.record?, (reply.returning_quiet call.name after).records] using member
    exact ⟨kept, fun _ => kept⟩
  · intro before after call outcome middle free course called left
    apply extend left called.extension
    · rw [called.nextOrdinal]
      exact Nat.le_succ _
    · intro operation member
      apply (course.ownRecords.own operation _).1
      simpa [Effect.record?] using member

namespace MadeCall.Meets

variable {executionId : String} {store : Store} {visit : Visit V O} {made : MadeCall V}
  {front : List Operation} {last : Operation} {wake : Instant}
  (member : made ∈ visit.calls executionId store) (meets : made.Meets front last)
  (waits : last.Waits wake)

include member meets waits

/-- A visit that comes to the operation too early is suspended again, and changes
nothing. -/
theorem sleeps (past : ∀ operation ∈ front, operation.Past)
    (notDue : ¬wake ≤ made.before.now) :
    (visit.answer executionId store).verdict =
        .finished (.suspended executionId (front ++ [last]) wake) ∧
      Quiet (visit.answer executionId store).occurrences := by
  obtain ⟨returns, halted, holds, isQuiet⟩ := meets.early waits notDue
  obtain ⟨rest, restQuiet, occurred⟩ :=
    Visit.quiet_after_halt member returns (by simp [halted])
  obtain ⟨log, after, loaded, inPass⟩ := Visit.mem_calls member
  obtain ⟨passed, later, split⟩ := List.append_of_mem inPass
  constructor
  · obtain ⟨ending, final, closing, ran, _, _, _, verdict⟩ := visit.answer_of_loaded loaded
    rcases Workflow.calls_split split with ⟨crashed, _⟩ | ⟨left, _, _, ranAfter, _⟩
    · exact absurd crashed returns
    · obtain ⟨outcome, ended, leftRan, haltedEnd, sameEnd⟩ := left.run_halted halted
      have sorted := Visit.sorted_of_run loaded ran
      rw [ran, leftRan] at ranAfter
      cases ranAfter
      rw [← sameEnd] at holds
      rw [verdict]
      exact PassEnd.verdict_suspended haltedEnd (holds.operations sorted)
        (History.nextReadyTime?_of_waits past waits) executionId outcome
  · rw [occurred]
    exact isQuiet.append restQuiet

/-- A visit that comes to the operation in time leaves another record of it, unless the
process dies in the next attempt. -/
theorem resumes (served : visit.Served executionId store) (isDue : wake ≤ made.before.now) :
    (∃ record,
        History.latest? (records (visit.answer executionId store).occurrences) last.ordinal =
          some record ∧
        (record.status = .pending → last.attempt < record.attempt)) ∨
      (visit.answer executionId store).verdict = .crashed ∧
        ∃ time semantics context replaying,
          ⟨time, .bodyBegun last.ordinal semantics context replaying⟩ ∈
            (visit.answer executionId store).occurrences ∧
          last.attempt < context.attempt := by
  cases meets.due waits isDue with
  | failed lost =>
      cases List.filterMap_eq_nil_iff.mp served.keeps _ (Visit.emitted_in_answer member lost)
  | recorded record returns latest behind further =>
      left
      refine ⟨record, ?_, further⟩
      have left : made.after.Left last.ordinal record := by
        refine ⟨behind, ?_⟩
        rw [made.occurrences_after, records_append, History.latest?_append, latest,
          Option.some_or]
      obtain ⟨ended, closing, endedLeft, closingQuiet, occurrences⟩ :=
        Visit.answer_after (Invocation.left_preserved last.ordinal record)
          visit.workflow.everyStep_true member returns left
      rw [occurrences, closingQuiet.records_append]
      exact endedLeft.latest
  | crashed crashes begun further =>
      refine .inr ⟨?_, _, _, _, _, Visit.emitted_in_answer member begun, further⟩
      obtain ⟨log, after, loaded, inPass⟩ := Visit.mem_calls member
      obtain ⟨passed, later, split⟩ := List.append_of_mem inPass
      obtain ⟨ending, final, closing, ran, _, _, _, verdict⟩ := visit.answer_of_loaded loaded
      rcases Workflow.calls_split split with ⟨_, _, ended⟩ | ⟨_, returns, _⟩
      · rw [ran] at ended
        cases ended
        exact verdict
      · exact absurd crashes returns

end MadeCall.Meets

/-- Visits that the store serves, and that come to the operation too early. -/
def Session.Early (executionId : String) (ordinal : Nat) (wake : Instant) (store : Store) :
    List (Visit V O) → Prop
  | [] => True
  | visit :: rest =>
    visit.Served executionId store ∧
      (∀ reading, visit.ComesTo executionId store ordinal reading → ¬wake ≤ reading) ∧
      Early executionId ordinal wake (visit.answer executionId store).store rest

namespace OutlineSession

variable {executionId : String} {initial : Medium} {outline : Outline V}
  {front : List Operation} {last : Operation} {wake : Instant}
  {trace : List (Occurrence V)} {store : Store}
  (empty : initial.history executionId = .ok [])
  (past : ∀ operation ∈ front, operation.Past) (waits : last.Waits wake)

include empty

/-- Every visit that the store serves comes to the last operation. -/
theorem meets {visit : Visit V O}
    (session : OutlineSession executionId initial outline (front ++ [last]) trace store)
    (realizes : visit.workflow.Realizes outline) (served : visit.Served executionId store) :
    ∃ made ∈ visit.calls executionId store, made.Meets front last ∧
      (visit.workflow.Prompt → made.before.now = visit.clock.now) := by
  obtain ⟨log, after, loaded⟩ := served.loads
  obtain ⟨made, member, meets, onTime⟩ :=
    realizes.meets (session.stands empty loaded visit) session.trails
      (visit.begun_quiet executionId log after)
  refine ⟨made, ?_, meets, fun prompt => congrArg Clock.now (onTime prompt)⟩
  simp only [Visit.calls, loaded]
  exact member

include past waits

theorem heeds {visit : Visit V O}
    (session : OutlineSession executionId initial outline (front ++ [last]) trace store)
    (realizes : visit.workflow.Realizes outline)
    (lossless : visit.workflow.EveryStep (StepCall.Lossless initial))
    (genuine : visit.clock.now.Genuine) (served : visit.Served executionId store) :
    ∃ reading, visit.Heeds executionId store (.suspended executionId (front ++ [last]) wake) last
      wake reading := by
  obtain ⟨made, member, meets, onTime⟩ := session.meets empty realizes served
  have comes : visit.ComesTo executionId store last.ordinal made.before.now :=
    ⟨made, member, meets.stands.free, meets.ordinal.symm, rfl⟩
  refine ⟨made.before.now, ?_⟩
  constructor
  · exact comes
  · exact fun other again => comes.unique again
  · exact onTime
  · intro notDue
    obtain ⟨verdict, isQuiet⟩ := meets.sleeps member waits past notDue
    exact ⟨verdict, isQuiet.records, isQuiet.bodies⟩
  · intro isDue
    refine (meets.resumes member waits served isDue).imp ?_ id
    rintro ⟨record, latest, _⟩
    exact ⟨record, History.latest?_mem latest⟩
  · intro isDue again finished other isOther here pending
    obtain ⟨rest, visited, reports⟩ := session.visit empty realizes lossless genuine
    obtain ⟨rfl, _⟩ := reports again finished
    rcases meets.resumes member waits served isDue with
      ⟨record, latest, further⟩ | ⟨crashed, _⟩
    · obtain ⟨ordinal, atOrdinal⟩ := List.getElem?_of_mem isOther
      have found := (visited.latest ordinal).trans atOrdinal
      obtain rfl : ordinal = last.ordinal := (History.latest?_mem found).2.symm.trans here
      rw [records_append, History.latest?_append, latest, Option.some_or] at found
      obtain rfl := Option.some.inj found
      exact further pending
    · cases finished.symm.trans crashed

theorem after_early {visits : List (Visit V O)}
    (session : OutlineSession executionId initial outline (front ++ [last]) trace store)
    (realizes : ∀ visit ∈ visits, visit.workflow.Realizes outline)
    (lossless : ∀ visit ∈ visits, visit.workflow.EveryStep (StepCall.Lossless initial))
    (genuine : ∀ visit ∈ visits, visit.clock.now.Genuine)
    (early : Session.Early executionId last.ordinal wake store visits) :
    ∃ trace, OutlineSession executionId initial outline (front ++ [last]) trace
      (Session.storeAfter executionId store visits) := by
  induction visits generalizing trace store with
  | nil => exact ⟨trace, session⟩
  | cons visit rest induction =>
      obtain ⟨served, notDue, later⟩ := early
      have here : visit ∈ visit :: rest := List.mem_cons_self
      obtain ⟨made, member, meets, _⟩ := session.meets empty (realizes visit here) served
      have tooEarly := notDue _ ⟨made, member, meets.stands.free, meets.ordinal.symm, rfl⟩
      obtain ⟨_, isQuiet⟩ := meets.sleeps member waits past tooEarly
      have unchanged : OutlineSession executionId initial outline (front ++ [last])
          (trace ++ (visit.answer executionId store).occurrences)
          (visit.answer executionId store).store := by
        refine ⟨session.faithful.visit empty (lossless visit here) (genuine visit here),
          session.trails, ?_⟩
        intro ordinal
        rw [isQuiet.records_append]
        exact session.latest ordinal
      exact induction unchanged (fun visited inRest => realizes visited (.tail _ inRest))
        (fun visited inRest => lossless visited (.tail _ inRest))
        (fun visited inRest => genuine visited (.tail _ inRest)) later

end OutlineSession

/-- The next ready time is exact.  When a deterministic workflow is invoked again and again,
over any store that held nothing of the execution, with any faults, crashes and delays, a
terminal result has no next ready time.  A pending result has the time until which a call
was suspended, which is the ready time of its last operation, the only one that is pending.
Further visits that come to this operation before that time have the same result, record
nothing and run nothing; the next one in time records something for the operation, or dies
in its next attempt, and does not put the same attempt off again. -/
theorem next_ready_time_is_exact {outline : Outline V} {executionId : String} {store : Store}
    {visits : List (Visit V O)} (empty : store.medium.history executionId = .ok [])
    (realizes : ∀ visit ∈ visits, visit.workflow.Realizes outline)
    (lossless : ∀ visit ∈ visits, visit.workflow.EveryStep (StepCall.Lossless store.medium))
    (genuine : ∀ visit ∈ visits, visit.clock.now.Genuine) :
    ∀ earlier visit later result, visits = earlier ++ visit :: later →
      (visit.answer executionId (Session.storeAfter executionId store earlier)).verdict =
        .finished result →
      (result.isTerminal = true → result.nextReadyAt = none) ∧
        (result.isTerminal = false → ∃ operation wake, result.WakesAt operation wake ∧
          visit.SuspendedUntil executionId (Session.storeAfter executionId store earlier) wake ∧
          ∀ early next tail, later = early ++ next :: tail →
            Session.Early executionId operation.ordinal wake
              (Session.storeAfter executionId store (earlier ++ [visit])) early →
            next.Served executionId
              (Session.storeAfter executionId store (earlier ++ visit :: early)) →
            ∃ reading, next.Heeds executionId
              (Session.storeAfter executionId store (earlier ++ visit :: early)) result operation
              wake reading) := by
  rintro earlier visit later result rfl finished
  have before : ∀ visited ∈ earlier, visited ∈ earlier ++ visit :: later :=
    fun _ => List.mem_append_left _
  have here : visit ∈ earlier ++ visit :: later := by simp
  obtain ⟨operations, session⟩ := OutlineSession.of_visits empty
    (fun visited member => realizes visited (before visited member))
    (fun visited member => lossless visited (before visited member))
    (fun visited member => genuine visited (before visited member))
  obtain ⟨rest, visited, reports⟩ :=
    session.visit empty (realizes visit here) (lossless visit here) (genuine visit here)
  rcases (reports result finished).2 with
    ⟨terminal, nothing⟩ | ⟨front, last, wake, rfl, past, waits, suspended, rfl⟩
  · refine ⟨fun _ => nothing, ?_⟩
    intro pending
    rw [terminal] at pending
    cases pending
  · constructor
    · intro terminal
      cases terminal
    intro _
    refine ⟨last, wake, ExecutionResult.wakesAt_suspended past waits, suspended, ?_⟩
    rintro early next tail rfl tooEarly served
    have storeHere : Session.storeAfter executionId store (earlier ++ [visit]) =
        (visit.answer executionId (Session.storeAfter executionId store earlier)).store :=
      Session.storeAfter_append executionId store earlier [visit]
    have storeThere : Session.storeAfter executionId store (earlier ++ visit :: early) =
        Session.storeAfter executionId
          (visit.answer executionId (Session.storeAfter executionId store earlier)).store early :=
      Session.storeAfter_append executionId store earlier (visit :: early)
    rw [storeHere] at tooEarly
    rw [storeThere] at served ⊢
    have between : ∀ other ∈ early, other ∈ earlier ++ visit :: (early ++ next :: tail) := by
      intro other member
      simp [member]
    have further : next ∈ earlier ++ visit :: (early ++ next :: tail) := by simp
    obtain ⟨trace, unchanged⟩ := visited.after_early empty past waits
      (fun other member => realizes other (between other member))
      (fun other member => lossless other (between other member))
      (fun other member => genuine other (between other member)) tooEarly
    exact unchanged.heeds empty past waits (realizes next further) (lossless next further)
      (genuine next further) served

/-- A visit whose workflow waits once. -/
def Visit.ofWait (now : Instant) (duration : Duration) : Visit Unit Unit where
  clock := ⟨now⟩
  suppressReplayLogs := false
  workflow := .wait "w" duration fun outcome => .done outcome

/-- A wait for a second from the epoch on: a visit that comes too early changes nothing, and
the timer is closed by the one that comes in time. -/
theorem timer_wakes_on_time :
    ∃ result operation reading,
      ((Visit.ofWait ⟨0, 0⟩ (.ofSeconds 1)).answer "run" .empty).verdict = .finished result ∧
        result.WakesAt operation ⟨1, 0⟩ ∧
        (Visit.ofWait ⟨1, 0⟩ (.ofSeconds 1)).Heeds "run"
          (Session.storeAfter "run" .empty
            [.ofWait ⟨0, 0⟩ (.ofSeconds 1), .ofWait ⟨0, 5⟩ (.ofSeconds 1)])
          result operation ⟨1, 0⟩ reading := by
  have realizes : ∀ visit ∈ [Visit.ofWait ⟨0, 0⟩ (.ofSeconds 1), .ofWait ⟨0, 5⟩ (.ofSeconds 1),
      .ofWait ⟨1, 0⟩ (.ofSeconds 1)], visit.workflow.Realizes (.wait "w" .done) := by
    intro visit member
    simp only [List.mem_cons, List.not_mem_nil, or_false] at member
    rcases member with rfl | rfl | rfl <;> exact .wait (.done _)
  have lossless : ∀ visit ∈ [Visit.ofWait ⟨0, 0⟩ (.ofSeconds 1), .ofWait ⟨0, 5⟩ (.ofSeconds 1),
      .ofWait ⟨1, 0⟩ (.ofSeconds 1)],
      visit.workflow.EveryStep (StepCall.Lossless Store.empty.medium) := by
    intro visit member
    simp only [List.mem_cons, List.not_mem_nil, or_false] at member
    rcases member with rfl | rfl | rfl <;> exact fun _ => trivial
  have genuine : ∀ visit ∈ [Visit.ofWait ⟨0, 0⟩ (.ofSeconds 1), .ofWait ⟨0, 5⟩ (.ofSeconds 1),
      .ofWait ⟨1, 0⟩ (.ofSeconds 1)], visit.clock.now.Genuine := by
    intro visit member
    simp only [List.mem_cons, List.not_mem_nil, or_false] at member
    rcases member with rfl | rfl | rfl <;> exact ⟨by decide, by decide⟩
  have empty : Store.empty.medium.history "run" = .ok [] := rfl
  have finished : ((Visit.ofWait ⟨0, 0⟩ (.ofSeconds 1)).answer "run" .empty).verdict =
      .finished (.suspended "run" [.timer 0 "w" ⟨1, 0⟩] ⟨1, 0⟩) := rfl
  obtain ⟨_, wakes⟩ :=
    next_ready_time_is_exact empty realizes lossless genuine [] _ _ _ rfl finished
  obtain ⟨operation, wake, wakesAt, _, heeds⟩ := wakes rfl
  obtain rfl : ⟨1, 0⟩ = wake := Option.some.inj wakesAt.nextReadyAt
  obtain rfl : Operation.timer 0 "w" ⟨1, 0⟩ = operation := Option.some.inj wakesAt.last
  have tooEarly : Session.Early "run" 0 ⟨1, 0⟩
      (Session.storeAfter "run" .empty [.ofWait ⟨0, 0⟩ (.ofSeconds 1)])
      [Visit.ofWait ⟨0, 5⟩ (.ofSeconds 1)] := by
    refine ⟨⟨⟨_, _, rfl⟩, rfl⟩, ?_, trivial⟩
    rintro reading ⟨made, member, _, _, rfl⟩
    obtain rfl := List.mem_singleton.mp member
    decide
  have served : (Visit.ofWait ⟨1, 0⟩ (.ofSeconds 1)).Served "run" (Session.storeAfter "run" .empty
      [.ofWait ⟨0, 0⟩ (.ofSeconds 1), .ofWait ⟨0, 5⟩ (.ofSeconds 1)]) := ⟨⟨_, _, rfl⟩, rfl⟩
  obtain ⟨reading, heeded⟩ := heeds [_] _ [] rfl tooEarly served
  exact ⟨_, _, reading, finished, wakesAt, heeded⟩

end Durable
