import Durable.Proofs.SessionChronicle

/-!
# The protocol of an operation

The records of a step form a word of attempts with consecutive numbers.  An attempt under
at-most-once semantics is a marker, followed by nothing, by the report of its interruption
or by its outcome; any other attempt is its outcome alone.  A further attempt follows only
one that was put off.  A timer is recorded when it starts and when it ends, with one ready
time.
-/

namespace Durable

variable {V O : Type} {semantics : String → StepSemantics} {medium : Medium}

open Occurrence OperationUpdate

namespace History

/-- The records of an ordinal. -/
def ofOrdinal (history : List Operation) (ordinal : Nat) : List Operation :=
  history.filter (·.ordinal == ordinal)

theorem getLast?_ofOrdinal (history : List Operation) (ordinal : Nat) :
    (ofOrdinal history ordinal).getLast? = latest? history ordinal :=
  rfl

theorem ofOrdinal_append (earlier later : List Operation) (ordinal : Nat) :
    ofOrdinal (earlier ++ later) ordinal = ofOrdinal earlier ordinal ++ ofOrdinal later ordinal :=
  List.filter_append ..

theorem ofOrdinal_eq_self {history : List Operation} {ordinal : Nat}
    (own : ∀ record ∈ history, record.ordinal = ordinal) : ofOrdinal history ordinal = history :=
  List.filter_eq_self.mpr fun record member => by simp [own record member]

theorem ofOrdinal_eq_nil {history : List Operation} {ordinal : Nat}
    (others : ∀ record ∈ history, record.ordinal ≠ ordinal) : ofOrdinal history ordinal = [] :=
  List.filter_eq_nil_iff.mpr fun record member => by simp [others record member]

end History

namespace OperationUpdate

/-- The records of one attempt of a step. -/
inductive Block (semantics : StepSemantics) (name : String) (attempt : Nat) :
    List OperationUpdate → Prop where
  | marked (guarded : semantics = .atMostOnce) :
      Block semantics name attempt [.started attempt]
  | reported (guarded : semantics = .atMostOnce) :
      Block semantics name attempt [.started attempt, .reported name attempt]
  | closed {outcome : OperationUpdate} (guarded : semantics = .atMostOnce)
      (ends : Outcome attempt outcome) :
      Block semantics name attempt [.started attempt, outcome]
  | attempted {outcome : OperationUpdate} (unguarded : semantics = .atLeastOnce)
      (ends : Outcome attempt outcome) : Block semantics name attempt [outcome]

/-- The records of a step: blocks of attempts `1`, `2` and so on, each but the last of
which ends with a retry. -/
inductive Word (semantics : StepSemantics) (name : String) :
    Nat → List OperationUpdate → Prop where
  | empty : Word semantics name 0 []
  | first {block : List OperationUpdate} (begun : Block semantics name 1 block) :
      Word semantics name 1 block
  | again {attempt : Nat} {earlier block : List OperationUpdate} {readyAt : Instant}
      (word : Word semantics name attempt (earlier ++ [.retryScheduled attempt readyAt]))
      (begun : Block semantics name (attempt + 1) block) :
      Word semantics name (attempt + 1) (earlier ++ [.retryScheduled attempt readyAt] ++ block)

/-- The records of a timer. -/
inductive TimerWord : List OperationUpdate → Prop where
  | running (readyAt : Instant) : TimerWord [.runsUntil readyAt]
  | elapsed (readyAt : Instant) : TimerWord [.runsUntil readyAt, .elapsedAt readyAt]
  | passed (readyAt : Instant) : TimerWord [.elapsedAt readyAt]

section Word

variable {semantics : StepSemantics} {name : String} {attempt : Nat}
  {updates : List OperationUpdate}

theorem Outcome.attempt_eq {outcome : OperationUpdate} (ends : Outcome attempt outcome) :
    outcome.attempt = attempt := by
  cases ends <;> rfl

theorem Outcome.status_ne {outcome : OperationUpdate} (ends : Outcome attempt outcome) :
    outcome.status ≠ .started := by
  cases ends <;> intro started <;> cases started

theorem Block.attempt_eq (block : Block semantics name attempt updates) :
    ∀ update ∈ updates, update.attempt = attempt := by
  cases block with
  | marked guarded => simp [started]
  | reported guarded => simp [started, OperationUpdate.reported, interrupted]
  | closed guarded ends => simp [started, ends.attempt_eq]
  | attempted unguarded ends => simp [ends.attempt_eq]

theorem Block.ne_nil (block : Block semantics name attempt updates) : updates ≠ [] := by
  cases block <;> simp

theorem Block.of_getLast? {other : Nat} (block : Block semantics name attempt updates)
    (last : updates.getLast? = some (.started other)) :
    updates = [.started attempt] ∧ other = attempt := by
  cases block with
  | marked guarded =>
      have same : attempt = other :=
        congrArg OperationUpdate.attempt (Option.some.inj last)
      exact ⟨rfl, same.symm⟩
  | reported guarded =>
      have error := congrArg OperationUpdate.error (Option.some.inj last)
      cases error
  | closed guarded ends =>
      have status := congrArg OperationUpdate.status (Option.some.inj last)
      exact absurd status ends.status_ne
  | attempted unguarded ends =>
      have status := congrArg OperationUpdate.status (Option.some.inj last)
      exact absurd status ends.status_ne

private theorem getLast?_block {earlier : List OperationUpdate}
    (block : Block semantics name attempt updates) :
    (earlier ++ updates).getLast? = updates.getLast? := by
  rw [List.getLast?_append]
  cases last : updates.getLast? with
  | none => exact absurd (List.getLast?_eq_none_iff.mp last) block.ne_nil
  | some update => rfl

theorem Word.attempt_eq (word : Word semantics name attempt updates) :
    attempt = (updates.getLast?.map OperationUpdate.attempt).elim 0 id := by
  have last : ∀ {number : Nat} {block : List OperationUpdate},
      Block semantics name number block →
        number = (block.getLast?.map OperationUpdate.attempt).elim 0 id := by
    intro number block begun
    cases found : block.getLast? with
    | none => exact absurd (List.getLast?_eq_none_iff.mp found) begun.ne_nil
    | some update => exact (begun.attempt_eq update (List.mem_of_getLast? found)).symm
  cases word with
  | empty => rfl
  | first begun => exact last begun
  | again word begun =>
      rw [getLast?_block begun]
      exact last begun

theorem Word.begin {block : List OperationUpdate} {number : Nat}
    (word : Word semantics name attempt updates) (begins : Begins updates.getLast? number)
    (begun : Block semantics name number block) :
    Word semantics name number (updates ++ block) := by
  generalize last : updates.getLast? = before at begins
  cases begins with
  | first =>
      rw [List.getLast?_eq_none_iff.mp last]
      exact .first begun
  | again other readyAt =>
      have same := word.attempt_eq
      rw [last] at same
      obtain rfl : attempt = other := same
      obtain ⟨earlier, rfl⟩ := List.getLast?_eq_some_iff.mp last
      exact .again word begun

theorem Word.report {number : Nat} (word : Word semantics name attempt updates)
    (last : updates.getLast? = some (.started number)) (guarded : semantics = .atMostOnce) :
    Word semantics name attempt (updates ++ [.reported name number]) := by
  cases word with
  | empty => cases last
  | first begun =>
      obtain ⟨rfl, rfl⟩ := begun.of_getLast? last
      exact .first (.reported guarded)
  | again word begun =>
      rw [getLast?_block begun] at last
      obtain ⟨rfl, rfl⟩ := begun.of_getLast? last
      rw [List.append_assoc]
      exact .again word (.reported guarded)

theorem Word.advance {more : List OperationUpdate} (word : Word semantics name attempt updates)
    (advance : StepAdvance semantics name updates.getLast? more) :
    ∃ number, Word semantics name number (updates ++ more) := by
  generalize last : updates.getLast? = before at advance
  cases advance with
  | marked guarded begins => exact ⟨_, word.begin (by rwa [last]) (.marked guarded)⟩
  | closed guarded begins ends => exact ⟨_, word.begin (by rwa [last]) (.closed guarded ends)⟩
  | attempted unguarded begins ends =>
      exact ⟨_, word.begin (by rwa [last]) (.attempted unguarded ends)⟩
  | reported number guarded => exact ⟨_, word.report last guarded⟩

end Word

end OperationUpdate

/-- The records of the ordinal are those of a step with so many attempts. -/
def StepHistory (semantics : String → StepSemantics) (ordinal : Nat) (name : String)
    (attempts : Nat) (history : List Operation) : Prop :=
  ∃ updates, History.ofOrdinal history ordinal =
      updates.map (Operation.unwritten .step ordinal name).withState ∧
    Word (semantics name) name attempts updates

/-- The records of the ordinal are those of a timer. -/
def TimerHistory (ordinal : Nat) (name : String) (history : List Operation) : Prop :=
  ∃ updates, History.ofOrdinal history ordinal =
      updates.map (Operation.unwritten .timer ordinal name).withState ∧ TimerWord updates

/-- The records of the ordinal are those of a step or of a timer. -/
def FollowsProtocol (semantics : String → StepSemantics) (ordinal : Nat)
    (history : List Operation) : Prop :=
  (∃ name attempts, StepHistory semantics ordinal name attempts history) ∨
    ∃ name, TimerHistory ordinal name history

/-- Timers end at instants that come back from the medium as they are. -/
def Timely (medium : Medium) (history : List Operation) : Prop :=
  ∀ record ∈ history, ∀ readyAt, record.kind = .timer → record.status = .pending →
    record.readyAt = some readyAt → medium.restoreTime readyAt = some readyAt

section Entries

variable {kind : OperationKind} {ordinal : Nat} {name : String}
  {updates more : List OperationUpdate} {history : List Operation}

private theorem latest?_of_states (states : History.ofOrdinal history ordinal =
      updates.map (Operation.unwritten kind ordinal name).withState) :
    History.latest? history ordinal =
      updates.getLast?.map (Operation.unwritten kind ordinal name).withState := by
  rw [← History.getLast?_ofOrdinal, states, List.getLast?_map]

private theorem state_of_states (states : History.ofOrdinal history ordinal =
      updates.map (Operation.unwritten kind ordinal name).withState) :
    (History.latest? history ordinal).map Operation.state = updates.getLast? := by
  rw [latest?_of_states states, Option.map_map]
  exact Option.map_id_apply

theorem ofOrdinal_entry (history : List Operation) :
    History.ofOrdinal (history ++ more.map (Operation.unwritten kind ordinal name).withState)
      ordinal = History.ofOrdinal history ordinal ++
        more.map (Operation.unwritten kind ordinal name).withState := by
  rw [History.ofOrdinal_append]
  congr 1
  exact History.ofOrdinal_eq_self fun record member => ordinal_of_mem_entry member

theorem ofOrdinal_entry_other {other : Nat} (elsewhere : ordinal ≠ other)
    (history : List Operation) :
    History.ofOrdinal (history ++ more.map (Operation.unwritten kind ordinal name).withState)
      other = History.ofOrdinal history other := by
  have others : ∀ record ∈ more.map (Operation.unwritten kind ordinal name).withState,
      record.ordinal ≠ other := by
    intro record member
    rw [ordinal_of_mem_entry member]
    exact elsewhere
  rw [History.ofOrdinal_append, History.ofOrdinal_eq_nil others, List.append_nil]

theorem StepHistory.attempts_eq {attempts : Nat}
    (steps : StepHistory semantics ordinal name attempts history) :
    attempts = History.attemptAt history ordinal := by
  obtain ⟨updates, states, word⟩ := steps
  rw [History.attemptAt, latest?_of_states states, Option.map_map]
  exact word.attempt_eq

theorem StepHistory.extend {attempts : Nat}
    (steps : StepHistory semantics ordinal name attempts history)
    (advance : StepAdvance (semantics name) name
      ((History.latest? history ordinal).map Operation.state) more) :
    ∃ number, StepHistory semantics ordinal name number
      (history ++ more.map (Operation.unwritten .step ordinal name).withState) := by
  obtain ⟨updates, states, word⟩ := steps
  rw [state_of_states states] at advance
  obtain ⟨number, longer⟩ := word.advance advance
  refine ⟨number, updates ++ more, ?_, longer⟩
  rw [ofOrdinal_entry, states, List.map_append]

theorem TimerHistory.extend (timer : TimerHistory ordinal name history)
    (timely : Timely medium history)
    (advance : TimerAdvance medium ((History.latest? history ordinal).map Operation.state)
      more) :
    TimerHistory ordinal name
      (history ++ more.map (Operation.unwritten .timer ordinal name).withState) := by
  obtain ⟨updates, states, word⟩ := timer
  rw [state_of_states states] at advance
  cases word with
  | running readyAt =>
      cases advance with
      | elapsed given =>
          have member : (Operation.unwritten .timer ordinal name).withState (.runsUntil readyAt) ∈
              History.ofOrdinal history ordinal := by
            rw [states]
            exact List.mem_singleton.mpr rfl
          have kept : medium.restoreTime readyAt = some readyAt :=
            timely _ (List.mem_filter.mp member).1 readyAt rfl rfl rfl
          obtain rfl := Option.some.inj (kept.symm.trans given)
          refine ⟨_, ?_, .elapsed readyAt⟩
          rw [ofOrdinal_entry, states]
          rfl
  | elapsed readyAt => cases advance
  | passed readyAt => cases advance

private theorem first_entry (nothing : History.ofOrdinal history ordinal = [])
    (advance : Advance semantics medium kind name none more) :
    FollowsProtocol semantics ordinal
      (history ++ more.map (Operation.unwritten kind ordinal name).withState) := by
  have states : History.ofOrdinal
      (history ++ more.map (Operation.unwritten kind ordinal name).withState) ordinal =
        more.map (Operation.unwritten kind ordinal name).withState := by
    rw [ofOrdinal_entry, nothing, List.nil_append]
  cases kind with
  | step =>
      obtain ⟨number, word⟩ := Word.empty.advance advance
      exact .inl ⟨name, number, more, states, word⟩
  | timer =>
      cases advance with
      | started readyAt => exact .inr ⟨name, _, states, .running readyAt⟩
      | passed readyAt => exact .inr ⟨name, _, states, .passed readyAt⟩

end Entries

/-- In a chronicle every operation follows the protocol of its kind. -/
theorem Chronicle.protocol {records : List Operation}
    (chronicle : Chronicle semantics medium [] records) (timely : Timely medium records)
    (ordinal : Nat) : FollowsProtocol semantics ordinal records := by
  induction chronicle with
  | nil => exact .inl ⟨"", 0, [], rfl, .empty⟩
  | @call added kind own name updates chronicle entry induction =>
      rw [List.nil_append] at entry
      have timelyBefore : Timely medium added := fun record member =>
        timely record (List.mem_append_left _ member)
      have before := induction timelyBefore
      by_cases here : own = ordinal
      · subst here
        have advance := entry.advance
        cases latest : History.latest? added own with
        | none =>
            rw [latest] at advance
            exact first_entry (List.getLast?_eq_none_iff.mp latest) advance
        | some record =>
            obtain ⟨sameKind, sameName⟩ := entry.same record latest
            rcases before with ⟨stepName, attempts, steps⟩ | ⟨timerName, timer⟩
            · obtain ⟨_, states, _⟩ := id steps
              rw [latest?_of_states states] at latest
              obtain ⟨last, _, rfl⟩ := Option.map_eq_some_iff.mp latest
              obtain rfl : .step = kind := sameKind
              obtain rfl : stepName = name := sameName
              exact .inl ⟨stepName, steps.extend advance⟩
            · obtain ⟨_, states, _⟩ := id timer
              rw [latest?_of_states states] at latest
              obtain ⟨last, _, rfl⟩ := Option.map_eq_some_iff.mp latest
              obtain rfl : .timer = kind := sameKind
              obtain rfl : timerName = name := sameName
              exact .inr ⟨timerName, timer.extend timelyBefore advance⟩
      · simp only [FollowsProtocol, StepHistory, TimerHistory, ofOrdinal_entry_other here]
        exact before

namespace Timely

theorem append {earlier later : List Operation} (first : Timely medium earlier)
    (second : Timely medium later) : Timely medium (earlier ++ later) := by
  intro record member
  rcases List.mem_append.mp member with before | after
  · exact first record before
  · exact second record after

/-- In a history that is read back, timers end at instants that have come back. -/
theorem of_restored {written read : List Operation}
    (restores : List.Forall₂ medium.Restores written read) : Timely medium read := by
  induction restores with
  | nil => simp [Timely]
  | @cons record back rest restBack given _ induction =>
      intro other member readyAt kind status time
      rcases List.mem_cons.mp member with rfl | later
      · obtain ⟨result, found, rfl, _, timeGiven⟩ := given
        obtain rfl : found = some readyAt := time
        cases written : record.readyAt with
        | none =>
            rw [written] at timeGiven
            cases timeGiven
        | some t =>
            rw [written] at timeGiven
            obtain ⟨_, kept, same⟩ := Medium.of_mapM_some timeGiven
            cases same
            exact Medium.restoreTime_restored kept
      · exact induction other later readyAt kind status time

end Timely

theorem WaitCourse.timely {invocation : Invocation V} {call : WaitCall}
    {outcome : Except DurableError Unit} {middle : List (Occurrence V)}
    (course : WaitCourse invocation call outcome middle) (genuine : invocation.now.Genuine) :
    Timely medium (records middle) := by
  have nothing : Timely medium [] := by simp [Timely]
  -- A record that is not pending does not count.
  have ended : ∀ {timer : Operation}, Timely medium [timer.elapsed] := by
    intro timer record member readyAt kind status
    rw [List.mem_singleton.mp member] at status
    cases status
  cases course with
  | duplicate first known => exact nothing
  | mismatched operation fresh found other => exact nothing
  | planned recorded fresh found same course =>
      generalize WaitPlan.ofRecord recorded invocation.now = plan at course
      cases course with
      | pass => exact nothing
      | fail error => exact nothing
      | unelapsed timer error faulty => exact nothing
      | lost written error faulty => exact nothing
      | elapsed timer diagnostic => exact ended
      | passed due => exact ended
      | started notDue diagnostic =>
          intro record member readyAt kind status time
          obtain rfl : record = call.timer invocation := List.mem_singleton.mp member
          cases time
          exact medium.restoreTime_genuine (genuine.add call.duration)

/-- Under a clock that shows genuine instants a pass starts timers that end at such
instants, and these come back as they are. -/
theorem timely_preserved (medium : Medium) : Invocation.Preserved (fun _ : StepCall V => True)
    (fun invocation => invocation.now.Genuine ∧ Timely medium (records invocation.occurrences))
    fun invocation => Timely medium (records invocation.occurrences) := by
  refine ⟨And.right, ?_, ?_, ?_⟩
  · rintro before after emitted extension isQuiet place ⟨genuine, timely⟩
    rw [extension.occurrences, isQuiet.records_append]
    exact ⟨extension.clock.genuine genuine, timely⟩
  · rintro before after call reply middle _ free course called ⟨genuine, timely⟩
    have steps : Timely medium (records middle) := by
      intro record member readyAt kind
      rw [(course.ownRecords.own record member).2.1] at kind
      cases kind
    rw [called.records, (reply.returning_quiet call.name after).records_append]
    exact ⟨timely.append steps, fun _ =>
      ⟨called.extension.clock.genuine genuine, timely.append steps⟩⟩
  · rintro before after call outcome middle free course called ⟨genuine, timely⟩
    have silent : Occurrence.Quiet [(⟨after.now, .waitReturned call.name outcome
        after.isReplaying⟩ : Occurrence V)] := ⟨rfl, rfl⟩
    rw [called.records, silent.records_append]
    exact ⟨called.extension.clock.genuine genuine, timely.append (course.timely genuine)⟩

theorem Session.timely {executionId : String} {store : Store} {visits : List (Visit V O)}
    (genuine : ∀ visit ∈ visits, visit.clock.now.Genuine) :
    Timely medium (records (Session.occurrences executionId store visits)) := by
  have nothing : Timely medium (records ([] : List (Occurrence V))) := by simp [Timely]
  refine Session.preserved (fun trace _ => Timely medium (records trace)) ?_ nothing
  intro visit member trace visited timely
  rw [records_append]
  apply timely.append
  refine Visit.answer_induction (motive := fun emitted _ => Timely medium (records emitted))
    visit.workflow.everyStep_true nothing ?_
  intro log after loaded
  refine ⟨_, _, timely_preserved medium, ⟨genuine visit member, nothing⟩, ?_⟩
  intro ended closing timely closingQuiet _ _
  rw [closingQuiet.records_append]
  exact timely

theorem History.attemptAt_restored {written read : List Operation}
    (restores : List.Forall₂ medium.Restores written read) (ordinal : Nat) :
    attemptAt read ordinal = attemptAt written ordinal := by
  have related := latest?_forall₂ (fun _ _ given => given.givesBack.ordinal) restores ordinal
  rw [attemptAt, attemptAt]
  generalize latest? written ordinal = latest at related ⊢
  generalize latest? read ordinal = back at related ⊢
  cases related with
  | none => rfl
  | some given => exact given.givesBack.attempt

/-- A visit adds at most one attempt to an operation. -/
theorem VisitChronicle.attemptAt_le {earlier added : List Operation}
    (visit : VisitChronicle semantics medium earlier added) (ordinal : Nat) :
    History.attemptAt (earlier ++ added) ordinal ≤ History.attemptAt earlier ordinal + 1 := by
  rw [History.attemptAt, History.latest?_append]
  cases latest : History.latest? added ordinal with
  | none => exact Nat.le_succ _
  | some record =>
      obtain ⟨member, rfl⟩ := History.latest?_mem latest
      exact visit.single record member

/-- Every operation of a session follows the protocol of its kind in the history that is
read back.  It does so in the records that were appended, too, when the clocks show genuine
instants.  One invocation adds at most one attempt to a step, in the records that were
appended as in the histories that are read back. -/
theorem operations_follow_protocol {semantics : String → StepSemantics} {executionId : String}
    {store : Store} {visits : List (Visit V O)}
    (empty : store.medium.history executionId = .ok [])
    (agreed : ∀ visit ∈ visits, visit.workflow.EveryStep (StepCall.Agreed semantics)) :
    (∀ history,
        (Session.storeAfter executionId store visits).medium.history executionId = .ok history →
          ∀ ordinal, FollowsProtocol semantics ordinal history) ∧
      ((∀ visit ∈ visits, visit.clock.now.Genuine) → ∀ ordinal,
        FollowsProtocol semantics ordinal
          (records (Session.occurrences executionId store visits))) ∧
      ∀ earlier visit later, visits = earlier ++ visit :: later →
        ∀ ordinal name before after,
          (StepHistory semantics ordinal name before
              (records (Session.occurrences executionId store earlier)) →
            StepHistory semantics ordinal name after
              (records (Session.occurrences executionId store (earlier ++ [visit]))) →
            after ≤ before + 1) ∧
          ∀ history longer,
            (Session.storeAfter executionId store earlier).medium.history executionId =
              .ok history →
            (Session.storeAfter executionId store (earlier ++ [visit])).medium.history
              executionId = .ok longer →
            StepHistory semantics ordinal name before history →
            StepHistory semantics ordinal name after longer → after ≤ before + 1 := by
  have session := ChronicledSession.session visits empty agreed
  refine ⟨?_, fun genuine => session.chronicle.protocol (Session.timely genuine), ?_⟩
  · intro history read
    have restores := session.restores empty read
    exact (session.chronicle.restored restores).protocol (.of_restored restores)
  · rintro earlier visit later rfl ordinal name before after
    have first := ChronicledSession.session earlier empty fun visited member =>
      agreed visited (List.mem_append_left _ member)
    have whole : earlier ++ visit :: later = earlier ++ [visit] ++ later := by simp
    rw [whole] at agreed
    have second := ChronicledSession.session (earlier ++ [visit]) empty fun visited member =>
      agreed visited (List.mem_append_left _ member)
    have single := (first.visit empty (agreed visit (by simp))).attemptAt_le ordinal
    rw [← records_append, ← Session.occurrences_singleton, ← Session.occurrences_append] at single
    constructor
    · intro steps moreSteps
      rw [steps.attempts_eq, moreSteps.attempts_eq]
      exact single
    · intro history longer read readAgain steps moreSteps
      rw [steps.attempts_eq, moreSteps.attempts_eq,
        History.attemptAt_restored (first.restores empty read),
        History.attemptAt_restored (second.restores empty readAgain)]
      exact single

/-- A visit with a workflow of one step, in whose body the process dies. -/
def Visit.ofCrashedStep : Visit Unit Unit where
  clock := ⟨default⟩
  suppressReplayLogs := false
  workflow :=
    .step "x" .standard ⟨fun _ => .ok .null, fun _ => .ok ()⟩ (fun _ => ⟨[], .crash⟩)
      fun _ => .done (.ok ())

/-- A crashed attempt is reported by the second invocation; the third finds the report. -/
theorem crashed_step_follows_protocol :
    (Session.storeAfter "run" .empty
        [Visit.ofCrashedStep, .ofCrashedStep, .ofCrashedStep]).medium.history "run" =
        .ok ([.started 1, .reported "x" 1].map (Operation.unwritten .step 0 "x").withState) ∧
      FollowsProtocol (fun _ => .atMostOnce) 0
        ([.started 1, .reported "x" 1].map (Operation.unwritten .step 0 "x").withState) := by
  have agreed : ∀ visit ∈ [Visit.ofCrashedStep, .ofCrashedStep, .ofCrashedStep],
      visit.workflow.EveryStep (StepCall.Agreed fun _ => .atMostOnce) := by
    intro visit member
    have same : visit = Visit.ofCrashedStep := by simpa using member
    subst same
    exact ⟨rfl, fun _ => trivial⟩
  have read : (Session.storeAfter "run" .empty
      [Visit.ofCrashedStep, .ofCrashedStep, .ofCrashedStep]).medium.history "run" =
        .ok ([.started 1, .reported "x" 1].map (Operation.unwritten .step 0 "x").withState) :=
    rfl
  exact ⟨read, (operations_follow_protocol rfl agreed).1 _ read 0⟩

end Durable
