import Durable.Proofs.CallTraces
import Durable.Proofs.InstantOrder
import Durable.Proofs.LogShape
import Durable.Proofs.ReadyTimes

/-!
# Nothing happens before its time

The ready time of a timer is fixed by its first record, and that of a retry by the failure
that it follows.  A timer ends, and an attempt is begun again, only at a reading from
that time on; a call that comes earlier suspends the invocation and does nothing.
-/

namespace Durable

variable {V O : Type} {semantics : String → StepSemantics} {medium : Medium}

open Occurrence OperationUpdate

namespace Effect

/-- The marker, the body or the outcome of an attempt of the operation at an ordinal; the
report of an interruption is none of them. -/
inductive OfAttempt (ordinal attempt : Nat) : Effect V → Prop where
  | body (semantics : StepSemantics) (context : StepContext) (replaying : Bool)
      (numbered : context.attempt = attempt) :
      OfAttempt ordinal attempt (.bodyBegun ordinal semantics context replaying)
  | record (record : Operation) (here : record.ordinal = ordinal)
      (numbered : record.attempt = attempt) (fresh : ¬record.ReportsInterruption) :
      OfAttempt ordinal attempt (.appended record)

end Effect

namespace MadeCall

/-- What a call does about time, when these records were appended before it. -/
structure KeepsTime (earlier : List Operation) (made : MadeCall V) : Prop where
  /-- A timer gets its ready time with its first record and keeps it.  It is recorded as
  running before that time only, and as over from then on, however it came to be so. -/
  timer : ∀ call reading record, made.declaration = .wait call →
    ⟨reading, .appended record⟩ ∈ made.emitted → ∃ readyAt,
      ((∀ other ∈ earlier, other.ordinal ≠ made.before.nextOrdinal) →
        readyAt = reading.add call.duration) ∧
      (∀ other ∈ earlier, other.ordinal = made.before.nextOrdinal →
        other.readyAt = some readyAt) ∧
      (¬readyAt ≤ reading ∧ record = (Operation.unwritten .timer made.before.nextOrdinal
          call.name).withState (.runsUntil readyAt) ∨
        readyAt ≤ reading ∧ record = (Operation.unwritten .timer made.before.nextOrdinal
          call.name).withState (.elapsedAt readyAt))
  /-- An attempt that failed is put off by the delay that the policy grants. -/
  retry : ∀ call reading record, made.declaration = .step call →
    ⟨reading, .appended record⟩ ∈ made.emitted → record.status = .pending →
      record.ordinal = made.before.nextOrdinal ∧ ∃ error delay,
        (call.body (call.context made.before record.attempt)).outcome = .failure error ∧
        call.config.retry record.attempt error = some delay ∧
        reading = (call.clockAfter made.before record.attempt).now ∧
        record.readyAt = some (reading.add delay)
  /-- A further attempt is begun from the ready time of the one before on: it is marked and
  its body begins at the reading of the call.  Its outcome comes after the body, from that
  time on as well, unless the clock has left the leap second behind the latest instant. -/
  again : ∀ call reading effect ordinal attempt, made.declaration = .step call →
    ⟨reading, effect⟩ ∈ made.emitted → 1 ≤ attempt → effect.OfAttempt ordinal (attempt + 1) →
      ordinal = made.before.nextOrdinal ∧ ∃ readyAt,
        History.latest? earlier made.before.nextOrdinal =
          some ((Operation.unwritten .step made.before.nextOrdinal call.name).withState
            (.retryScheduled attempt readyAt)) ∧
        readyAt ≤ made.before.now ∧
        (reading = made.before.now ∨
          reading = (call.clockAfter made.before (attempt + 1)).now ∧
            (∃ record, effect = .appended record ∧ record.status ≠ .started) ∧
            (readyAt ≤ reading ∨ Instant.latest ≤ reading ∧ reading < readyAt))

/-- The call reaches an operation that is put off to a later time. -/
def IsEarly (earlier : List Operation) (made : MadeCall V) : Prop :=
  ∃ latest readyAt, History.latest? earlier made.before.nextOrdinal = some latest ∧
    latest.status = .pending ∧ latest.readyAt = some readyAt ∧ ¬readyAt ≤ made.before.now

end MadeCall

/-- The record of a running timer is the only one of its operation. -/
theorem FollowsProtocol.sole {ordinal : Nat} {history : List Operation} {timer : Operation}
    (protocol : FollowsProtocol semantics ordinal history)
    (latest : History.latest? history ordinal = some timer) (kind : timer.kind = .timer)
    (pending : timer.status = .pending) :
    ∀ record ∈ history, record.ordinal = ordinal → record = timer := by
  rw [← History.getLast?_ofOrdinal] at latest
  intro record member here
  have inOrdinal : record ∈ History.ofOrdinal history ordinal :=
    List.mem_filter.mpr ⟨member, by simp [here]⟩
  rcases protocol with ⟨name, attempts, updates, states, word⟩ | ⟨name, updates, states, word⟩
  · rw [states] at latest
    obtain ⟨update, _, rfl⟩ := List.mem_map.mp (List.mem_of_getLast? latest)
    cases kind
  · rw [states] at latest inOrdinal
    cases word with
    | running readyAt =>
        obtain rfl := Option.some.inj latest
        exact List.mem_singleton.mp inOrdinal
    | elapsed readyAt =>
        obtain rfl := Option.some.inj latest
        cases pending
    | passed readyAt =>
        obtain rfl := Option.some.inj latest
        cases pending

namespace MadeCall

/-- What a call of a session knows of the records that were appended before it. -/
structure Informed (semantics : String → StepSemantics) (medium : Medium)
    (earlier : List Operation) (made : MadeCall V) : Prop where
  found : Option.Rel medium.Restores (History.latest? earlier made.before.nextOrdinal)
    (made.before.log.lookup? made.before.nextOrdinal)
  legal : ∀ record ∈ earlier, record.Legal semantics
  timed : ∀ record ∈ earlier, record.Timed
  protocol : FollowsProtocol semantics made.before.nextOrdinal earlier

namespace Informed

variable {made : MadeCall V} {earlier : List Operation}
  (informed : made.Informed semantics medium earlier)

include informed

theorem latest {read : Operation}
    (found : made.before.log.lookup? made.before.nextOrdinal = some read) :
    ∃ written, History.latest? earlier made.before.nextOrdinal = some written ∧
      medium.Restores written read ∧ written.Legal semantics ∧
      read.readyAt = written.readyAt := by
  have related := informed.found
  rw [found] at related
  generalize latest : History.latest? earlier made.before.nextOrdinal = recorded at related
  cases related with
  | @some written _ given =>
      have member := (History.latest?_mem latest).1
      exact ⟨written, rfl, given, informed.legal written member,
        given.readyAt (informed.timed written member)⟩

theorem first (absent : made.before.log.lookup? made.before.nextOrdinal = none) :
    ∀ other ∈ earlier, other.ordinal ≠ made.before.nextOrdinal := by
  have related := informed.found
  rw [absent] at related
  intro other member here
  cases latest : History.latest? earlier made.before.nextOrdinal with
  | none =>
      have nothing := List.getLast?_eq_none_iff.mp latest
      exact List.filter_eq_nil_iff.mp nothing other member (by simp [here])
  | some written =>
      rw [latest] at related
      cases related

/-- A pending timer whose time has come is closed with the ready time that it has had. -/
theorem elapsed {call : WaitCall} {timer : Operation}
    (found : made.before.log.lookup? made.before.nextOrdinal = some timer)
    (same : timer.kind = .timer ∧ timer.name = call.name) (pending : timer.status = .pending)
    (ready : timer.isReady made.before.now = true) :
    ∃ readyAt, readyAt ≤ made.before.now ∧
      timer.elapsed = (Operation.unwritten .timer made.before.nextOrdinal call.name).withState
        (.elapsedAt readyAt) ∧
      (∃ other ∈ earlier, other.ordinal = made.before.nextOrdinal) ∧
      ∀ other ∈ earlier, other.ordinal = made.before.nextOrdinal →
        other.readyAt = some readyAt := by
  obtain ⟨written, latest, given, legal, time⟩ := informed.latest found
  obtain ⟨readyAt, restored, running, timeGiven, elapsed⟩ :=
    given.elapsed_of_pending legal same.1 pending
  have readyTime : written.readyAt = some readyAt := congrArg OperationUpdate.readyAt running
  have member := History.latest?_mem latest
  have genuine := informed.timed written member.1 readyAt readyTime
  rw [medium.restoreTime_genuine genuine] at timeGiven
  obtain rfl := Option.some.inj timeGiven
  refine ⟨readyAt, ?_, ?_, ⟨written, member⟩, ?_⟩
  · rw [Operation.isReady, time, readyTime] at ready
    exact of_decide_eq_true ready
  · rw [elapsed, same.2, OperationLog.lookup?_ordinal found]
  · intro other isOther here
    have kind : written.kind = .timer := given.identity.1.symm.trans same.1
    have status : written.status = .pending := given.state.status.symm.trans pending
    rw [informed.protocol.sole latest kind status other isOther here, readyTime]

theorem timer (free : made.before.halt = none) {call : WaitCall} {reading : Instant}
    {record : Operation} (declared : made.declaration = .wait call)
    (appended : ⟨reading, .appended record⟩ ∈ made.emitted) :
    ∃ readyAt,
      ((∀ other ∈ earlier, other.ordinal ≠ made.before.nextOrdinal) →
        readyAt = reading.add call.duration) ∧
      (∀ other ∈ earlier, other.ordinal = made.before.nextOrdinal →
        other.readyAt = some readyAt) ∧
      (¬readyAt ≤ reading ∧ record = (Operation.unwritten .timer made.before.nextOrdinal
          call.name).withState (.runsUntil readyAt) ∨
        readyAt ≤ reading ∧ record = (Operation.unwritten .timer made.before.nextOrdinal
          call.name).withState (.elapsedAt readyAt)) := by
  obtain ⟨outcome, middle, course, called, _⟩ := wait_called free declared
  have inMiddle : ⟨reading, .appended record⟩ ∈ middle := by
    simpa [emitted_of_called called] using appended
  cases course with
  | duplicate first known => cases inMiddle
  | mismatched operation fresh found other => cases inMiddle
  | planned recorded fresh found same course =>
      generalize planned : WaitPlan.ofRecord recorded made.before.now = plan at course
      cases course with
      | pass => cases inMiddle
      | fail error => cases inMiddle
      | unelapsed timer error faulty => simp at inMiddle
      | lost written error faulty => simp at inMiddle
      | elapsed timer diagnostic =>
          obtain ⟨rfl, pending, ready⟩ := WaitPlan.ofRecord_eq_elapse planned
          obtain ⟨readyAt, due, closed, ⟨first, isFirst, here⟩, kept⟩ :=
            informed.elapsed found (same timer rfl) pending ready
          obtain ⟨rfl, rfl⟩ : reading = made.before.now ∧ record = timer.elapsed := by
            simpa using inMiddle
          refine ⟨readyAt, ?_, kept, .inr ⟨due, closed⟩⟩
          intro others
          exact absurd here (others first isFirst)
      | passed due =>
          have first := informed.first (found.trans (WaitPlan.ofRecord_eq_start planned))
          obtain ⟨rfl, rfl⟩ : reading = made.before.now ∧
              record = (call.timer made.before).elapsed := by
            simpa using inMiddle
          refine ⟨made.before.now.add call.duration, fun _ => rfl, ?_, .inr ⟨due, rfl⟩⟩
          intro other isOther here
          exact absurd here (first other isOther)
      | started notDue diagnostic =>
          have first := informed.first (found.trans (WaitPlan.ofRecord_eq_start planned))
          obtain ⟨rfl, rfl⟩ : reading = made.before.now ∧
              record = call.timer made.before := by
            simpa using inMiddle
          refine ⟨made.before.now.add call.duration, fun _ => rfl, ?_, .inl ⟨notDue, rfl⟩⟩
          intro other isOther here
          exact absurd here (first other isOther)

end Informed

end MadeCall

section Attempts

variable {invocation : Invocation V} {call : StepCall V} {number : Nat} {reply : Reply V}
  {emitted : List (Occurrence V)} {reading : Instant}

private theorem Occurrence.Chatter.idle {chatter : List (Occurrence V)} (logs : Chatter chatter)
    {effect : Effect V} (member : ⟨reading, effect⟩ ∈ chatter) :
    (∀ record, effect ≠ .appended record) ∧
      ∀ ordinal attempt, ¬effect.OfAttempt ordinal attempt := by
  have isLog : effect.isChatter = true := logs _ member
  constructor
  · rintro record rfl
    cases isLog
  · rintro ordinal attempt (_ | _) <;> cases isLog

/-- What an attempt emits until its body runs comes at the reading of the call. -/
theorem StepCall.opening_reading {effect : Effect V}
    (member : ⟨reading, effect⟩ ∈ call.opening invocation number) :
    reading = invocation.now ∧
      (∀ record, effect = .appended record → record.attempt = number ∧
        record.status = .started) ∧
      ∀ ordinal attempt, effect.OfAttempt ordinal attempt →
        ordinal = invocation.nextOrdinal ∧ attempt = number := by
  rw [opening, List.mem_append] at member
  rcases member with marker | body
  · cases semantics : call.config.semantics with
    | atLeastOnce =>
        rw [semantics] at marker
        cases marker
    | atMostOnce =>
        rw [semantics] at marker
        obtain ⟨rfl, rfl⟩ := Occurrence.mk.inj (List.mem_singleton.mp marker)
        refine ⟨rfl, ?_, ?_⟩
        · intro record same
          cases same
          exact ⟨rfl, rfl⟩
        · rintro ordinal attempt (_ | ⟨_, here, numbered, fresh⟩)
          exact ⟨here.symm.trans (Invocation.current_ordinal invocation _), numbered.symm⟩
  · obtain ⟨rfl, rfl⟩ := Occurrence.mk.inj (List.mem_singleton.mp body)
    refine ⟨rfl, ?_, ?_⟩
    · intro record same
      cases same
    · rintro ordinal attempt (⟨_, _, _, numbered⟩ | _)
      exact ⟨rfl, numbered.symm⟩

/-- What belongs to an attempt comes at the reading of the call or, when it is the outcome,
after the body. -/
theorem AttemptCourse.ofAttempt {effect : Effect V} {ordinal attempt : Nat}
    (course : AttemptCourse invocation call number reply emitted)
    (member : ⟨reading, effect⟩ ∈ emitted) (part : effect.OfAttempt ordinal attempt) :
    ordinal = invocation.nextOrdinal ∧ attempt = number ∧
      (reading = invocation.now ∨
        reading = (call.clockAfter invocation number).now ∧
          ∃ record, effect = .appended record ∧ record.status ≠ .started) := by
  have opened : ⟨reading, effect⟩ ∈ call.opening invocation number →
      ordinal = invocation.nextOrdinal ∧ attempt = number ∧ reading = invocation.now := by
    intro isOpening
    obtain ⟨now, _, numbered⟩ := StepCall.opening_reading isOpening
    obtain ⟨here, same⟩ := numbered ordinal attempt part
    exact ⟨here, same, now⟩
  cases course with
  | unmarked error guarded faulty =>
      obtain ⟨rfl, rfl⟩ := Occurrence.mk.inj (List.mem_singleton.mp member)
      cases part
  | crashed chatter logs dies =>
      rcases List.mem_append.mp member with opening | talk
      · obtain ⟨here, same, now⟩ := opened opening
        exact ⟨here, same, .inl now⟩
      · exact absurd part ((logs.idle talk).2 _ _)
  | lost chatter logs time update outcome closes error faulty timed =>
      rcases List.mem_append.mp member with opening | rest
      · obtain ⟨here, same, now⟩ := opened opening
        exact ⟨here, same, .inl now⟩
      · rcases List.mem_append.mp rest with talk | last
        · exact absurd part ((logs.idle talk).2 _ _)
        · obtain ⟨rfl, rfl⟩ := Occurrence.mk.inj (List.mem_singleton.mp last)
          cases part
  | closed chatter logs time update outcome closes diagnostic timed =>
      rcases List.mem_append.mp member with opening | rest
      · obtain ⟨here, same, now⟩ := opened opening
        exact ⟨here, same, .inl now⟩
      · rcases List.mem_append.mp rest with talk | last
        · exact absurd part ((logs.idle talk).2 _ _)
        · rcases List.mem_pair.mp last with closing | diagnosed
          · obtain ⟨rfl, rfl⟩ := Occurrence.mk.inj closing
            cases part with
            | record _ here numbered fresh =>
                have same : update.attempt = number := BodyOutcome.closing?_attempt closes
                have ended : update.status ≠ .started :=
                  (BodyOutcome.closing?_outcome closes).status_ne
                exact ⟨here.symm.trans (Invocation.current_ordinal invocation _),
                  numbered.symm.trans same, .inr ⟨timed, _, rfl, ended⟩⟩
          · obtain ⟨rfl, rfl⟩ := Occurrence.mk.inj diagnosed
            cases part

/-- An attempt leaves a pending record when it has failed and is to be repeated. -/
theorem AttemptCourse.retry {record : Operation}
    (course : AttemptCourse invocation call number reply emitted)
    (member : ⟨reading, .appended record⟩ ∈ emitted) (pending : record.status = .pending) :
    record.ordinal = invocation.nextOrdinal ∧ record.attempt = number ∧ ∃ error delay,
      (call.body (call.context invocation number)).outcome = .failure error ∧
      call.config.retry number error = some delay ∧
      reading = (call.clockAfter invocation number).now ∧
      record.readyAt = some (reading.add delay) := by
  have opened : ⟨reading, .appended record⟩ ∉ call.opening invocation number := by
    intro isOpening
    have started := ((StepCall.opening_reading isOpening).2.1 record rfl).2
    rw [pending] at started
    cases started
  cases course with
  | unmarked error guarded faulty => simp at member
  | crashed chatter logs dies =>
      rcases List.mem_append.mp member with opening | talk
      · exact absurd opening opened
      · exact absurd rfl ((logs.idle talk).1 record)
  | lost chatter logs time update outcome closes error faulty timed =>
      rcases List.mem_append.mp member with opening | rest
      · exact absurd opening opened
      · rcases List.mem_append.mp rest with talk | last
        · exact absurd rfl ((logs.idle talk).1 record)
        · simp at last
  | closed chatter logs time update outcome closes diagnostic timed =>
      rcases List.mem_append.mp member with opening | rest
      · exact absurd opening opened
      · rcases List.mem_append.mp rest with talk | last
        · exact absurd rfl ((logs.idle talk).1 record)
        · obtain ⟨rfl, rfl⟩ : reading = time ∧
              record = (call.base invocation).withState update := by
            simpa using last
          obtain ⟨error, delay, failed, granted, rfl⟩ :=
            BodyOutcome.closing?_pending closes pending
          exact ⟨Invocation.current_ordinal invocation _, rfl, error, delay, failed, granted,
            timed, rfl⟩

end Attempts

section Early

variable {invocation : Invocation V} {read : Operation}
  (found : invocation.log.lookup? invocation.nextOrdinal = some read)
  (pending : read.status = .pending) (notReady : read.isReady invocation.now = false)

include found pending notReady

theorem StepCourse.of_early {call : StepCall V} {reply : Reply V} {middle : List (Occurrence V)}
    (course : StepCourse invocation call reply middle) :
    middle = [] ∧ ∃ error, reply = .returned (.error error) ∧ Halt.ofError? error ≠ none := by
  cases course with
  | duplicate first known => exact ⟨rfl, _, rfl, by simp [Halt.ofError?, DurableError.isFatal]⟩
  | mismatched operation fresh foundOther other =>
      exact ⟨rfl, _, rfl, by simp [Halt.ofError?, DurableError.isFatal]⟩
  | planned recorded fresh foundHere same course =>
      rw [found] at foundHere
      subst foundHere
      simp only [StepPlan.ofRecord, pending, notReady, Bool.false_eq_true, if_false] at course
      cases course with
      | fail error => exact ⟨rfl, _, rfl, by simp [Halt.ofError?]⟩

theorem WaitCourse.of_early {call : WaitCall} {outcome : Except DurableError Unit}
    {middle : List (Occurrence V)} (course : WaitCourse invocation call outcome middle) :
    middle = [] ∧ ∃ error, outcome = .error error ∧ Halt.ofError? error ≠ none := by
  cases course with
  | duplicate first known => exact ⟨rfl, _, rfl, by simp [Halt.ofError?, DurableError.isFatal]⟩
  | mismatched operation fresh foundOther other =>
      exact ⟨rfl, _, rfl, by simp [Halt.ofError?, DurableError.isFatal]⟩
  | planned recorded fresh foundHere same course =>
      rw [found] at foundHere
      subst foundHere
      simp only [WaitPlan.ofRecord, pending, notReady, Bool.false_eq_true, if_false] at course
      cases course with
      | fail error => exact ⟨rfl, _, rfl, by simp [Halt.ofError?]⟩

end Early

namespace MadeCall

variable {made : MadeCall V}

/-- A step call that leaves a pending record has been put off by the retry policy. -/
theorem retry (free : made.before.halt = none) {call : StepCall V} {reading : Instant}
    {record : Operation} (declared : made.declaration = .step call)
    (appended : ⟨reading, .appended record⟩ ∈ made.emitted)
    (pending : record.status = .pending) :
    record.ordinal = made.before.nextOrdinal ∧ ∃ error delay,
      (call.body (call.context made.before record.attempt)).outcome = .failure error ∧
      call.config.retry record.attempt error = some delay ∧
      reading = (call.clockAfter made.before record.attempt).now ∧
      record.readyAt = some (reading.add delay) := by
  obtain ⟨reply, middle, course, called, _⟩ := step_called free declared
  have inMiddle : ⟨reading, .appended record⟩ ∈ middle := by
    have returning : ⟨reading, .appended record⟩ ∉ reply.returning call.name made.after := by
      cases reply <;> simp [Reply.returning]
    simpa [emitted_of_called called, returning] using appended
  cases course with
  | duplicate first known => cases inMiddle
  | mismatched operation fresh found other => cases inMiddle
  | planned recorded fresh found same course =>
      generalize planned : StepPlan.ofRecord recorded call.config.semantics made.before.now =
        plan at course
      cases course with
      | replay operation => simp at inMiddle
      | fail error => cases inMiddle
      | reported operation noted => simp at inMiddle
      | unannotated operation unnoted error faulty => simp at inMiddle
      | annotated operation unnoted =>
          obtain ⟨_, rfl⟩ : reading = made.before.now ∧ record = operation.annotated := by
            simpa using inMiddle
          cases pending
      | attempted number unfinished notDecreasing course =>
          obtain ⟨here, rfl, granted⟩ := course.retry inMiddle pending
          exact ⟨here, granted⟩

namespace Informed

variable {earlier : List Operation} (informed : made.Informed semantics medium earlier)

include informed

/-- A further attempt is planned when the one before was put off until now or earlier. -/
theorem planned {call : StepCall V} {recorded : Option Operation} {attempt : Nat}
    (agreed : call.Agreed semantics) (counted : 1 ≤ attempt)
    (found : made.before.log.lookup? made.before.nextOrdinal = recorded)
    (same : ∀ operation, recorded = some operation →
      operation.kind = .step ∧ operation.name = call.name)
    (plan : StepPlan.ofRecord recorded call.config.semantics made.before.now =
      .attempt (attempt + 1)) :
    ∃ readyAt, History.latest? earlier made.before.nextOrdinal =
        some ((Operation.unwritten .step made.before.nextOrdinal call.name).withState
          (.retryScheduled attempt readyAt)) ∧
      readyAt ≤ made.before.now := by
  rcases StepPlan.ofRecord_eq_attempt plan with ⟨_, first⟩ | ⟨operation, rfl, further⟩
  · omega
  · obtain ⟨written, latest, given, legal, time⟩ := informed.latest found
    obtain ⟨kind, name⟩ := same operation rfl
    have writtenKind : written.kind = .step := given.identity.1.symm.trans kind
    have writtenName : written.name = call.name := given.identity.2.symm.trans name
    have state := legal.state
    rw [writtenKind, writtenName] at state
    rcases further with ⟨pending, ready, next⟩ | ⟨started, unguarded, _⟩
    · obtain ⟨number, readyAt, scheduled⟩ :=
        state.of_pending (given.state.status.symm.trans pending)
      have sameNumber : number = attempt := by
        have attemptSame : operation.attempt = number :=
          given.state.attempt.trans (congrArg OperationUpdate.attempt scheduled)
        omega
      have readyTime : written.readyAt = some readyAt := congrArg OperationUpdate.readyAt scheduled
      refine ⟨readyAt, ?_, ?_⟩
      · rw [latest, Operation.eq_unwritten legal.id, writtenKind, writtenName, scheduled,
          (History.latest?_mem latest).2, sameNumber]
      · rw [Operation.isReady, time, readyTime] at ready
        exact of_decide_eq_true ready
    · have guarded := (state.of_started (given.state.status.symm.trans started)).1
      rw [agreed, guarded] at unguarded
      cases unguarded

theorem again (free : made.before.halt = none) {call : StepCall V} {reading : Instant}
    {effect : Effect V} {ordinal attempt : Nat} (agreed : call.Agreed semantics)
    (declared : made.declaration = .step call) (emitted : ⟨reading, effect⟩ ∈ made.emitted)
    (counted : 1 ≤ attempt) (part : effect.OfAttempt ordinal (attempt + 1)) :
    ordinal = made.before.nextOrdinal ∧ ∃ readyAt,
      History.latest? earlier made.before.nextOrdinal =
        some ((Operation.unwritten .step made.before.nextOrdinal call.name).withState
          (.retryScheduled attempt readyAt)) ∧
      readyAt ≤ made.before.now ∧
      (reading = made.before.now ∨
        reading = (call.clockAfter made.before (attempt + 1)).now ∧
          (∃ record, effect = .appended record ∧ record.status ≠ .started) ∧
          (readyAt ≤ reading ∨ Instant.latest ≤ reading ∧ reading < readyAt)) := by
  obtain ⟨reply, middle, course, called, _⟩ := step_called free declared
  have inMiddle : ⟨reading, effect⟩ ∈ middle := by
    rw [emitted_of_called called] at emitted
    rcases List.mem_cons.mp emitted with declaration | rest
    · obtain ⟨rfl, rfl⟩ := Occurrence.mk.inj declaration
      cases part
    · rcases List.mem_append.mp rest with inside | returned
      · exact inside
      · cases reply with
        | crashed => cases returned
        | returned outcome =>
            obtain ⟨rfl, rfl⟩ := Occurrence.mk.inj (List.mem_singleton.mp returned)
            cases part
  cases course with
  | duplicate first known => cases inMiddle
  | mismatched operation fresh found other => cases inMiddle
  | planned recorded fresh found same course =>
      generalize plan : StepPlan.ofRecord recorded call.config.semantics made.before.now =
        follows at course
      -- Only an attempt emits a part of one.
      have diagnosed : ∀ diagnostic, (⟨reading, effect⟩ : Occurrence V) ≠
          ⟨made.before.now, .diagnosed diagnostic⟩ := by
        rintro diagnostic same
        obtain ⟨rfl, rfl⟩ := Occurrence.mk.inj same
        cases part
      cases course with
      | replay operation => exact absurd (List.mem_singleton.mp inMiddle) (diagnosed _)
      | fail error => cases inMiddle
      | reported operation noted => exact absurd (List.mem_singleton.mp inMiddle) (diagnosed _)
      | unannotated operation unnoted error faulty =>
          rcases List.mem_pair.mp inMiddle with report | lost
          · exact absurd report (diagnosed _)
          · obtain ⟨rfl, rfl⟩ := Occurrence.mk.inj lost
            cases part
      | annotated operation unnoted =>
          rcases List.mem_pair.mp inMiddle with report | written
          · exact absurd report (diagnosed _)
          · obtain ⟨rfl, rfl⟩ := Occurrence.mk.inj written
            obtain ⟨rfl, started, _⟩ := StepPlan.ofRecord_eq_interrupt plan
            cases part with
            | record _ here numbered fresh =>
                exact absurd ⟨(same operation rfl).1, rfl, rfl⟩ fresh
      | attempted number unfinished notDecreasing course =>
          obtain ⟨here, rfl, timed⟩ := course.ofAttempt inMiddle part
          obtain ⟨readyAt, latest, due⟩ := informed.planned agreed counted found same plan
          refine ⟨here, readyAt, latest, due, timed.imp_right ?_⟩
          rintro ⟨after, outcome⟩
          refine ⟨after, outcome, ?_⟩
          have moved := (call.body (call.context made.before (attempt + 1))).reaches_clockAfter
            made.before.clock
          rcases le_or_gt readyAt reading with inTime | early
          · exact .inl inTime
          · rcases moved.le_or_latest_le with further | behind
            · exact absurd (due.trans further) (after ▸ not_le.mpr early)
            · exact .inr ⟨behind.trans_eq after.symm, early⟩

/-- A call that comes early does nothing, and its invocation goes no further. -/
theorem early (early : made.IsEarly earlier) :
    Quiet made.emitted ∧ made.reply ≠ .crashed ∧ made.after.halt ≠ none := by
  obtain ⟨latest, readyAt, isLatest, pending, time, notDue⟩ := early
  cases halted : made.before.halt with
  | some halt =>
      obtain ⟨replied, idle⟩ := of_halted halted
      refine ⟨quiet_of_halted halted, ?_, ?_⟩
      · rw [replied]
        simp
      · rw [idle.place.halt, halted]
        simp
  | none =>
      have related := informed.found
      rw [isLatest] at related
      generalize found : made.before.log.lookup? made.before.nextOrdinal = recorded at related
      cases related with
      | @some _ read given =>
          have status : read.status = .pending := given.state.status.trans pending
          have notReady : read.isReady made.before.now = false := by
            rw [Operation.isReady, given.readyAt (informed.timed latest
              (History.latest?_mem isLatest).1), time, decide_eq_false_iff_not]
            exact notDue
          cases declared : made.declaration with
          | wait call =>
              obtain ⟨outcome, middle, course, called, replied⟩ := wait_called halted declared
              obtain ⟨rfl, error, rfl, halts⟩ := course.of_early found status notReady
              rw [emitted_of_called called, called.halt]
              exact ⟨⟨rfl, rfl⟩, by simp [replied], halts⟩
          | step call =>
              obtain ⟨reply, middle, course, called, replied⟩ := step_called halted declared
              obtain ⟨rfl, error, rfl, halts⟩ := course.of_early found status notReady
              rw [emitted_of_called called, called.halt]
              exact ⟨⟨rfl, rfl⟩, by simp [replied], halts⟩

end Informed

end MadeCall

theorem Timely.of_timed {history : List Operation}
    (timed : ∀ record ∈ history, record.Timed) : Timely medium history := by
  intro record member readyAt _ _ ready
  exact medium.restoreTime_genuine (timed record member readyAt ready)

namespace ChronicledSession

variable {executionId : String} {initial : Medium} {trace : List (Occurrence V)} {store : Store}
  (session : ChronicledSession semantics executionId initial trace store.medium)
  (empty : initial.history executionId = .ok [])
  (timed : ∀ record ∈ records trace, record.Timed) {visit : Visit V O} {made : MadeCall V}
  (agreed : visit.workflow.EveryStep (StepCall.Agreed semantics))
  (genuine : visit.clock.now.Genuine) (member : made ∈ visit.calls executionId store)

include session empty timed agreed genuine member

/-- Every call of a session knows what was appended before it. -/
theorem informed :
    made.Informed semantics initial (records (trace ++ made.before.occurrences)) ∧
      (∀ record ∈ records made.before.occurrences,
        record.ordinal < made.before.nextOrdinal) ∧
      ∀ call, made.declaration = .step call → call.Agreed semantics := by
  obtain ⟨begun, continues, chronicled, agreedCall⟩ := session.call empty agreed member
  obtain ⟨log, after, loaded, inPass⟩ := Visit.mem_calls member
  obtain ⟨timedHere, _⟩ := Invocation.timed_preserved.calls visit.workflow.everyStep_true
    (session.timed empty timed loaded genuine) inPass
  have timedAll : ∀ record ∈ records trace ++ records made.before.occurrences,
      record.Timed := by
    intro record isRecord
    rcases List.mem_append.mp isRecord with before | here
    · exact timed record before
    · exact timedHere.records record here
  refine ⟨?_, chronicled.regular.behind, agreedCall⟩
  rw [records_append]
  constructor
  · exact chronicled.related continues (Nat.le_refl _)
  · exact chronicled.legal continues
  · exact timedAll
  · have whole := session.chronicle.trans chronicled.visit.chronicle
    exact whole.protocol (.of_timed timedAll) _

theorem keepsTime : made.KeepsTime (records (trace ++ made.before.occurrences)) := by
  obtain ⟨informed, _, agreedCall⟩ := session.informed empty timed agreed genuine member
  cases halted : made.before.halt with
  | none =>
      constructor
      · intro call reading record declared appended
        exact informed.timer halted declared appended
      · intro call reading record declared appended pending
        exact MadeCall.retry halted declared appended pending
      · intro call reading effect ordinal attempt declared emitted counted part
        exact informed.again halted (agreedCall call declared) declared emitted counted part
  | some halt =>
      have isQuiet := MadeCall.quiet_of_halted halted
      constructor
      · intro call reading record declared appended
        exact absurd (.inl (by simp [Effect.record?])) (isQuiet.still appended)
      · intro call reading record declared appended pending
        exact absurd (.inl (by simp [Effect.record?])) (isQuiet.still appended)
      · intro call reading effect ordinal attempt declared emitted counted part
        refine absurd ?_ (isQuiet.still emitted)
        cases part with
        | body semantics context replaying numbered => exact .inr rfl
        | record record here numbered fresh => exact .inl (by simp [Effect.record?])

theorem silent (early : made.IsEarly (records (trace ++ made.before.occurrences))) :
    records (visit.answer executionId store).occurrences = records made.before.occurrences ∧
      bodies (visit.answer executionId store).occurrences = bodies made.before.occurrences ∧
      ∀ record ∈ records made.before.occurrences,
        record.ordinal < made.before.nextOrdinal := by
  obtain ⟨informed, behind, _⟩ := session.informed empty timed agreed genuine member
  obtain ⟨isQuiet, returns, halts⟩ := informed.early early
  obtain ⟨rest, restQuiet, occurred⟩ := Visit.quiet_after_halt member returns halts
  rw [occurred, made.occurrences_after]
  refine ⟨?_, ?_, behind⟩
  · rw [restQuiet.records_append, isQuiet.records_append]
  · rw [restQuiet.bodies_append, isQuiet.bodies_append]

end ChronicledSession

/-- No operation fires early.  In every session under genuine clocks, each record and each
body comes from a call that keeps time: the ready time of a timer is the reading of its first
record and the duration declared there, however later calls declare it; the ready time of a
retry is the reading after the failure and the granted delay; a timer is over, and a further
attempt is marked and its body begins, from that time on only.  So does the outcome of the
attempt come, unless its body has moved the clock back to the latest instant.  A visit that
reaches such an operation too early records nothing at its ordinal or behind it, and runs no
further body. -/
theorem no_operation_fires_early {semantics : String → StepSemantics} {executionId : String}
    {store : Store} {visits : List (Visit V O)}
    (empty : store.medium.history executionId = .ok [])
    (agreed : ∀ visit ∈ visits, visit.workflow.EveryStep (StepCall.Agreed semantics))
    (genuine : ∀ visit ∈ visits, visit.clock.now.Genuine) :
    ∀ earlier visit later, visits = earlier ++ visit :: later →
      (∀ occurrence ∈
          (visit.answer executionId (Session.storeAfter executionId store earlier)).occurrences,
        occurrence.effect.Stirs →
          ∃ made ∈ visit.calls executionId (Session.storeAfter executionId store earlier),
            occurrence ∈ made.emitted) ∧
      ∀ made ∈ visit.calls executionId (Session.storeAfter executionId store earlier),
        made.KeepsTime
          (records (Session.occurrences executionId store earlier ++ made.before.occurrences)) ∧
        (made.IsEarly
            (records (Session.occurrences executionId store earlier
              ++ made.before.occurrences)) →
          records (visit.answer executionId
              (Session.storeAfter executionId store earlier)).occurrences =
            records made.before.occurrences ∧
          bodies (visit.answer executionId
              (Session.storeAfter executionId store earlier)).occurrences =
            bodies made.before.occurrences ∧
          ∀ record ∈ records made.before.occurrences,
            record.ordinal < made.before.nextOrdinal) := by
  rintro earlier visit later rfl
  have agreedBefore : ∀ visited ∈ earlier,
      visited.workflow.EveryStep (StepCall.Agreed semantics) :=
    fun visited member => agreed visited (List.mem_append_left _ member)
  have session := ChronicledSession.session earlier empty agreedBefore
  have timed := Session.timed empty agreedBefore
    fun visited member => genuine visited (List.mem_append_left _ member)
  have agreedHere := agreed visit (by simp)
  have genuineHere := genuine visit (by simp)
  refine ⟨fun occurrence member stirs => Visit.stirred_by_call stirs member, ?_⟩
  intro made member
  refine ⟨session.keepsTime empty timed agreedHere genuineHere member, ?_⟩
  intro early
  exact session.silent empty timed agreedHere genuineHere member early

/-- A visit whose step fails at first, is tried again after some seconds and then takes one
second, and whose workflow waits for a second in the end. -/
def Visit.ofSecondTry (delay : Nat) (now : Instant) : Visit Unit Unit where
  clock := ⟨now⟩
  suppressReplayLogs := false
  workflow :=
    .step "x" ⟨fun attempt _ => if attempt = 1 then some (.ofSeconds delay) else none, .atMostOnce⟩
      ⟨fun _ => .ok .null, fun _ => .ok ()⟩
      (fun context =>
        if context.attempt = 1 then ⟨[], .failure default⟩
        else ⟨[.advance (.ofSeconds 1)], .value ()⟩)
      fun
        | .error error => .done (.error error)
        | .ok _ => .wait "w" (.ofSeconds 1) .done

theorem Visit.ofSecondTry_agreed (delay : Nat) (now : Instant) :
    (Visit.ofSecondTry delay now).workflow.EveryStep
      (StepCall.Agreed fun _ => .atMostOnce) := by
  refine ⟨rfl, ?_⟩
  rintro (error | value)
  · trivial
  · exact fun _ => trivial

/-- A store in memory that holds the records of one execution, after so many reads. -/
def Store.holding (records : List Operation) (reads : Nat) : Store where
  medium := .memory (records.map ("run", ·))
  faults := .none
  appends := records.length
  reads := reads

/-- The records that a second try after a second leaves, when the timer is closed too. -/
def Visit.secondTryRecords : List Operation :=
  [started 1, retryScheduled 1 ⟨1, 0⟩, started 2, succeeded 2 .null].map
      (Operation.unwritten .step 0 "x").withState ++
    [runsUntil ⟨3, 0⟩, elapsedAt ⟨3, 0⟩].map (Operation.unwritten .timer 1 "w").withState

theorem Session.storeAfter_secondTry :
    storeAfter "run" .empty [.ofSecondTry 1 ⟨0, 0⟩] =
        .holding (Visit.secondTryRecords.take 2) 1 ∧
      storeAfter "run" .empty [.ofSecondTry 1 ⟨0, 0⟩, .ofSecondTry 1 ⟨0, 5⟩] =
        .holding (Visit.secondTryRecords.take 2) 2 ∧
      storeAfter "run" .empty
          [.ofSecondTry 1 ⟨0, 0⟩, .ofSecondTry 1 ⟨0, 5⟩, .ofSecondTry 1 ⟨1, 0⟩] =
        .holding (Visit.secondTryRecords.take 5) 3 :=
  ⟨rfl, rfl, rfl⟩

/-- The step is put off for a second, called too early and tried again when it is due, and
the timer that follows is closed by the last visit. -/
theorem second_try_keeps_time :
    let visit := Visit.ofSecondTry 1
    let after (readings : List Instant) := Session.storeAfter "run" .empty (readings.map visit)
    let step := (Operation.unwritten .step 0 "x").withState
    let timer := (Operation.unwritten .timer 1 "w").withState
    (∃ failed ∈ (visit ⟨0, 0⟩).calls "run" (after []),
        ⟨⟨0, 0⟩, .appended (step (.retryScheduled 1 ⟨1, 0⟩))⟩ ∈ failed.emitted ∧
        ∃ call error delay, failed.declaration = .step call ∧
          call.config.retry 1 error = some delay ∧ Instant.add ⟨0, 0⟩ delay = ⟨1, 0⟩) ∧
      records ((visit ⟨0, 5⟩).answer "run" (after [⟨0, 0⟩])).occurrences = [] ∧
      (∃ again ∈ (visit ⟨1, 0⟩).calls "run" (after [⟨0, 0⟩, ⟨0, 5⟩]),
        ⟨⟨2, 0⟩, .appended (step (.succeeded 2 .null))⟩ ∈ again.emitted ∧
        ∀ reading effect, ⟨reading, effect⟩ ∈ again.emitted → effect.OfAttempt 0 2 →
          (⟨1, 0⟩ : Instant) ≤ reading) ∧
      ∃ closed ∈ (visit ⟨3, 0⟩).calls "run" (after [⟨0, 0⟩, ⟨0, 5⟩, ⟨1, 0⟩]),
        closed.KeepsTime (Visit.secondTryRecords.take 5) ∧
        ⟨⟨3, 0⟩, .appended (timer (.elapsedAt ⟨3, 0⟩))⟩ ∈ closed.emitted := by
  have agreed : ∀ visit ∈ [⟨0, 0⟩, ⟨0, 5⟩, ⟨1, 0⟩, ⟨3, 0⟩].map (Visit.ofSecondTry 1),
      visit.workflow.EveryStep (StepCall.Agreed fun _ => .atMostOnce) :=
    List.forall_mem_map.mpr fun now _ => Visit.ofSecondTry_agreed 1 now
  have genuine : ∀ visit ∈ [⟨0, 0⟩, ⟨0, 5⟩, ⟨1, 0⟩, ⟨3, 0⟩].map (Visit.ofSecondTry 1),
      visit.clock.now.Genuine := by
    simp only [List.map, List.forall_mem_cons]
    exact ⟨⟨by decide, by decide⟩, ⟨by decide, by decide⟩, ⟨by decide, by decide⟩,
      ⟨by decide, by decide⟩, by simp⟩
  have empty : Store.empty.medium.history "run" = .ok [] := rfl
  obtain ⟨first, second, third⟩ := Session.storeAfter_secondTry
  have keeps := no_operation_fires_early empty agreed genuine
  have early := (keeps [_] _ _ rfl).2
  have again := (keeps [_, _] _ _ rfl).2
  have closed := (keeps [_, _, _] _ _ rfl).2
  rw [first] at early
  rw [second] at again
  rw [third] at closed
  dsimp only [List.map]
  rw [first, second, third]
  refine ⟨⟨_, List.mem_cons_self, ?_, ?_⟩, ?_, ⟨_, List.mem_cons_self, ?_, ?_⟩,
    ⟨_, List.mem_cons_of_mem _ List.mem_cons_self, ?_, ?_⟩⟩
  · exact List.mem_of_getElem? (i := 3) rfl
  · have failed := ((keeps [] _ _ rfl).2 _ List.mem_cons_self).1
    obtain ⟨_, error, delay, _, granted, _, putOff⟩ :=
      failed.retry _ _ _ rfl (List.mem_of_getElem? (i := 3) rfl) rfl
    exact ⟨_, error, delay, rfl, granted, Option.some.inj putOff.symm⟩
  · exact ((early _ List.mem_cons_self).2 ⟨_, _, rfl, rfl, rfl, by decide⟩).1
  · exact List.mem_of_getElem? (i := 3) rfl
  · intro reading effect emitted part
    obtain ⟨_, readyAt, latest, due, timed⟩ :=
      (again _ List.mem_cons_self).1.again _ reading effect 0 1 rfl emitted (le_refl 1) part
    obtain rfl : (⟨1, 0⟩ : Instant) = readyAt :=
      Option.some.inj (congrArg (·.bind Operation.readyAt) latest)
    rcases timed with now | ⟨_, _, inTime | ⟨behind, early⟩⟩
    · exact due.trans_eq now.symm
    · exact inTime
    · exact absurd (behind.trans_lt early) (by decide)
  · exact (closed _ (List.mem_cons_of_mem _ List.mem_cons_self)).1
  · exact List.mem_of_getElem? (i := 1) rfl

/-- In the leap second behind the latest instant a retry that is due at once is begun in
time, but its body moves the clock back to the latest instant, and its outcome is appended
there, before the ready time. -/
theorem outcome_precedes_ready_time :
    let behind : Instant := { Instant.latest with nanos := 1500000000 }
    let visit := Visit.ofSecondTry 0 behind
    behind.Genuine ∧ visit.workflow.EveryStep (StepCall.Agreed fun _ => .atMostOnce) ∧
      (Operation.unwritten .step 0 "x").withState (.retryScheduled 1 behind) ∈
        records (Session.occurrences "run" .empty [visit]) ∧
      ¬∀ occurrence ∈ (visit.answer "run" (Session.storeAfter "run" .empty [visit])).occurrences,
        occurrence.effect.OfAttempt 0 2 → behind ≤ occurrence.reading := by
  refine ⟨⟨by decide, by decide⟩, Visit.ofSecondTry_agreed _ _, ?_, ?_⟩
  · exact List.mem_of_getElem? (i := 1) rfl
  · intro inTime
    have outcome : ⟨Instant.latest, .appended
        ((Operation.unwritten .step 0 "x").withState (.succeeded 2 .null))⟩ ∈
          (Visit.answer (.ofSecondTry 0 { Instant.latest with nanos := 1500000000 }) "run"
            (Session.storeAfter "run" .empty
              [.ofSecondTry 0 { Instant.latest with nanos := 1500000000 }])).occurrences :=
      List.mem_of_getElem? (i := 5) rfl
    have early := inTime _ outcome (.record _ rfl rfl fun reports => by cases reports.2.1)
    exact absurd early (by decide)

end Durable
