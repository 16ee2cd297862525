import Durable.Proofs.Emission

/-!
# The course of an attempt

Everything that one attempt of a step can do, case by case: what it emits, and how it
replies.  An attempt starts from the record of its ordinal, or from a fresh template
when there is none; a write of the engine is never refused by the log.
-/

namespace Durable

variable {V : Type}

namespace Operation

@[simp] theorem withState_ordinal (operation : Operation) (update : OperationUpdate) :
    (operation.withState update).ordinal = operation.ordinal :=
  rfl

theorem isTerminal_of_status {operation : Operation} {status : OperationStatus}
    (same : operation.status = status) : operation.isTerminal = status.isTerminal := by
  rw [isTerminal, same]

theorem apply_ok {operation : Operation} {update : OperationUpdate}
    (unfinished : operation.isTerminal = false)
    (notDecreasing : operation.attempt ≤ update.attempt) :
    operation.apply update = .ok (operation.withState update) := by
  simp [apply, unfinished, Nat.not_lt.mpr notDecreasing]

end Operation

theorem OperationLog.nextState_ok {operation : Operation} {update : OperationUpdate}
    (unfinished : operation.isTerminal = false)
    (notDecreasing : operation.attempt ≤ update.attempt) :
    OperationLog.nextState operation update = .ok (operation.withState update) := by
  simp [OperationLog.nextState, Operation.apply_ok unfinished notDecreasing, Except.mapError]

namespace BodyAction

/-- The clock after an action; a log call takes no time. -/
def tick (clock : Clock) : BodyAction → Clock
  | .log _ _ => clock
  | .advance duration => clock.advanceBy duration

end BodyAction

namespace BodyRun

/-- The clock after a body has run. -/
def clockAfter (run : BodyRun V) (clock : Clock) : Clock :=
  run.actions.foldl BodyAction.tick clock

theorem reaches_clockAfter (run : BodyRun V) (clock : Clock) :
    clock.Reaches (run.clockAfter clock) := by
  unfold clockAfter
  induction run.actions generalizing clock with
  | nil => exact .refl clock
  | cons action actions induction =>
      cases action with
      | log level message => exact induction clock
      | advance duration => exact (Clock.Reaches.advanceBy clock duration).trans (induction _)

end BodyRun

namespace BodyOutcome

/-- How the end of an attempt is recorded, and what the workflow sees of it; a
crash leaves neither. -/
def closing? (outcome : BodyOutcome V) (retry : RetryPolicy) (codec : Codec V) (name : String)
    (attempt : Nat) (now : Instant) : Option (OperationUpdate × Except DurableError V) :=
  match outcome with
  | .crash => none
  | .value returned =>
    match codec.encode returned with
    | .ok payload => some (.succeeded attempt payload, .ok returned)
    | .error details =>
      some (.failed attempt ⟨ErrorType.serialization, details⟩,
        .error (.stepFailed name ⟨ErrorType.serialization, details⟩))
  | .failure error =>
    match retry attempt error with
    | some delay =>
      some (.retryScheduled attempt (now.add delay), .error (.suspended (now.add delay)))
    | none => some (.failed attempt error, .error (.stepFailed name error))

theorem closing?_attempt {outcome : BodyOutcome V} {retry : RetryPolicy} {codec : Codec V}
    {name : String} {attempt : Nat} {now : Instant} {update : OperationUpdate}
    {seen : Except DurableError V}
    (closes : outcome.closing? retry codec name attempt now = some (update, seen)) :
    update.attempt = attempt := by
  unfold closing? at closes
  split at closes
  · simp at closes
  · split at closes <;> cases closes <;> rfl
  · split at closes <;> cases closes <;> rfl

theorem closing?_status {outcome : BodyOutcome V} {retry : RetryPolicy} {codec : Codec V}
    {name : String} {attempt : Nat} {now : Instant} {update : OperationUpdate}
    {seen : Except DurableError V}
    (closes : outcome.closing? retry codec name attempt now = some (update, seen)) :
    update.status.isTerminal = true ∨ update.status = .pending := by
  unfold closing? at closes
  split at closes
  · simp at closes
  · split at closes <;> cases closes <;> exact .inl rfl
  · split at closes <;> cases closes
    · exact .inr rfl
    · exact .inl rfl

theorem closing?_pending {ending : BodyOutcome V} {retry : RetryPolicy}
    {codec : Codec V} {name : String} {attempt : Nat} {now : Instant}
    {update : OperationUpdate} {seen : Except DurableError V}
    (closes : ending.closing? retry codec name attempt now = some (update, seen))
    (pending : update.status = .pending) :
    ∃ error delay, ending = .failure error ∧ retry attempt error = some delay ∧
      update = .retryScheduled attempt (now.add delay) := by
  unfold closing? at closes
  split at closes
  · simp at closes
  · split at closes <;> cases closes <;> cases pending
  · next error =>
      split at closes
      · next delay granted =>
          cases closes
          exact ⟨error, delay, rfl, granted, rfl⟩
      · cases closes
        cases pending

end BodyOutcome

namespace Occurrence

/-- The marker of an attempt, where the semantics ask for one. -/
def marker (reading : Instant) (semantics : StepSemantics) (marked : Operation) :
    List (Occurrence V) :=
  match semantics with
  | .atMostOnce => [⟨reading, .appended marked⟩]
  | .atLeastOnce => []

theorem marker_bodies (reading : Instant) (semantics : StepSemantics) (marked : Operation) :
    bodies (marker reading semantics marked : List (Occurrence V)) = [] := by
  cases semantics <;> rfl

end Occurrence

namespace Invocation

/-- The record that a write at the ordinal of the template starts from. -/
def current (invocation : Invocation V) (template : Operation) : Operation :=
  (invocation.log.lookup? template.ordinal).getD template

theorem current_ordinal (invocation : Invocation V) (template : Operation) :
    (invocation.current template).ordinal = template.ordinal := by
  unfold current
  cases found : invocation.log.lookup? template.ordinal with
  | none => rfl
  | some operation => exact OperationLog.lookup?_ordinal found

theorem current_of_some {invocation : Invocation V} {template operation : Operation}
    (found : invocation.log.lookup? template.ordinal = some operation) :
    invocation.current template = operation := by
  simp [current, found]

theorem current_of_none {invocation : Invocation V} {template : Operation}
    (absent : invocation.log.lookup? template.ordinal = none) :
    invocation.current template = template := by
  simp [current, absent]

/-- A write that does not go against the record is never refused by the log. -/
theorem put_writes {invocation after : Invocation V} {template : Operation}
    {update : OperationUpdate} {result : Except StoreError Operation}
    (unfinished : (invocation.current template).isTerminal = false)
    (notDecreasing : (invocation.current template).attempt ≤ update.attempt)
    (put : invocation.put template update = (result, after)) :
    Writes invocation ((invocation.current template).withState update) result after := by
  cases found : invocation.log.lookup? template.ordinal with
  | some operation =>
      rw [current_of_some found] at unfinished notDecreasing ⊢
      have admitted : invocation.log.admitUpdate template.ordinal update =
          .ok (operation.withState update) := by
        simp [OperationLog.admitUpdate, found,
          OperationLog.nextState_ok unfinished notDecreasing]
      simp only [Invocation.put, OperationLog.contains, found, Option.isSome_some, if_true,
        Invocation.update, admitted] at put
      exact write_writes put
  | none =>
      rw [current_of_none found] at unfinished notDecreasing ⊢
      have admitted : invocation.log.admitRecord (template.withState update) =
          .ok (template.withState update) := by
        simp [OperationLog.admitRecord, found]
      simp only [Invocation.put, OperationLog.contains, found, Option.isSome_none,
        Bool.false_eq_true, if_false, OperationLog.nextState_ok unfinished notDecreasing,
        Invocation.record, admitted] at put
      exact write_writes put

theorem logCall_course (invocation : Invocation V) (level : LogLevel) (message : String) :
    ∃ chatter, Occurrence.Chatter chatter ∧
      Extends invocation (invocation.logCall level message) chatter ∧
      SamePlace invocation (invocation.logCall level message) := by
  unfold logCall
  cases forwarded : invocation.logger.log? level message with
  | none => exact ⟨[], by simp [Occurrence.Chatter], .refl _, .refl _⟩
  | some entry =>
      refine ⟨[⟨invocation.now, .logged entry⟩], ?_, .emit invocation _ rfl, ⟨rfl, rfl, rfl⟩⟩
      intro occurrence member
      rw [List.mem_singleton.mp member]
      rfl

theorem advance_extends (invocation : Invocation V) (duration : Duration) :
    Extends invocation (invocation.advance duration) [] := by
  constructor <;> simp [Invocation.advance, Clock.Reaches.advanceBy]

theorem logCall_clock (invocation : Invocation V) (level : LogLevel) (message : String) :
    (invocation.logCall level message).clock = invocation.clock := by
  unfold logCall
  split <;> rfl

private theorem actions_clock (actions : List BodyAction) (invocation : Invocation V) :
    (actions.foldl act invocation).clock = actions.foldl BodyAction.tick invocation.clock := by
  induction actions generalizing invocation with
  | nil => rfl
  | cons action actions induction =>
      cases action with
      | log level message =>
          rw [List.foldl_cons, induction, act, logCall_clock]
          rfl
      | advance duration => exact induction (invocation.advance duration)

private theorem actions_course (actions : List BodyAction) (invocation : Invocation V) :
    ∃ chatter, Occurrence.Chatter chatter ∧
      Extends invocation (actions.foldl act invocation) chatter ∧
      SamePlace invocation (actions.foldl act invocation) := by
  induction actions generalizing invocation with
  | nil => exact ⟨[], by simp [Occurrence.Chatter], .refl _, .refl _⟩
  | cons action actions induction =>
      obtain ⟨later, laterLogs, laterExtends, laterPlace⟩ := induction (invocation.act action)
      cases action with
      | log level message =>
          obtain ⟨chatter, logs, extension, place⟩ := logCall_course invocation level message
          exact ⟨chatter ++ later, logs.append laterLogs, extension.trans laterExtends,
            place.trans laterPlace⟩
      | advance duration =>
          have extension := (advance_extends invocation duration).trans laterExtends
          exact ⟨later, laterLogs, extension, ⟨laterPlace.halt, laterPlace.nextOrdinal,
            laterPlace.names⟩⟩

theorem runBody_course {begun after : Invocation V} {context : StepContext} {body : StepBody V}
    {outcome : BodyOutcome V} (ran : begun.runBody context body = (outcome, after)) :
    outcome = (body context).outcome ∧ after.clock = (body context).clockAfter begun.clock ∧
      ∃ chatter, Occurrence.Chatter chatter ∧ Extends begun after chatter ∧
        SamePlace begun after := by
  simp only [runBody] at ran
  cases ran
  obtain ⟨chatter, logs, extension, place⟩ := actions_course (body context).actions
    { begun with logger := (begun.logger.enter context.scope).1 }
  exact ⟨rfl, actions_clock _ _, chatter, logs,
    ⟨extension.occurrences, extension.log, extension.medium, extension.faults,
      extension.clock⟩,
    ⟨place.halt, place.nextOrdinal, place.names⟩⟩

theorem conclude_course {invocation after : Invocation V} {template : Operation}
    {update : OperationUpdate} {diagnostic : Diagnostic} {outcome seen : Except DurableError V}
    (unfinished : (invocation.current template).isTerminal = false)
    (notDecreasing : (invocation.current template).attempt ≤ update.attempt)
    (concluded : invocation.conclude template update diagnostic outcome = (seen, after)) :
    SamePlace invocation after ∧
      ((∃ error, invocation.store.faults ≠ .none ∧ seen = .error (.checkpoint error) ∧
          Extends invocation after [⟨invocation.now,
            .appendFailed ((invocation.current template).withState update) error⟩]) ∨
        (seen = outcome ∧
          Extends invocation after [⟨invocation.now,
            .appended ((invocation.current template).withState update)⟩,
            ⟨invocation.now, .diagnosed diagnostic⟩])) := by
  simp only [conclude] at concluded
  cases put : invocation.put template update with
  | mk result written =>
      have writes := put_writes unfinished notDecreasing put
      rw [put] at concluded
      cases result with
      | error error =>
          cases concluded
          refine ⟨writes.samePlace, .inl ⟨error, ?_, rfl, writes.lost_extends⟩⟩
          intro reliable
          exact writes.reliable reliable
      | ok operation =>
          cases concluded
          have diagnosed : Extends written (written.diagnose diagnostic)
              [⟨invocation.now, .diagnosed diagnostic⟩] := by
            rw [← writes.now]
            exact .emit written _ rfl
          exact ⟨writes.samePlace.trans ⟨rfl, rfl, rfl⟩,
            .inr ⟨rfl, writes.kept_extends.trans diagnosed⟩⟩

private theorem mark_course (invocation : Invocation V) {after : Invocation V}
    {template : Operation}
    {semantics : StepSemantics} {number : Nat} {result : Except StoreError Unit}
    (unfinished : (invocation.current template).isTerminal = false)
    (notDecreasing : (invocation.current template).attempt ≤ number)
    (marked : invocation.mark template semantics number = (result, after)) :
    SamePlace invocation after ∧
      ((∃ error, result = .error error ∧ semantics = .atMostOnce ∧
          invocation.store.faults ≠ .none ∧
          Extends invocation after [⟨invocation.now,
            .appendFailed ((invocation.current template).withState (.started number)) error⟩]) ∨
        (result = .ok () ∧ after.now = invocation.now ∧ after.logger = invocation.logger ∧
          Extends invocation after (Occurrence.marker invocation.now semantics
            ((invocation.current template).withState (.started number))) ∧
          (after.current template).isTerminal = false ∧
          (after.current template).attempt ≤ number ∧
          ∀ update, (after.current template).withState update =
            (invocation.current template).withState update)) := by
  cases semantics with
  | atLeastOnce =>
      cases marked
      exact ⟨.refl _, .inr ⟨rfl, rfl, rfl, .refl _, unfinished, notDecreasing, fun _ => rfl⟩⟩
  | atMostOnce =>
      simp only [mark] at marked
      cases put : invocation.put template (.started number) with
      | mk result written =>
          have writes := put_writes unfinished notDecreasing put
          rw [put] at marked
          cases result with
          | error error =>
              cases marked
              refine ⟨writes.samePlace, .inl ⟨error, rfl, rfl, ?_, writes.lost_extends⟩⟩
              intro reliable
              exact writes.reliable reliable
          | ok operation =>
              cases marked
              have extension := writes.kept_extends
              have found : after.log.lookup? template.ordinal =
                  some ((invocation.current template).withState (.started number)) := by
                rw [extension.lookup?]
                simp [Effect.record?, History.latest?, current_ordinal]
              refine ⟨writes.samePlace,
                .inr ⟨rfl, writes.now, writes.logger, extension, ?_⟩⟩
              rw [current_of_some found]
              exact ⟨rfl, Nat.le_refl _, fun _ => rfl⟩

end Invocation

/-- A step as it is declared. -/
structure StepCall (V : Type) where
  name : String
  config : StepConfig
  codec : Codec V
  body : StepBody V

namespace StepCall

/-- The record that an attempt of the call starts from. -/
def base (call : StepCall V) (invocation : Invocation V) : Operation :=
  invocation.current (.step invocation.nextOrdinal call.name)

/-- What the body of an attempt is told. -/
def context (call : StepCall V) (invocation : Invocation V) (number : Nat) : StepContext :=
  ⟨invocation.executionId, operationId invocation.nextOrdinal, call.name, number⟩

/-- What an attempt emits until its body runs. -/
def opening (call : StepCall V) (invocation : Invocation V) (number : Nat) :
    List (Occurrence V) :=
  Occurrence.marker invocation.now call.config.semantics
      ((call.base invocation).withState (.started number))
    ++ [⟨invocation.now, .bodyBegun invocation.nextOrdinal call.config.semantics
      (call.context invocation number) false⟩]

/-- The clock after the body of an attempt. -/
def clockAfter (call : StepCall V) (invocation : Invocation V) (number : Nat) : Clock :=
  (call.body (call.context invocation number)).clockAfter invocation.clock

/-- How an attempt is recorded at a reading, and what the workflow sees of it. -/
def closing? (call : StepCall V) (invocation : Invocation V) (number : Nat)
    (reading : Instant) : Option (OperationUpdate × Except DurableError V) :=
  (call.body (call.context invocation number)).outcome.closing? call.config.retry call.codec
    call.name number reading

end StepCall

/-- Everything that an attempt of a step call can do. -/
inductive AttemptCourse (invocation : Invocation V) (call : StepCall V) (number : Nat) :
    Reply V → List (Occurrence V) → Prop where
  | unmarked (error : StoreError) (guarded : call.config.semantics = .atMostOnce)
      (faulty : invocation.store.faults ≠ .none) :
      AttemptCourse invocation call number (.returned (.error (.checkpoint error)))
        [⟨invocation.now,
          .appendFailed ((call.base invocation).withState (.started number)) error⟩]
  | crashed (chatter : List (Occurrence V)) (logs : Occurrence.Chatter chatter)
      (dies : (call.body (call.context invocation number)).outcome = .crash) :
      AttemptCourse invocation call number .crashed
        (call.opening invocation number ++ chatter)
  | lost (chatter : List (Occurrence V)) (logs : Occurrence.Chatter chatter)
      (reading : Instant) (update : OperationUpdate) (outcome : Except DurableError V)
      (closes : call.closing? invocation number reading = some (update, outcome))
      (error : StoreError) (faulty : invocation.store.faults ≠ .none)
      (timed : reading = (call.clockAfter invocation number).now) :
      AttemptCourse invocation call number (.returned (.error (.checkpoint error)))
        (call.opening invocation number ++ (chatter
          ++ [⟨reading, .appendFailed ((call.base invocation).withState update) error⟩]))
  | closed (chatter : List (Occurrence V)) (logs : Occurrence.Chatter chatter)
      (reading : Instant) (update : OperationUpdate) (outcome : Except DurableError V)
      (closes : call.closing? invocation number reading = some (update, outcome))
      (diagnostic : Diagnostic) (timed : reading = (call.clockAfter invocation number).now) :
      AttemptCourse invocation call number (.returned outcome)
        (call.opening invocation number ++ (chatter
          ++ [⟨reading, .appended ((call.base invocation).withState update)⟩,
            ⟨reading, .diagnosed diagnostic⟩]))

namespace Invocation

/-- The attempt is recorded as its body ended; a crash records nothing. -/
def close? (finished : Invocation V) (template : Operation) (context : StepContext)
    (retry : RetryPolicy) (codec : Codec V) (ending : BodyOutcome V) :
    Option (Except DurableError V × Invocation V) :=
  match ending with
  | .crash => none
  | .value value => some (finished.succeed template context codec value)
  | .failure error => some (finished.fail template context retry error)

private theorem close?_conclude {invocation after : Invocation V} {template : Operation}
    {context : StepContext} {retry : RetryPolicy} {codec : Codec V} {ending : BodyOutcome V}
    {seen : Except DurableError V}
    (closed : invocation.close? template context retry codec ending = some (seen, after)) :
    ∃ update diagnostic outcome,
      ending.closing? retry codec context.name context.attempt invocation.now =
        some (update, outcome) ∧
      invocation.conclude template update diagnostic outcome = (seen, after) := by
  cases ending with
  | crash => simp [close?] at closed
  | value value =>
      simp only [close?, succeed, Option.some.injEq] at closed
      cases encoded : codec.encode value with
      | ok payload =>
          rw [encoded] at closed
          exact ⟨_, _, _, by simp only [BodyOutcome.closing?, encoded], closed⟩
      | error details =>
          rw [encoded] at closed
          exact ⟨_, _, _, by simp only [BodyOutcome.closing?, encoded], closed⟩
  | failure error =>
      simp only [close?, Invocation.fail, Option.some.injEq] at closed
      cases granted : retry context.attempt error with
      | some delay =>
          rw [granted] at closed
          exact ⟨_, _, _, by simp only [BodyOutcome.closing?, granted], closed⟩
      | none =>
          rw [granted] at closed
          exact ⟨_, _, _, by simp only [BodyOutcome.closing?, granted], closed⟩

/-- A body that did not crash is closed by one write, lost or kept. -/
private theorem closed_course {invocation begun finished after : Invocation V}
    {call : StepCall V} {number : Nat} {ending : BodyOutcome V} {seen : Except DurableError V}
    (place : SamePlace (invocation.declare .step call.name) begun)
    (opening : Extends (invocation.declare .step call.name) begun
      (call.opening invocation number))
    (unfinished :
      (begun.current (.step invocation.nextOrdinal call.name)).isTerminal = false)
    (notDecreasing :
      (begun.current (.step invocation.nextOrdinal call.name)).attempt ≤ number)
    (sameState : ∀ update,
      (begun.current (.step invocation.nextOrdinal call.name)).withState update =
        (call.base invocation).withState update)
    (sameClock : begun.clock = invocation.clock)
    (ran : begun.runBody (call.context invocation number) call.body = (ending, finished))
    (closed : finished.close? (.step invocation.nextOrdinal call.name)
      (call.context invocation number) call.config.retry call.codec ending =
        some (seen, after)) :
    SamePlace (invocation.declare .step call.name) after ∧
      ∃ emitted, AttemptCourse invocation call number (.returned seen) emitted ∧
        Extends (invocation.declare .step call.name) after emitted := by
  obtain ⟨rfl, ticked, chatter, logs, bodyExtends, bodyPlace⟩ := runBody_course ran
  have timed : finished.now = (call.clockAfter invocation number).now := by
    rw [now, ticked, sameClock, StepCall.clockAfter]
  have sameCurrent : finished.current (.step invocation.nextOrdinal call.name) =
      begun.current (.step invocation.nextOrdinal call.name) := by
    simp only [current, bodyExtends.log, logs.records, OperationLog.insertAll_nil]
  rw [← sameCurrent] at unfinished notDecreasing
  obtain ⟨update, diagnostic, outcome, closes, concluded⟩ := close?_conclude closed
  have attempt : update.attempt = number := BodyOutcome.closing?_attempt closes
  obtain ⟨closePlace, written⟩ := conclude_course unfinished (by omega) concluded
  rw [sameCurrent, sameState] at written
  have extended := opening.trans bodyExtends
  refine ⟨(place.trans bodyPlace).trans closePlace, ?_⟩
  rcases written with ⟨error, faulty, rfl, lost⟩ | ⟨rfl, kept⟩
  · have sameFaults : finished.store.faults = invocation.store.faults := extended.faults
    rw [sameFaults] at faulty
    have whole := extended.trans lost
    rw [List.append_assoc] at whole
    exact ⟨_, .lost chatter logs finished.now update outcome closes error faulty timed, whole⟩
  · have whole := extended.trans kept
    rw [List.append_assoc] at whole
    exact ⟨_, .closed chatter logs finished.now update seen closes diagnostic timed, whole⟩

/-- The body of an attempt that was opened runs, and is closed unless it crashed. -/
private theorem body_course {invocation begun after : Invocation V} {call : StepCall V}
    {number : Nat} {reply : Reply V}
    (place : SamePlace (invocation.declare .step call.name) begun)
    (opening : Extends (invocation.declare .step call.name) begun
      (call.opening invocation number))
    (unfinished :
      (begun.current (.step invocation.nextOrdinal call.name)).isTerminal = false)
    (notDecreasing :
      (begun.current (.step invocation.nextOrdinal call.name)).attempt ≤ number)
    (sameState : ∀ update,
      (begun.current (.step invocation.nextOrdinal call.name)).withState update =
        (call.base invocation).withState update)
    (sameClock : begun.clock = invocation.clock)
    (ran : (match begun.runBody (call.context invocation number) call.body with
      | (.crash, finished) => (.crashed, finished)
      | (.value value, finished) =>
        let (outcome, closed) := finished.succeed (.step invocation.nextOrdinal call.name)
          (call.context invocation number) call.codec value
        (.returned outcome, closed)
      | (.failure error, finished) =>
        let (outcome, closed) := finished.fail (.step invocation.nextOrdinal call.name)
          (call.context invocation number) call.config.retry error
        (.returned outcome, closed)) = (reply, after)) :
    SamePlace (invocation.declare .step call.name) after ∧
      ∃ emitted, AttemptCourse invocation call number reply emitted ∧
        Extends (invocation.declare .step call.name) after emitted := by
  split at ran
  · next finished running =>
      obtain ⟨dies, _, chatter, logs, bodyExtends, bodyPlace⟩ := runBody_course running
      cases ran
      exact ⟨place.trans bodyPlace, _, .crashed chatter logs dies.symm,
        opening.trans bodyExtends⟩
  · next value finished running =>
      cases ran
      exact closed_course place opening unfinished notDecreasing sameState sameClock running rfl
  · next error finished running =>
      cases ran
      exact closed_course place opening unfinished notDecreasing sameState sameClock running rfl

theorem attempt_course {invocation after : Invocation V} {call : StepCall V} {number : Nat}
    {reply : Reply V}
    (unfinished : (call.base invocation).isTerminal = false)
    (notDecreasing : (call.base invocation).attempt ≤ number)
    (ran : (invocation.declare .step call.name).attempt invocation.nextOrdinal call.name number
      call.config call.codec call.body = (reply, after)) :
    SamePlace (invocation.declare .step call.name) after ∧
      ∃ emitted, AttemptCourse invocation call number reply emitted ∧
        Extends (invocation.declare .step call.name) after emitted := by
  let declared := invocation.declare .step call.name
  let quiet := declared.withReplaying false
  let template := Operation.step invocation.nextOrdinal call.name
  have quietens : Extends declared quiet [] := by
    constructor <;> simp [quiet, withReplaying]
  have quietPlace : SamePlace declared quiet := ⟨rfl, rfl, rfl⟩
  simp only [attempt] at ran
  cases marking : quiet.mark template call.config.semantics number with
  | mk result marked =>
      rw [marking] at ran
      obtain ⟨markPlace, course⟩ :=
        mark_course quiet unfinished notDecreasing marking
      rcases course with ⟨error, rfl, guarded, faulty, markExtends⟩ |
        ⟨rfl, sameNow, sameLogger, markExtends, markedUnfinished, markedAttempt, sameState⟩
      · cases ran
        exact ⟨quietPlace.trans markPlace, _, .unmarked error guarded faulty,
          quietens.trans markExtends⟩
      · have flag : marked.isReplaying = false := by
          rw [isReplaying, sameLogger]
          rfl
        let begun := marked.emit (.bodyBegun invocation.nextOrdinal call.config.semantics
          (call.context invocation number) marked.isReplaying)
        have beginPlace : SamePlace declared begun :=
          (quietPlace.trans markPlace).trans ⟨rfl, rfl, rfl⟩
        have opening : Extends declared begun (call.opening invocation number) := by
          have begins : Extends marked begun [⟨marked.now, .bodyBegun invocation.nextOrdinal
              call.config.semantics (call.context invocation number) marked.isReplaying⟩] :=
            .emit marked _ rfl
          rw [flag, sameNow] at begins
          exact (quietens.trans markExtends).trans begins
        exact body_course beginPlace opening markedUnfinished markedAttempt sameState
          (congrArg Clock.mk sameNow) ran

end Invocation

end Durable
