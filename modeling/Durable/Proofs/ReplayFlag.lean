import Durable.Proofs.CallTraces
import Durable.Proofs.LogCalls
import Durable.Proofs.SessionChronicle

/-!
# The replay flag

The flag is set when a pass begins and after every call, to whether there is a record of the
next ordinal, and it is down while a body runs.  Over a store that held nothing of the
execution at first, the recorded ordinals have no gap and only the last operation can run a
body again, so that within one pass the flag falls once at most and never rises.
-/

namespace Durable

variable {V O : Type} {semantics : String → StepSemantics} {medium : Medium}

open Occurrence

namespace Effect

/-- What an effect shows of the replay flag. -/
def replaying? : Effect V → Option Bool
  | .bodyBegun _ _ _ replaying => some replaying
  | .stepReturned _ _ replaying | .waitReturned _ _ replaying => some replaying
  | .observed observation => some observation.replaying
  | .declared .. | .logged _ | .appended _ | .appendFailed .. | .diagnosed _ => none

end Effect

namespace Occurrence

/-- What a trace shows of the replay flag, in order. -/
def readings (trace : List (Occurrence V)) : List Bool :=
  trace.filterMap fun occurrence => occurrence.effect.replaying?

@[simp] theorem readings_nil : readings ([] : List (Occurrence V)) = [] :=
  rfl

@[simp] theorem readings_append (earlier later : List (Occurrence V)) :
    readings (earlier ++ later) = readings earlier ++ readings later := by
  simp [readings]

@[simp] theorem readings_cons (occurrence : Occurrence V) (rest : List (Occurrence V)) :
    readings (occurrence :: rest) = occurrence.effect.replaying?.toList ++ readings rest := by
  cases shown : occurrence.effect.replaying? <;> simp [readings, shown]

theorem Chatter.readings {chatter : List (Occurrence V)} (logs : Chatter chatter) :
    Occurrence.readings chatter = [] := by
  apply List.filterMap_eq_nil_iff.mpr
  intro occurrence member
  have isLog := logs occurrence member
  cases effect : occurrence.effect <;> simp_all [Effect.isChatter, Effect.replaying?]

end Occurrence

theorem StepCall.opening_readings (call : StepCall V) (invocation : Invocation V)
    (number : Nat) : readings (call.opening invocation number) = [false] := by
  cases semantics : call.config.semantics <;>
    simp [opening, Occurrence.marker, semantics, Effect.replaying?]

section Courses

variable {invocation : Invocation V}

theorem AttemptCourse.readings {call : StepCall V} {number : Nat} {reply : Reply V}
    {middle : List (Occurrence V)} (course : AttemptCourse invocation call number reply middle) :
    Occurrence.readings middle = (bodies middle).map fun _ => false := by
  have opens : (bodies (call.opening invocation number)).map (fun _ => false) = [false] := by
    cases semantics : call.config.semantics <;>
      simp [StepCall.opening, Occurrence.marker, semantics, Effect.isBody]
  cases course with
  | unmarked error guarded faulty => rfl
  | crashed chatter logs dies =>
      simp [call.opening_readings, logs.readings, opens, logs.bodies]
  | lost chatter logs reading update outcome closes error faulty =>
      simp [call.opening_readings, logs.readings, opens, logs.bodies, Effect.replaying?,
        Effect.isBody]
  | closed chatter logs reading update outcome closes diagnostic =>
      simp [call.opening_readings, logs.readings, opens, logs.bodies, Effect.replaying?,
        Effect.isBody]

theorem StepCourse.readings {call : StepCall V} {reply : Reply V} {middle : List (Occurrence V)}
    (course : StepCourse invocation call reply middle) :
    Occurrence.readings middle = (bodies middle).map fun _ => false := by
  cases course with
  | duplicate first known => rfl
  | mismatched operation fresh found other => rfl
  | planned recorded fresh found same course =>
      generalize StepPlan.ofRecord recorded call.config.semantics invocation.now = plan at course
      cases course with
      | replay operation => rfl
      | fail error => rfl
      | reported operation noted => rfl
      | annotated operation unnoted => rfl
      | unannotated operation unnoted error faulty => rfl
      | attempted number unfinished notDecreasing course => exact course.readings

theorem WaitCourse.readings {call : WaitCall} {outcome : Except DurableError Unit}
    {middle : List (Occurrence V)} (course : WaitCourse invocation call outcome middle) :
    Occurrence.readings middle = [] := by
  cases course with
  | duplicate first known => rfl
  | mismatched operation fresh found other => rfl
  | planned recorded fresh found same course =>
      generalize WaitPlan.ofRecord recorded invocation.now = plan at course
      cases course <;> rfl

end Courses

namespace Invocation

/-- The flag says whether there is a record of the next ordinal. -/
def Truthful (invocation : Invocation V) : Prop :=
  invocation.isReplaying = invocation.log.contains invocation.nextOrdinal

/-- The invocation while a body runs: as the body begins, and after each of its actions. -/
def duringBody (begun : Invocation V) (context : StepContext) (body : StepBody V) :
    List (Invocation V) :=
  (body context).actions.scanl act { begun with logger := (begun.logger.enter context.scope).1 }

private theorem act_isReplaying (invocation : Invocation V) (action : BodyAction) :
    (invocation.act action).isReplaying = invocation.isReplaying := by
  cases action with
  | log level message =>
      simp only [act, logCall]
      split <;> rfl
  | advance duration => rfl

private theorem actions_isReplaying {actions : List BodyAction} {begun moment : Invocation V}
    (member : moment ∈ actions.scanl act begun) : moment.isReplaying = begun.isReplaying := by
  induction actions generalizing begun with
  | nil =>
      rw [List.scanl_nil, List.mem_singleton] at member
      rw [member]
  | cons action actions induction =>
      rw [List.scanl_cons, List.mem_cons] at member
      rcases member with rfl | later
      · rfl
      · exact (induction later).trans (act_isReplaying begun action)

theorem duringBody_isReplaying {begun moment : Invocation V} {context : StepContext}
    {body : StepBody V} (member : moment ∈ begun.duringBody context body) :
    moment.isReplaying = begun.isReplaying := by
  have unmoved := actions_isReplaying member
  exact unmoved

theorem Called.contains_next {before after : Invocation V} {kind : OperationKind}
    {name : String} {emitted : List (Occurrence V)} {halt : Option Halt}
    (called : Called before after kind name emitted halt)
    (own : OwnRecords before kind name (Occurrence.records emitted)) :
    after.log.contains after.nextOrdinal = before.log.contains (before.nextOrdinal + 1) := by
  have elsewhere : History.latest? (Occurrence.records emitted) (before.nextOrdinal + 1) = none := by
    apply History.latest?_eq_none
    intro operation member
    rw [(own.own operation member).1]
    exact Nat.ne_of_lt (Nat.lt_succ_self _)
  rw [called.log, called.nextOrdinal, OperationLog.contains, OperationLog.lookup?_insertAll,
    elsewhere, Option.none_or]
  rfl

theorem step_truthful (call : StepCall V) {before after : Invocation V}
    {outcome : Except DurableError V}
    (stepped : before.step call.name call.config call.codec call.body =
      (.returned outcome, after)) : after.Truthful := by
  unfold Invocation.step at stepped
  split at stepped
  · cases stepped
  · cases stepped
    exact settle_replaying _ _

end Invocation

namespace MadeCall

variable {made : MadeCall V}

/-- Every call that returns leaves the flag truthful, whatever it found and returned. -/
theorem truthful_after (returns : made.reply ≠ .crashed) : made.after.Truthful := by
  obtain ⟨before, declaration⟩ := made
  cases declaration with
  | step call =>
      cases stepped : before.step call.name call.config call.codec call.body with
      | mk given finished =>
          simp only [reply, after, result, stepped] at returns ⊢
          cases given with
          | crashed => exact absurd rfl returns
          | returned outcome => exact Invocation.step_truthful call stepped
  | wait call => exact Invocation.settle_replaying _ _

private theorem readings_of_halted {halt : Halt} (halted : made.before.halt = some halt) :
    readings made.emitted = [made.after.isReplaying] := by
  obtain ⟨before, declaration⟩ := made
  cases declaration with
  | step call =>
      simp only [emitted, after, result, Invocation.step_halted halted]
      rw [((Invocation.settle_extends before _).trans (.emit _ _ rfl)).occurrences,
        List.drop_left]
      rfl
  | wait call =>
      simp only [emitted, after, result, Invocation.wait_halted halted]
      rw [((Invocation.settle_extends before _).trans (.emit _ _ rfl)).occurrences,
        List.drop_left]
      rfl

theorem readings_emitted (returns : made.reply ≠ .crashed) :
    readings made.emitted =
      (bodies made.emitted).map (fun _ => false) ++ [made.after.isReplaying] := by
  cases halted : made.before.halt with
  | none =>
      cases declared : made.declaration with
      | step call =>
          obtain ⟨reply, middle, course, called, replied⟩ := step_called halted declared
          rw [emitted_of_called called]
          cases reply with
          | crashed => exact absurd (by rw [replied, Reply.map]) returns
          | returned outcome =>
              simp [course.readings, Reply.returning, Effect.replaying?, Effect.isBody]
      | wait call =>
          obtain ⟨outcome, middle, course, called, _⟩ := wait_called halted declared
          rw [emitted_of_called called]
          simp [course.readings, course.bodies, Effect.replaying?, Effect.isBody]
  | some halt => rw [(quiet_of_halted halted).bodies, readings_of_halted halted, List.map_nil,
      List.nil_append]

theorem readings_of_crashed (crashed : made.reply = .crashed) :
    readings made.emitted = (bodies made.emitted).map fun _ => false := by
  have free : made.before.halt = none := by
    by_contra halted
    obtain ⟨halt, halted⟩ := Option.ne_none_iff_exists'.mp halted
    rw [(of_halted halted).1] at crashed
    cases crashed
  cases declared : made.declaration with
  | step call =>
      obtain ⟨reply, middle, course, called, replied⟩ := step_called free declared
      rw [replied, Reply.map_eq_crashed] at crashed
      rw [emitted_of_called called, crashed]
      simp [course.readings, Reply.returning, Effect.replaying?, Effect.isBody]
  | wait call =>
      obtain ⟨_, _, _, _, replied⟩ := wait_called free declared
      rw [replied] at crashed
      cases crashed

/-- A call that leaves the flag up found it up and ran no body, when there is a settled record
of its ordinal as soon as there is a record of the next one. -/
theorem silent_of_replaying (truthful : made.before.Truthful)
    (settled : made.before.log.contains (made.before.nextOrdinal + 1) = true →
      ∃ record, made.before.log.lookup? made.before.nextOrdinal = some record ∧
        record.Settled semantics)
    (agreed : ∀ call, made.declaration = .step call → call.Agreed semantics)
    (returns : made.reply ≠ .crashed) (replaying : made.after.isReplaying = true) :
    made.before.isReplaying = true ∧ bodies made.emitted = [] := by
  rw [truthful_after returns] at replaying
  cases halted : made.before.halt with
  | some halt =>
      have idle := (of_halted halted).2
      rw [idle.log, idle.place.nextOrdinal] at replaying
      exact ⟨truthful.trans replaying, (quiet_of_halted halted).bodies⟩
  | none =>
      cases declared : made.declaration with
      | step call =>
          obtain ⟨reply, middle, course, called, replied⟩ := step_called halted declared
          have returning := reply.returning_quiet call.name made.after
          have own := course.ownRecords
          rw [← returning.records_append] at own
          rw [called.contains_next own] at replaying
          -- The record behind the call is there before it, so the call only recalls its own.
          obtain ⟨record, found, isSettled⟩ := settled replaying
          have isQuiet := (course.of_settled found isSettled (agreed call declared)).1
          rw [truthful, OperationLog.contains, found, emitted_of_called called]
          refine ⟨rfl, ?_⟩
          simp [isQuiet.bodies, returning.bodies, Effect.isBody]
      | wait call =>
          obtain ⟨outcome, middle, course, called, _⟩ := wait_called halted declared
          have own := course.ownRecords
          have sameRecords : records (middle
              ++ [⟨made.after.now, .waitReturned call.name outcome made.after.isReplaying⟩]) =
              records middle := by
            simp [Effect.record?]
          rw [← sameRecords] at own
          rw [called.contains_next own] at replaying
          obtain ⟨record, found, _⟩ := settled replaying
          rw [truthful, OperationLog.contains, found, emitted_of_called called]
          refine ⟨rfl, ?_⟩
          simp [course.bodies, Effect.isBody]

end MadeCall

/-- Once it is down, the flag stays down. -/
def Falling (flags : List Bool) : Prop :=
  flags.Pairwise fun earlier later => later = true → earlier = true

namespace Falling

theorem append {front back : List Bool} {middle : Bool} (falls : Falling (front ++ [middle]))
    (goesOn : Falling (middle :: back)) : Falling (front ++ back) := by
  obtain ⟨frontFalls, _, toMiddle⟩ := List.pairwise_append.mp falls
  obtain ⟨fromMiddle, backFalls⟩ := List.pairwise_cons.mp goesOn
  refine List.pairwise_append.mpr ⟨frontFalls, backFalls, ?_⟩
  intro earlier inFront later inBack replaying
  exact toMiddle earlier inFront middle (List.mem_singleton.mpr rfl)
    (fromMiddle later inBack replaying)

theorem of_down {flags : List Bool} (down : ∀ flag ∈ flags, flag = false) (first : Bool) :
    Falling (first :: flags) := by
  have never : ∀ earlier, ∀ flag ∈ flags, flag = true → earlier = true :=
    fun _ flag member up => Bool.noConfusion ((down flag member).symm.trans up)
  exact List.pairwise_cons.mpr
    ⟨never first, List.pairwise_of_forall_mem_list fun earlier _ => never earlier⟩

theorem of_equal {flags : List Bool} (shown : Bool) (equal : ∀ flag ∈ flags, flag = shown) :
    Falling flags :=
  List.pairwise_of_forall_mem_list fun earlier inFlags later inFlagsToo replaying =>
    (equal earlier inFlags).trans ((equal later inFlagsToo).symm.trans replaying)

end Falling

namespace Invocation

/-- The flag falls from the first state on, over the readings that are shown. -/
def Sinks (before after : Invocation V) : Prop :=
  ∃ emitted, after.occurrences = before.occurrences ++ emitted ∧
    Falling (before.isReplaying :: readings emitted)

/-- It also falls to the second state. -/
def Falls (before after : Invocation V) : Prop :=
  ∃ emitted, after.occurrences = before.occurrences ++ emitted ∧
    Falling (before.isReplaying :: readings emitted ++ [after.isReplaying])

theorem Sinks.refl (invocation : Invocation V) : Sinks invocation invocation :=
  ⟨[], (List.append_nil _).symm, List.pairwise_singleton _ _⟩

theorem Falls.then {before middle final : Invocation V} (falls : Falls before middle)
    (sinks : Sinks middle final) : Sinks before final := by
  obtain ⟨first, occurred, fallsFirst⟩ := falls
  obtain ⟨rest, ran, fallsRest⟩ := sinks
  refine ⟨first ++ rest, ?_, ?_⟩
  · rw [ran, occurred, List.append_assoc]
  · rw [readings_append, ← List.cons_append]
    exact fallsFirst.append fallsRest

/-- Nothing shows the flag but as it is, and nothing moves it. -/
theorem Falls.unmoved {before after : Invocation V} {emitted : List (Occurrence V)}
    (occurred : after.occurrences = before.occurrences ++ emitted)
    (flag : after.isReplaying = before.isReplaying)
    (shown : ∀ reading ∈ readings emitted, reading = before.isReplaying) :
    Falls before after := by
  refine ⟨emitted, occurred, .of_equal before.isReplaying ?_⟩
  intro reading member
  rw [flag] at member
  rcases List.mem_append.mp member with first | last
  · rcases List.mem_cons.mp first with rfl | inside
    · rfl
    · exact shown reading inside
  · exact List.mem_singleton.mp last

end Invocation

namespace MadeCall

variable {made : MadeCall V}

private theorem bodies_down (trace : List (Occurrence V)) :
    ∀ flag ∈ (bodies trace).map fun _ => false, flag = false := by
  intro flag member
  obtain ⟨_, _, rfl⟩ := List.mem_map.mp member
  rfl

theorem sinks_of_crashed (crashed : made.reply = .crashed) :
    made.before.Sinks made.after := by
  refine ⟨made.emitted, made.occurrences_after, ?_⟩
  rw [readings_of_crashed crashed]
  exact .of_down (bodies_down _) _

theorem falls (returns : made.reply ≠ .crashed)
    (silent : made.after.isReplaying = true →
      made.before.isReplaying = true ∧ bodies made.emitted = []) :
    made.before.Falls made.after := by
  refine ⟨made.emitted, made.occurrences_after, ?_⟩
  rw [readings_emitted returns]
  cases left : made.after.isReplaying with
  | true =>
      obtain ⟨found, noBody⟩ := silent left
      simp [Falling, found, noBody]
  | false =>
      rw [List.cons_append]
      apply Falling.of_down
      intro flag member
      simp only [List.mem_append, List.mem_singleton] at member
      rcases member with (body | last) | last
      · exact bodies_down _ flag body
      · exact last
      · exact last

end MadeCall

/-- Behind a record there is a settled one, so that a call which finds a record behind its
ordinal finds a settled one at it. -/
theorem Chronicled.settled_here {earlier : List Operation} {begun invocation : Invocation V}
    (chronicled : Chronicled semantics medium earlier begun invocation)
    (continues : Continues semantics medium earlier begun)
    (chronicle : Chronicle semantics medium [] earlier)
    (ahead : invocation.log.contains (invocation.nextOrdinal + 1) = true) :
    ∃ record, invocation.log.lookup? invocation.nextOrdinal = some record ∧
      record.Settled semantics := by
  obtain ⟨next, nextFound⟩ := Option.isSome_iff_exists.mp ahead
  have relatedNext := chronicled.related continues (Nat.le_succ _)
  rw [nextFound, History.latest?_append, chronicled.ahead (Nat.le_succ _), Option.none_or]
    at relatedNext
  generalize latestNext : History.latest? earlier (invocation.nextOrdinal + 1) = written
    at relatedNext
  cases relatedNext with
  | some given =>
      obtain ⟨member, ordinal⟩ := History.latest?_mem latestNext
      obtain ⟨settled, latest, isSettled⟩ :=
        chronicle.settled_behind member (Nat.lt_of_succ_le (Nat.le_of_eq ordinal.symm))
      have related := chronicled.found continues
      rw [latest] at related
      generalize invocation.log.lookup? invocation.nextOrdinal = read at related
      cases related with
      | some given => exact ⟨_, rfl, given.givesBack.settled.mpr isSettled⟩

/-- Along a pass that goes on from a chronicle the flag falls. -/
theorem Workflow.run_sinks {earlier : List Operation} {begun : Invocation V}
    (chronicle : Chronicle semantics medium [] earlier)
    (continues : Continues semantics medium earlier begun) {workflow : Workflow V O}
    (agreed : workflow.EveryStep (StepCall.Agreed semantics)) {before : Invocation V}
    (chronicled : Chronicled semantics medium earlier begun before)
    (truthful : before.Truthful) : before.Sinks (workflow.run before).2 := by
  have preserved := chronicled_preserved (V := V) continues
  -- A call is silent while the flag is up, because it finds a settled record.
  have falls : ∀ made : MadeCall V, made.reply ≠ .crashed →
      Chronicled semantics medium earlier begun made.before → made.before.Truthful →
      (∀ call, made.declaration = .step call → call.Agreed semantics) →
      made.before.Falls made.after := fun made returns chronicled truthful agreed =>
    MadeCall.falls returns (MadeCall.silent_of_replaying truthful
      (chronicled.settled_here continues chronicle) agreed returns)
  induction workflow generalizing before with
  | done outcome => exact .refl before
  | step name config codec body next induction =>
      let call : StepCall V := ⟨name, config, codec, body⟩
      let made : MadeCall V := ⟨before, .step call⟩
      cases stepped : before.step name config codec body with
      | mk reply after =>
          have result : made.result = (reply.map some, after) := MadeCall.result_of_step stepped
          have sameAfter : made.after = after := congrArg Prod.snd result
          have sameReply : made.reply = reply.map some := congrArg Prod.fst result
          simp only [run, stepped]
          cases reply with
          | crashed =>
              have sinks := MadeCall.sinks_of_crashed sameReply
              rwa [sameAfter] at sinks
          | returned outcome =>
              have kept := (preserved.stepCall agreed.1 stepped chronicled).2 (by simp)
              have fallen := falls made (by simp [sameReply]) chronicled truthful fun _ same => by
                cases same
                exact agreed.1
              rw [sameAfter] at fallen
              exact fallen.then (induction outcome (agreed.2 outcome) kept
                (Invocation.step_truthful call stepped))
  | wait name duration next induction =>
      let made : MadeCall V := ⟨before, .wait ⟨name, duration⟩⟩
      have kept := preserved.waitCall ⟨name, duration⟩ (Eq.refl (before.wait name duration))
        chronicled
      have returns : made.reply ≠ .crashed := by rintro ⟨⟩
      have waits : ∀ call, made.declaration = .step call → call.Agreed semantics := by
        rintro call ⟨⟩
      exact (falls made returns chronicled truthful waits).then
        (induction _ (agreed _) kept (MadeCall.truthful_after returns))
  | log level message next induction =>
      obtain ⟨chatter, logs, extension, place⟩ := Invocation.logCall_course before level message
      have flag := before.act_isReplaying (.log level message)
      have fallen := Invocation.Falls.unmoved extension.occurrences flag (by simp [logs.readings])
      have stillTruthful : (before.logCall level message).Truthful := by
        unfold Invocation.logCall
        split <;> exact truthful
      exact fallen.then
        (induction agreed (preserved.logCall level message chronicled) stillTruthful)
  | observe next induction =>
      have fallen : before.Falls (before.emit (.observed before.observation)) :=
        .unmoved rfl rfl (by simp [Effect.replaying?, Invocation.observation])
      exact fallen.then (induction before.observation (agreed before.observation)
        (preserved.observe chronicled) truthful)
  | advance duration next induction =>
      have fallen : before.Falls (before.advance duration) :=
        .unmoved (List.append_nil _).symm rfl (by simp)
      exact fallen.then (induction agreed (preserved.advance duration chronicled) truthful)

/-- The replay flag tells the truth and only falls.  Whatever log a pass loads, the flag says
at its begin, and after every call that returns, whether there is a record of the next ordinal;
it is down when a body begins, and no body moves it.  When the log was left by visits to a
store that held nothing of the execution, and each name keeps its semantics, what the pass
shows of the flag never rises. -/
theorem replay_flag_is_truthful_and_falls :
    (∀ (visit : Visit V O) (executionId : String) (store after : Store) (log : OperationLog),
        OperationLog.load store executionId = (.ok log, after) →
        (visit.begun executionId log after).Truthful ∧
          ∀ made ∈ visit.calls executionId store,
            (made.reply ≠ .crashed → made.after.Truthful ∧ readings made.emitted =
              (bodies made.emitted).map (fun _ => false) ++ [made.after.isReplaying]) ∧
            (made.reply = .crashed →
              readings made.emitted = (bodies made.emitted).map fun _ => false)) ∧
      (∀ (begun : Invocation V) (context : StepContext) (body : StepBody V),
        ∀ moment ∈ begun.duringBody context body, moment.isReplaying = begun.isReplaying) ∧
      ∀ (semantics : String → StepSemantics) (executionId : String) (store after : Store)
        (visits : List (Visit V O)) (visit : Visit V O) (log : OperationLog),
        store.medium.history executionId = .ok [] →
        (∀ earlier ∈ visits, earlier.workflow.EveryStep (StepCall.Agreed semantics)) →
        visit.workflow.EveryStep (StepCall.Agreed semantics) →
        OperationLog.load (Session.storeAfter executionId store visits) executionId =
          (.ok log, after) →
        let start := visit.begun executionId log after
        Falling (start.isReplaying :: readings (visit.workflow.run start).2.occurrences) := by
  refine ⟨?_, ?_, ?_⟩
  · intro visit executionId store after log _
    refine ⟨rfl, fun made _ => ⟨fun returns => ?_, MadeCall.readings_of_crashed⟩⟩
    exact ⟨MadeCall.truthful_after returns, MadeCall.readings_emitted returns⟩
  · intro begun context body moment member
    exact Invocation.duringBody_isReplaying member
  · intro semantics executionId store after visits visit log empty agreed visitAgreed loaded start
    have session := ChronicledSession.session visits empty agreed
    obtain ⟨continues, chronicled⟩ := session.chronicled empty loaded visit
    have truthful : start.Truthful := rfl
    obtain ⟨emitted, ran, falls⟩ :=
      Workflow.run_sinks session.chronicle continues visitAgreed chronicled truthful
    rw [ran, readings_append]
    exact falls

/-- A visit that recalls its only step shows the flag up as it begins, and down from there
on. -/
theorem recalled_step_lowers_the_flag :
    let log : OperationLog := ⟨"run", [(Operation.step 0 "x").withState (.succeeded 1 .null)]⟩
    let store := Session.storeAfter "run" .empty [Visit.ofOneStep]
    let start := Visit.ofOneStep.begun "run" log { store with reads := 2 }
    start.Truthful ∧ start.isReplaying = true ∧
      readings (Visit.ofOneStep.workflow.run start).2.occurrences = [false] ∧
      Falling [true, false] := by
  intro log store start
  obtain ⟨truth, _, falls⟩ := replay_flag_is_truthful_and_falls (V := Unit) (O := Unit)
  have agreed : Visit.ofOneStep.workflow.EveryStep (StepCall.Agreed fun _ => .atMostOnce) :=
    ⟨rfl, fun _ => trivial⟩
  have told := truth Visit.ofOneStep "run" store { store with reads := 2 } log rfl
  exact ⟨told.1, rfl, rfl, falls (fun _ => .atMostOnce) "run" .empty { store with reads := 2 }
    [Visit.ofOneStep] Visit.ofOneStep log rfl (by simpa using agreed) agreed rfl⟩

end Durable
