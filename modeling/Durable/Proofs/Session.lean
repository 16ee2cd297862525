import Durable.Execution
import Durable.Proofs.Trace

/-!
# Sessions

A session invokes one execution again and again, never two invocations at once.
Each visit brings its own workflow and its own clock; the store with its faults is
handed on from visit to visit.  A property that is kept by quiet occurrences and by
every course of a call holds at the end of a pass, and before each of its calls.
-/

namespace Durable

variable {V O : Type}

namespace Workflow

/-- The condition holds of every step that the workflow can declare. -/
def EveryStep (condition : StepCall V → Prop) : Workflow V O → Prop
  | .done _ => True
  | .step name config codec body next =>
    condition ⟨name, config, codec, body⟩ ∧ ∀ outcome, (next outcome).EveryStep condition
  | .wait _ _ next => ∀ outcome, (next outcome).EveryStep condition
  | .log _ _ next => next.EveryStep condition
  | .observe next => ∀ observation, (next observation).EveryStep condition
  | .advance _ next => next.EveryStep condition

theorem everyStep_true (workflow : Workflow V O) : workflow.EveryStep fun _ => True := by
  induction workflow with
  | done outcome => trivial
  | step name config codec body next induction => exact ⟨trivial, induction⟩
  | wait name duration next induction => exact induction
  | log level message next induction => exact induction
  | observe next induction => exact induction
  | advance duration next induction => exact induction

theorem EveryStep.imp {condition weaker : StepCall V → Prop} {workflow : Workflow V O}
    (each : workflow.EveryStep condition) (implies : ∀ call, condition call → weaker call) :
    workflow.EveryStep weaker := by
  induction workflow with
  | done outcome => trivial
  | step name config codec body next induction =>
      exact ⟨implies _ each.1, fun outcome => induction outcome (each.2 outcome)⟩
  | wait name duration next induction => exact fun outcome => induction outcome (each outcome)
  | log level message next induction => exact induction each
  | observe next induction =>
      exact fun observation => induction observation (each observation)
  | advance duration next induction => exact induction each

end Workflow

/-- One invocation of a session. -/
structure Visit (V O : Type) where
  clock : Clock
  suppressReplayLogs : Bool
  workflow : Workflow V O

namespace Visit

def answer (visit : Visit V O) (executionId : String) (store : Store) : Answer V O :=
  (Execution.mk executionId visit.suppressReplayLogs).invoke store visit.clock visit.workflow

/-- A visit with a workflow of one step. -/
def ofOneStep : Visit Unit Unit where
  clock := ⟨default⟩
  suppressReplayLogs := false
  workflow :=
    .step "x" .standard ⟨fun _ => .ok .null, fun _ => .ok ()⟩ (fun _ => ⟨[], .value ()⟩)
      fun _ => .done (.ok ())

end Visit

namespace Session

/-- The answers to the visits, each of which finds the store as the one before it
left it. -/
def answers (executionId : String) (store : Store) : List (Visit V O) → List (Answer V O)
  | [] => []
  | visit :: rest =>
    let answer := visit.answer executionId store
    answer :: answers executionId answer.store rest

/-- Everything that happens in the session. -/
def occurrences (executionId : String) (store : Store) (visits : List (Visit V O)) :
    List (Occurrence V) :=
  (answers executionId store visits).flatMap Answer.occurrences

/-- The store that the session leaves behind. -/
def storeAfter (executionId : String) (store : Store) : List (Visit V O) → Store
  | [] => store
  | visit :: rest => storeAfter executionId (visit.answer executionId store).store rest

end Session

namespace Invocation

/-- A property of invocations that every part of a pass keeps, when its steps
satisfy the condition.  A crash ends the pass, so only the final property has to hold
after it. -/
structure Preserved (condition : StepCall V → Prop) (property final : Invocation V → Prop) :
    Prop where
  ended : ∀ {invocation : Invocation V}, property invocation → final invocation
  quiet : ∀ {before after : Invocation V} {emitted : List (Occurrence V)},
    Extends before after emitted → Occurrence.Quiet emitted → SamePlace before after →
    property before → property after
  step : ∀ {before after : Invocation V} {call : StepCall V} {reply : Reply V}
    {middle : List (Occurrence V)},
    condition call → before.halt = none → StepCourse before call reply middle →
    Called before after .step call.name (middle ++ reply.returning call.name after)
      reply.halt? →
    property before → final after ∧ (reply ≠ .crashed → property after)
  wait : ∀ {before after : Invocation V} {call : WaitCall}
    {outcome : Except DurableError Unit} {middle : List (Occurrence V)},
    before.halt = none → WaitCourse before call outcome middle →
    Called before after .timer call.name
      (middle ++ [⟨after.now, .waitReturned call.name outcome after.isReplaying⟩])
      (haltOf? outcome) →
    property before → property after

theorem emit_quiet (invocation : Invocation V) (effect : Effect V)
    (silent : effect.record? = none) (idle : effect.isBody = false) :
    Occurrence.Quiet [(⟨invocation.now, effect⟩ : Occurrence V)] :=
  ⟨by simp [silent], by simp [idle]⟩

theorem settle_halted {invocation : Invocation V} {halt : Halt}
    (halted : invocation.halt = some halt) (outcome : Except DurableError α) :
    SamePlace invocation (invocation.settle outcome) := by
  have refreshed : invocation.refresh.halt = some halt := halted
  unfold settle noteHalt
  simp only [refreshed]
  exact ⟨rfl, rfl, rfl⟩

namespace Preserved

variable {condition : StepCall V → Prop} {property final : Invocation V → Prop}

theorem stepCall (preserved : Preserved condition property final) {before after : Invocation V}
    {call : StepCall V} {reply : Reply V} (allowed : condition call)
    (stepped : before.step call.name call.config call.codec call.body = (reply, after))
    (holds : property before) : final after ∧ (reply ≠ .crashed → property after) := by
  cases halted : before.halt with
  | none =>
      obtain ⟨middle, course, called⟩ := step_course halted call stepped
      exact preserved.step allowed halted course called holds
  | some halt =>
      rw [step_halted halted] at stepped
      cases stepped
      suffices kept : property _ from ⟨preserved.ended kept, fun _ => kept⟩
      refine preserved.quiet ((settle_extends before _).trans (.emit _ _ rfl))
        (emit_quiet _ _ rfl rfl) ?_ holds
      exact (settle_halted halted _).trans ⟨rfl, rfl, rfl⟩

theorem waitCall (preserved : Preserved condition property final) {before after : Invocation V}
    (call : WaitCall) {outcome : Except DurableError Unit}
    (waited : before.wait call.name call.duration = (outcome, after))
    (holds : property before) : property after := by
  cases halted : before.halt with
  | none =>
      obtain ⟨middle, course, called⟩ := wait_course halted call waited
      exact preserved.wait halted course called holds
  | some halt =>
      rw [wait_halted halted] at waited
      cases waited
      refine preserved.quiet ((settle_extends before _).trans (.emit _ _ rfl))
        (emit_quiet _ _ rfl rfl) ?_ holds
      exact (settle_halted halted _).trans ⟨rfl, rfl, rfl⟩

theorem logCall (preserved : Preserved condition property final) {before : Invocation V}
    (level : LogLevel) (message : String) (holds : property before) :
    property (before.logCall level message) := by
  obtain ⟨chatter, logs, extension, place⟩ := logCall_course before level message
  exact preserved.quiet extension ⟨logs.records, logs.bodies⟩ place holds

theorem observe (preserved : Preserved condition property final) {before : Invocation V}
    (holds : property before) : property (before.emit (.observed before.observation)) :=
  preserved.quiet (.emit before _ rfl) (emit_quiet before _ rfl rfl) ⟨rfl, rfl, rfl⟩ holds

theorem advance (preserved : Preserved condition property final) {before : Invocation V}
    (duration : Duration) (holds : property before) : property (before.advance duration) :=
  preserved.quiet (advance_extends before duration) ⟨rfl, rfl⟩ ⟨rfl, rfl, rfl⟩ holds

/-- What every part of a pass keeps holds at its end. -/
theorem run (preserved : Preserved condition property final) {workflow : Workflow V O}
    (each : workflow.EveryStep condition) {before : Invocation V} (holds : property before) :
    final (workflow.run before).2 := by
  induction workflow generalizing before with
  | done outcome => exact preserved.ended holds
  | step name config codec body next induction =>
      simp only [Workflow.run]
      split
      · next after stepped => exact (preserved.stepCall each.1 stepped holds).1
      · next outcome after stepped =>
          have kept := (preserved.stepCall each.1 stepped holds).2 (by simp)
          exact induction outcome (each.2 outcome) kept
  | wait name duration next induction =>
      have waited := preserved.waitCall ⟨name, duration⟩ (Eq.refl (before.wait name duration)) holds
      exact induction _ (each _) waited
  | log level message next induction =>
      exact induction each (preserved.logCall level message holds)
  | observe next induction =>
      exact induction before.observation (each before.observation) (preserved.observe holds)
  | advance duration next induction =>
      exact induction each (preserved.advance duration holds)

end Preserved

theorem Preserved.and {condition : StepCall V → Prop}
    {property final otherProperty otherFinal : Invocation V → Prop}
    (first : Preserved condition property final)
    (second : Preserved condition otherProperty otherFinal) :
    Preserved condition (fun invocation => property invocation ∧ otherProperty invocation)
      fun invocation => final invocation ∧ otherFinal invocation where
  ended holds := ⟨first.ended holds.1, second.ended holds.2⟩
  quiet extension isQuiet place holds :=
    ⟨first.quiet extension isQuiet place holds.1, second.quiet extension isQuiet place holds.2⟩
  step allowed free course called holds := by
    have kept := first.step allowed free course called holds.1
    have otherKept := second.step allowed free course called holds.2
    exact ⟨⟨kept.1, otherKept.1⟩, fun returned => ⟨kept.2 returned, otherKept.2 returned⟩⟩
  wait free course called holds :=
    ⟨first.wait free course called holds.1, second.wait free course called holds.2⟩

theorem Preserved.weaken {condition stronger : StepCall V → Prop}
    {property final : Invocation V → Prop} (preserved : Preserved condition property final)
    (implies : ∀ call, stronger call → condition call) : Preserved stronger property final where
  ended := preserved.ended
  quiet := preserved.quiet
  step allowed := preserved.step (implies _ allowed)
  wait := preserved.wait

/-- The state of a pass that began in the given state: its log and its medium have
taken in the records that were appended since. -/
structure Reached (begun invocation : Invocation V) : Prop where
  log : invocation.log = begun.log.insertAll (Occurrence.records invocation.occurrences)
  medium : invocation.store.medium = begun.store.medium.appendAll begun.log.executionId
    (Occurrence.records invocation.occurrences)
  faults : invocation.store.faults = begun.store.faults

theorem Reached.extend {begun before after : Invocation V} {emitted : List (Occurrence V)}
    (reached : Reached begun before) (extension : Extends before after emitted) :
    Reached begun after := by
  have sameExecution : before.log.executionId = begun.log.executionId := by
    rw [reached.log, OperationLog.insertAll_executionId]
  constructor
  · rw [extension.log, reached.log, extension.occurrences, Occurrence.records_append,
      OperationLog.insertAll_append]
  · rw [extension.medium, reached.medium, sameExecution, extension.occurrences,
      Occurrence.records_append, Medium.appendAll_append]
  · rw [extension.faults, reached.faults]

theorem reached_preserved (condition : StepCall V → Prop) (begun : Invocation V) :
    Preserved condition (Reached begun) (Reached begun) where
  ended reached := reached
  quiet extension _ _ reached := reached.extend extension
  step _ _ _ called reached :=
    ⟨reached.extend called.extension, fun _ => reached.extend called.extension⟩
  wait _ _ called reached := reached.extend called.extension

end Invocation

namespace PassEnd

/-- The verdict on a pass that ends in this invocation. -/
def verdict (ending : PassEnd O) (executionId : String) (final : Invocation V) : Verdict O :=
  match ending with
  | .crashed => .crashed
  | .returned outcome =>
    match final.close.1.result executionId outcome with
    | .error error => .failed (.store error)
    | .ok result => .finished result

end PassEnd

theorem OperationLog.load_executionId {store after : Store} {executionId : String}
    {log : OperationLog} (loaded : load store executionId = (.ok log, after)) :
    log.executionId = executionId := by
  obtain ⟨history, _, rfl, _⟩ := load_ok loaded
  exact ofRecords_executionId _ _

theorem OperationLog.load_frame (store : Store) (executionId : String) :
    (OperationLog.load store executionId).2.medium = store.medium ∧
      (OperationLog.load store executionId).2.faults = store.faults := by
  simp only [OperationLog.load, Store.load, Store.history]
  split <;> exact ⟨rfl, rfl⟩

namespace Visit

/-- The invocation of a visit at the begin of its pass. -/
def begun (visit : Visit V O) (executionId : String) (log : OperationLog) (store : Store) :
    Invocation V :=
  (Execution.mk executionId visit.suppressReplayLogs).begin log store visit.clock

theorem begun_log (visit : Visit V O) (executionId : String) (log : OperationLog)
    (store : Store) : (visit.begun executionId log store).log = log :=
  rfl

theorem begun_store (visit : Visit V O) (executionId : String) (log : OperationLog)
    (store : Store) : (visit.begun executionId log store).store = store :=
  rfl

theorem begun_quiet (visit : Visit V O) (executionId : String) (log : OperationLog)
    (store : Store) : Occurrence.Quiet (visit.begun executionId log store).occurrences :=
  ⟨rfl, rfl⟩

theorem begun_reached (visit : Visit V O) (executionId : String) (log : OperationLog)
    (store : Store) :
    (visit.begun executionId log store).Reached (visit.begun executionId log store) := by
  have isQuiet := visit.begun_quiet executionId log store
  constructor <;> simp [isQuiet.records]

theorem reached_of_run {visit : Visit V O} {executionId : String} {log : OperationLog}
    {store : Store} {ending : PassEnd O} {final : Invocation V}
    (ran : visit.workflow.run (visit.begun executionId log store) = (ending, final)) :
    (visit.begun executionId log store).Reached final := by
  have reached := (Invocation.reached_preserved (fun _ => True) _).run
    visit.workflow.everyStep_true (visit.begun_reached executionId log store)
  rw [ran] at reached
  exact reached

theorem sorted_of_run {visit : Visit V O} {executionId : String} {log : OperationLog}
    {store after : Store} {ending : PassEnd O} {final : Invocation V}
    (loaded : OperationLog.load store executionId = (.ok log, after))
    (ran : visit.workflow.run (visit.begun executionId log after) = (ending, final)) :
    final.log.Sorted := by
  obtain ⟨history, _, rfl, _⟩ := OperationLog.load_ok loaded
  rw [(reached_of_run ran).log]
  exact (OperationLog.ofRecords_sorted _ _).insertAll _

private theorem diagnose?_quiet (invocation : Invocation V) (diagnostic : Option Diagnostic) :
    ∃ closing, Occurrence.Quiet closing ∧
      (invocation.diagnose? diagnostic).occurrences = invocation.occurrences ++ closing ∧
      (invocation.diagnose? diagnostic).store = invocation.store := by
  cases diagnostic with
  | none => exact ⟨[], ⟨rfl, rfl⟩, by simp [Invocation.diagnose?], rfl⟩
  | some diagnostic =>
      exact ⟨_, Invocation.emit_quiet invocation (.diagnosed diagnostic) rfl rfl,
        rfl, rfl⟩

private theorem finish_course (executionId : String) (outcome : Except DurableError O)
    (final : Invocation V) :
    ∃ closing, Occurrence.Quiet closing ∧
      (Execution.finish executionId outcome final).occurrences = final.occurrences ++ closing ∧
      (Execution.finish executionId outcome final).store = final.store ∧
      (Execution.finish executionId outcome final).verdict =
        (PassEnd.returned outcome).verdict executionId final := by
  let complained := final.close.2.diagnose? (final.close.1.complaint? outcome)
  obtain ⟨complaint, complaintQuiet, complaintOccurrences, complaintStore⟩ :
      ∃ complaint, Occurrence.Quiet complaint ∧
        complained.occurrences = final.occurrences ++ complaint ∧
        complained.store = final.store := diagnose?_quiet final.close.2 _
  cases decided : final.close.1.result executionId outcome with
  | error error =>
      refine ⟨complaint, complaintQuiet, ?_⟩
      simp only [Execution.finish, PassEnd.verdict, decided]
      exact ⟨complaintOccurrences, complaintStore, rfl⟩
  | ok result =>
      let finished := Diagnostic.invocationFinished result.status result.operations.length
        result.nextReadyAt
      refine ⟨complaint ++ [⟨complained.now, .diagnosed finished⟩], ⟨?_, ?_⟩, ?_⟩
      · simp [complaintQuiet.records, Effect.record?]
      · simp [complaintQuiet.bodies, Effect.isBody]
      · simp only [Execution.finish, PassEnd.verdict, decided]
        refine ⟨?_, complaintStore, rfl⟩
        rw [← List.append_assoc, ← complaintOccurrences]
        rfl

/-- A visit that has loaded its log runs its workflow, and closes the execution without
recording or running anything more. -/
theorem answer_of_loaded (visit : Visit V O) {executionId : String} {store after : Store}
    {log : OperationLog} (loaded : OperationLog.load store executionId = (.ok log, after)) :
    ∃ ending final closing,
      visit.workflow.run (visit.begun executionId log after) = (ending, final) ∧
      Occurrence.Quiet closing ∧
      (visit.answer executionId store).occurrences = final.occurrences ++ closing ∧
      (visit.answer executionId store).store = final.store ∧
      (visit.answer executionId store).verdict = ending.verdict executionId final := by
  cases ran : visit.workflow.run (visit.begun executionId log after) with
  | mk ending final =>
      have begunRan : visit.workflow.run ((Execution.mk executionId
          visit.suppressReplayLogs).begin log after visit.clock) = (ending, final) := ran
      cases ending with
      | crashed =>
          refine ⟨.crashed, final, [], rfl, ⟨rfl, rfl⟩, ?_⟩
          simp [answer, Execution.invoke, loaded, begunRan, Answer.leaving, PassEnd.verdict]
      | returned outcome =>
          have finished : visit.answer executionId store =
              Execution.finish executionId outcome final := by
            simp only [answer, Execution.invoke, loaded, begunRan]
          obtain ⟨closing, quiet, sameOccurrences, sameStore, sameVerdict⟩ :=
            finish_course executionId outcome final
          rw [finished]
          exact ⟨.returned outcome, final, closing, rfl, quiet, sameOccurrences, sameStore,
            sameVerdict⟩

/-- Either the log could not be loaded, and then nothing happened, or the workflow
made a pass over it, whose end decides the verdict. -/
theorem answer_cases (visit : Visit V O) (executionId : String) (store : Store) :
    (∃ error after, OperationLog.load store executionId = (.error error, after) ∧
        visit.answer executionId store = ⟨.failed (.store error), after, visit.clock, []⟩) ∨
      ∃ log after ending final closing,
        OperationLog.load store executionId = (.ok log, after) ∧
        visit.workflow.run (visit.begun executionId log after) = (ending, final) ∧
        Occurrence.Quiet closing ∧
        (visit.answer executionId store).occurrences = final.occurrences ++ closing ∧
        (visit.answer executionId store).store = final.store ∧
        (visit.answer executionId store).verdict = ending.verdict executionId final := by
  cases loaded : OperationLog.load store executionId with
  | mk loading after =>
      cases loading with
      | error error =>
          exact .inl ⟨error, after, rfl, by simp only [answer, Execution.invoke, loaded]⟩
      | ok log =>
          obtain ⟨ending, final, closing, passed⟩ := visit.answer_of_loaded loaded
          exact .inr ⟨log, after, ending, final, closing, rfl, passed⟩

/-- What holds of the occurrences of a visit and of the medium that it leaves: it holds
when the log cannot be loaded, and it follows from what is kept throughout the pass. -/
theorem answer_induction {visit : Visit V O} {executionId : String} {store : Store}
    {condition : StepCall V → Prop} {motive : List (Occurrence V) → Medium → Prop}
    (each : visit.workflow.EveryStep condition) (unloaded : motive [] store.medium)
    (passed : ∀ log after, OperationLog.load store executionId = (.ok log, after) →
      ∃ property final, Invocation.Preserved condition property final ∧
        property (visit.begun executionId log after) ∧
        ∀ ended closing, final ended → Occurrence.Quiet closing →
          ended.log = log.insertAll (Occurrence.records ended.occurrences) →
          ended.store.medium =
            store.medium.appendAll executionId (Occurrence.records ended.occurrences) →
          motive (ended.occurrences ++ closing) ended.store.medium) :
    motive (visit.answer executionId store).occurrences
      (visit.answer executionId store).store.medium := by
  have frame := OperationLog.load_frame store executionId
  rcases visit.answer_cases executionId store with
    ⟨error, after, failed, answered⟩ |
      ⟨log, after, ending, final, closing, loaded, ran, closingQuiet, occurrences, kept, _⟩
  · rw [failed] at frame
    rw [answered, frame.1]
    exact unloaded
  · rw [loaded] at frame
    obtain ⟨property, lasting, preserved, begun, concludes⟩ := passed log after loaded
    have ended := ((Invocation.reached_preserved condition _).and preserved).run each
      ⟨visit.begun_reached executionId log after, begun⟩
    rw [ran] at ended
    obtain ⟨reached, lasts⟩ := ended
    rw [occurrences, kept]
    apply concludes final closing lasts closingQuiet reached.log
    rw [reached.medium, begun_store, frame.1, begun_log, OperationLog.load_executionId loaded]

theorem answer_medium (visit : Visit V O) (executionId : String) (store : Store) :
    (visit.answer executionId store).store.medium =
      store.medium.appendAll executionId
        (Occurrence.records (visit.answer executionId store).occurrences) := by
  refine answer_induction (motive := fun emitted medium =>
    medium = store.medium.appendAll executionId (Occurrence.records emitted))
    visit.workflow.everyStep_true rfl ?_
  intro log after loaded
  refine ⟨_, _, Invocation.reached_preserved _ (visit.begun executionId log after),
    visit.begun_reached executionId log after, ?_⟩
  intro ended closing _ closingQuiet _ sameMedium
  rw [sameMedium, closingQuiet.records_append]

theorem answer_faults (visit : Visit V O) (executionId : String) (store : Store) :
    (visit.answer executionId store).store.faults = store.faults := by
  have frame := OperationLog.load_frame store executionId
  rcases visit.answer_cases executionId store with
    ⟨error, after, failed, answered⟩ |
      ⟨log, after, ending, final, closing, loaded, ran, _, _, kept, _⟩
  · rw [failed] at frame
    rw [answered]
    exact frame.2
  · rw [loaded] at frame
    rw [kept, (reached_of_run ran).faults, begun_store]
    exact frame.2

theorem appended (visit : Visit V O) {executionId : String} {initial : Medium} {store : Store}
    {trace : List (Occurrence V)}
    (before : store.medium = initial.appendAll executionId (Occurrence.records trace)) :
    (visit.answer executionId store).store.medium =
      initial.appendAll executionId
        (Occurrence.records (trace ++ (visit.answer executionId store).occurrences)) := by
  rw [answer_medium, before, ← Medium.appendAll_append, Occurrence.records_append]

end Visit

namespace Session

theorem storeAfter_append (executionId : String) (store : Store)
    (earlier later : List (Visit V O)) :
    storeAfter executionId store (earlier ++ later) =
      storeAfter executionId (storeAfter executionId store earlier) later := by
  induction earlier generalizing store with
  | nil => rfl
  | cons visit earlier induction => exact induction _

theorem occurrences_append (executionId : String) (store : Store)
    (earlier later : List (Visit V O)) :
    occurrences executionId store (earlier ++ later) =
      occurrences executionId store earlier ++
        occurrences executionId (storeAfter executionId store earlier) later := by
  induction earlier generalizing store with
  | nil => rfl
  | cons visit earlier induction =>
      simp only [List.cons_append, occurrences, answers, List.flatMap_cons, storeAfter,
        List.append_assoc] at induction ⊢
      rw [induction]

theorem occurrences_singleton (executionId : String) (store : Store) (visit : Visit V O) :
    occurrences executionId store [visit] = (visit.answer executionId store).occurrences := by
  simp [occurrences, answers]

theorem storeAfter_faults (executionId : String) (store : Store) (visits : List (Visit V O)) :
    (storeAfter executionId store visits).faults = store.faults := by
  induction visits generalizing store with
  | nil => rfl
  | cons visit rest induction => exact (induction _).trans (visit.answer_faults executionId store)

theorem mem_answers {executionId : String} {store : Store} {visits : List (Visit V O)}
    {answer : Answer V O} (member : answer ∈ answers executionId store visits) :
    ∃ earlier visit later, visits = earlier ++ visit :: later ∧
      answer = visit.answer executionId (storeAfter executionId store earlier) := by
  induction visits generalizing store with
  | nil => simp [answers] at member
  | cons visit rest induction =>
      simp only [answers, List.mem_cons] at member
      rcases member with here | below
      · exact ⟨[], visit, rest, rfl, here⟩
      · obtain ⟨earlier, visited, later, rfl, same⟩ := induction below
        exact ⟨visit :: earlier, visited, later, rfl, same⟩

/-- What every visit keeps, of the occurrences so far and the store, holds after a
session. -/
theorem preserved {executionId : String} {visits : List (Visit V O)}
    (property : List (Occurrence V) → Store → Prop)
    (visitKeeps : ∀ visit ∈ visits, ∀ trace store, property trace store →
      property (trace ++ (visit.answer executionId store).occurrences)
        (visit.answer executionId store).store)
    {trace : List (Occurrence V)} {store : Store} (holds : property trace store) :
    property (trace ++ occurrences executionId store visits)
      (storeAfter executionId store visits) := by
  induction visits generalizing trace store with
  | nil => simpa [occurrences, answers, storeAfter] using holds
  | cons visit rest induction =>
      have kept := visitKeeps visit List.mem_cons_self trace store holds
      have rest := induction
        (fun later member => visitKeeps later (List.mem_cons_of_mem _ member)) kept
      simpa [occurrences, answers, storeAfter] using rest

end Session

end Durable
