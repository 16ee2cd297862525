import Durable.Proofs.FixedPoint
import Durable.Proofs.NarratedPass
import Durable.Proofs.Transparency

/-!
# Every call site logs once

A log call that is dropped during a replay was forwarded by the invocation that made the
records.  Over all invocations of a deterministic workflow, up to the one that ends it, the
log calls that were forwarded are therefore those of one walk along its narrative.
-/

namespace Durable

variable {V O : Type}

open Occurrence

theorem Invocation.diagnose?_entries (invocation : Invocation V)
    (diagnostic : Option Diagnostic) :
    logEntries (invocation.diagnose? diagnostic).occurrences =
      logEntries invocation.occurrences := by
  cases diagnostic <;> simp [diagnose?, diagnose, emit, Effect.logEntry?]

theorem Execution.finish_entries (executionId : String) (outcome : Except DurableError O)
    (final : Invocation V) :
    logEntries (finish executionId outcome final).occurrences = logEntries final.occurrences := by
  have closed : logEntries (final.close.2.diagnose?
      (final.close.1.complaint? outcome)).occurrences = logEntries final.occurrences :=
    Invocation.diagnose?_entries _ _
  unfold finish
  cases decided : final.close.1.result executionId outcome with
  | error error => simpa [decided, Answer.leaving] using closed
  | ok result =>
      simpa [decided, Answer.leaving, Invocation.diagnose, Invocation.emit, Effect.logEntry?]
        using closed

namespace Visit

variable {visit : Visit V O} {executionId : String}

theorem answer_entries {store after : Store} {log : OperationLog}
    (loaded : OperationLog.load store executionId = (.ok log, after)) {ending : PassEnd O}
    {final : Invocation V}
    (ran : visit.workflow.run (visit.begun executionId log after) = (ending, final)) :
    logEntries (visit.answer executionId store).occurrences = logEntries final.occurrences := by
  have begunRan : visit.workflow.run ((Execution.mk executionId
      visit.suppressReplayLogs).begin log after visit.clock) = (ending, final) := ran
  cases ending with
  | crashed => simp [answer, Execution.invoke, loaded, begunRan, Answer.leaving]
  | returned outcome =>
      have finished : visit.answer executionId store =
          Execution.finish executionId outcome final := by
        simp only [answer, Execution.invoke, loaded, begunRan]
      rw [finished]
      exact Execution.finish_entries executionId outcome final

theorem begun_attuned (suppresses : visit.suppressReplayLogs = true) (log : OperationLog)
    (store : Store) : (visit.begun executionId log store).Attuned :=
  ⟨rfl, suppresses, rfl, rfl⟩

theorem begun_entries (log : OperationLog) (store : Store) :
    logEntries (visit.begun executionId log store).occurrences = [] :=
  rfl

end Visit

theorem PassEnd.unfinished_of_suspended {ending : PassEnd O} {final : Invocation V}
    {executionId : String} {wake : Instant} (halted : final.halt = some (.suspended wake))
    {result : ExecutionResult O} (finished : ending.verdict executionId final = .finished result) :
    result.isTerminal = false := by
  rw [← Bool.not_eq_true]
  intro terminal
  obtain ⟨_, _, lasts⟩ := lasts_of_terminal finished terminal
  obtain ⟨error, isFatal⟩ := lasts _ halted
  cases isFatal

theorem ExecutionResult.concluded_isTerminal (executionId : String) (log : OperationLog)
    (ending : Except DurableError O) :
    (concluded executionId log ending).isTerminal = true := by
  cases ending <;> rfl

/-- A session that has come some way along a narrative, and has forwarded what its records are
evidence of. -/
structure NarratedSession (executionId : String) (initial : Medium) (narrative : Narrative V O)
    (trace : List (Occurrence V)) (store : Store) : Prop
    extends TrailingSession executionId initial narrative.plan trace store where
  reliable : store.faults = .none
  recited : ∀ operations : List Operation, (∀ ordinal,
      (History.latest? (records trace) ordinal).map Operation.timeless = operations[ordinal]?) →
    narrative.Recited executionId 0 operations (logEntries trace)

namespace NarratedSession

variable {executionId : String} {initial : Medium} {narrative : Narrative V O}
  {trace : List (Occurrence V)} {store : Store}

theorem reciting (session : NarratedSession executionId initial narrative trace store)
    (empty : initial.history executionId = .ok []) (lossless : narrative.plan.Lossless initial)
    {visit : Visit V O} (suppresses : visit.suppressReplayLogs = true) {log : OperationLog}
    {after : Store} (loaded : OperationLog.load store executionId = (.ok log, after)) :
    ∃ operations, (∀ ordinal, (History.latest? (records trace) ordinal).map Operation.timeless =
        operations[ordinal]?) ∧
      narrative.Reciting executionId (logEntries trace) narrative [] operations []
        (visit.begun executionId log after) := by
  obtain ⟨operations, latest, aligned⟩ := session.aligned empty lossless loaded visit
  refine ⟨operations, latest, aligned, Visit.begun_attuned suppresses log after,
    OperationLog.load_executionId loaded, ⟨_, session.recited operations latest, ?_⟩, ?_, ?_⟩
  · rw [Visit.begun_entries, List.append_nil, List.nil_append]
  · exact fun _ _ _ => id
  · exact fun _ => id

/-- A visit ends the execution and completes the reference log, or the session goes on. -/
theorem visit {visit : Visit V O}
    (session : NarratedSession executionId initial narrative trace store)
    (empty : initial.history executionId = .ok []) (lossless : narrative.plan.Lossless initial)
    (discreet : narrative.Discreet) (narrates : visit.workflow.Narrates narrative)
    (suppresses : visit.suppressReplayLogs = true) :
    let answer := visit.answer executionId store
    (∃ result, answer.verdict = .finished result ∧ result.isTerminal = true ∧
        narrative.Tells executionId [] (logEntries (trace ++ answer.occurrences))) ∨
      ((∀ result, answer.verdict = .finished result → result.isTerminal = false) ∧
        NarratedSession executionId initial narrative (trace ++ answer.occurrences)
          answer.store) := by
  intro answer
  have trailing := (session.toTrailingSession.visit empty lossless narrates.follows
    (.inl ⟨session.reliable, id⟩)).2
  have reliable := (visit.answer_faults executionId store).trans session.reliable
  have frame := OperationLog.load_frame store executionId
  rcases visit.answer_cases executionId store with
    ⟨error, after, failed, answered⟩ |
      ⟨log, after, ending, final, closing, loaded, ran, closingQuiet, occurrences, kept,
        verdict⟩
  · have silent : answer.occurrences = [] := by simp only [answer, answered]
    refine .inr ⟨?_, trailing, reliable, ?_⟩
    · intro result finished
      simp only [answer, answered] at finished
      cases finished
    · rw [silent, List.append_nil]
      exact session.recited
  · rw [loaded] at frame
    obtain ⟨operations, latest, reciting⟩ := session.reciting empty lossless suppresses loaded
    have passed := reciting.run narrates discreet lossless
      (by rw [Visit.begun_store, frame.2]; exact session.reliable)
    have entries : logEntries (trace ++ answer.occurrences) =
        logEntries trace ++ logEntries final.occurrences := by
      rw [logEntries_append, Visit.answer_entries loaded ran]
    rw [ran] at passed
    rw [entries]
    cases passed with
    | told outcome lasts tells =>
        exact .inl ⟨_, verdict.trans (PassEnd.verdict_concluded lasts executionId outcome),
          ExecutionResult.concluded_isTerminal _ _ _, tells⟩
    | @interrupted outcome wake interrupted =>
        refine .inr ⟨?_, trailing, reliable, ?_⟩
        · intro result finished
          exact PassEnd.unfinished_of_suspended interrupted.halted (verdict.symm.trans finished)
        · -- The operations that the trace has written are those that the log ends with.
          intro finalOperations written
          obtain ⟨reached, views, recited⟩ := interrupted.recited
          have viewsWritten : final.log.Views finalOperations := by
            intro ordinal
            rw [← written, occurrences]
            exact ((Visit.reached_of_run ran).latest closingQuiet (fun ordinal =>
              (latest ordinal).trans (reciting.aligned.views ordinal).symm) ordinal).symm
          rw [entries, views.unique viewsWritten]
          exact recited

theorem visits {visits : List (Visit V O)}
    (session : NarratedSession executionId initial narrative trace store)
    (empty : initial.history executionId = .ok []) (lossless : narrative.plan.Lossless initial)
    (discreet : narrative.Discreet)
    (narrate : ∀ visit ∈ visits, visit.workflow.Narrates narrative)
    (suppress : ∀ visit ∈ visits, visit.suppressReplayLogs = true)
    (ongoing : ∀ answer ∈ Session.answers executionId store visits, ∀ result,
      answer.verdict = .finished result → result.isTerminal = false) :
    NarratedSession executionId initial narrative
      (trace ++ Session.occurrences executionId store visits)
      (Session.storeAfter executionId store visits) := by
  induction visits generalizing trace store with
  | nil => simpa [Session.occurrences, Session.answers, Session.storeAfter] using session
  | cons visit rest induction =>
      rcases session.visit empty lossless discreet (narrate visit List.mem_cons_self)
          (suppress visit List.mem_cons_self) with ⟨result, finished, terminal, _⟩ | ⟨_, onward⟩
      · have unfinished := ongoing _ List.mem_cons_self result finished
        rw [terminal] at unfinished
        cases unfinished
      · have reached := induction onward
          (fun later member => narrate later (List.mem_cons_of_mem _ member))
          (fun later member => suppress later (List.mem_cons_of_mem _ member))
          (fun answer member => ongoing answer (List.mem_cons_of_mem _ member))
        simpa [Session.occurrences, Session.answers, Session.storeAfter] using reached

end NarratedSession

/-- Every call site logs once.  Let a deterministic workflow that is silent after a suspension
be invoked again and again, with suppression, beginning over a store that held nothing of the
execution and that has no faults.  What all invocations up to the first terminal one have
forwarded is the reference log of the narrative, call by call and in its order, which is told
along its reference evaluation. -/
theorem call_sites_log_once {narrative : Narrative V O} {executionId : String} {store : Store}
    {visits : List (Visit V O)} {visit : Visit V O} {result : ExecutionResult O}
    (empty : store.medium.history executionId = .ok []) (reliable : store.faults = .none)
    (lossless : narrative.plan.Lossless store.medium) (discreet : narrative.Discreet)
    (narrate : ∀ visited ∈ visits ++ [visit], visited.workflow.Narrates narrative)
    (suppress : ∀ visited ∈ visits ++ [visit], visited.suppressReplayLogs = true)
    (ongoing : ∀ answer ∈ Session.answers executionId store visits, ∀ result,
      answer.verdict = .finished result → result.isTerminal = false)
    (finished : (visit.answer executionId
      (Session.storeAfter executionId store visits)).verdict = .finished result)
    (terminal : result.isTerminal = true) :
    let log := logEntries (Session.occurrences executionId store (visits ++ [visit]))
    narrative.Tells executionId [] log ∧
      (∀ again, narrative.Tells executionId [] again → again = log) ∧
      ∃ evaluation, narrative.plan.Evaluates evaluation := by
  intro log
  have begins : NarratedSession executionId store.medium narrative ([] : List (Occurrence V))
      store := by
    refine ⟨⟨rfl, [], .start _ _, fun _ => rfl⟩, reliable, ?_⟩
    intro operations written
    cases operations with
    | nil => exact .silent narrative 0
    | cons operation rest => cases written 0
  have before := begins.visits empty lossless discreet
    (fun visited member => narrate visited (List.mem_append_left _ member))
    (fun visited member => suppress visited (List.mem_append_left _ member)) ongoing
  have tells : narrative.Tells executionId [] log := by
    rcases before.visit empty lossless discreet (narrate visit (by simp))
        (suppress visit (by simp)) with ⟨_, _, _, tells⟩ | ⟨unfinished, _⟩
    · rw [List.nil_append, ← Session.occurrences_singleton, ← Session.occurrences_append] at tells
      exact tells
    · have goesOn := unfinished result finished
      rw [terminal] at goesOn
      cases goesOn
  exact ⟨tells, fun again tellsAgain => tells.unique tellsAgain,
    Narrative.tells_iff_walks.mp ⟨log, tells⟩⟩

/-- A log call before the step, one in every attempt and one after it. -/
def Narrative.ofTwoAttempts : Narrative Unit Unit :=
  .log .info "begin" (.step ⟨.ofTwoAttempts, fun _ => [(.debug, "working")]⟩ fun
    | .ok _ => .log .info "end" (.done (.ok ()))
    | .error error => .done (.error error))

/-- A visit, so many seconds after the first one, with a workflow of the narrative. -/
def Visit.ofLoggedAttempts (seconds : Nat) : Visit Unit Unit where
  clock := ⟨(default : Instant).add (.ofSeconds seconds)⟩
  suppressReplayLogs := true
  workflow :=
    .log .info "begin" (.step "x"
      ⟨fun attempt _ => if attempt = 1 then some (.ofSeconds 1) else none, .atLeastOnce⟩
      ⟨fun _ => .ok .null, fun _ => .ok ()⟩
      (fun context => ⟨[.log .debug "working"],
        if context.attempt = 1 then .failure default else .value ()⟩)
      fun
        | .ok _ => .log .info "end" (.done (.ok ()))
        | .error error => .done (.error error))

theorem Visit.ofLoggedAttempts_narrates (seconds : Nat) :
    (Visit.ofLoggedAttempts seconds).workflow.Narrates .ofTwoAttempts := by
  refine .log (.step ⟨rfl, rfl, ?_, ?_⟩ (fun _ _ => rfl) ?_)
  · intro attempt error
    by_cases first : attempt = 1 <;> simp [Task.ofTwoAttempts, first]
  · intro context name
    by_cases first : context.attempt = 1 <;> simp [Task.ofTwoAttempts, first]
  · intro outcome
    cases outcome with
    | ok value => exact .log (.done _)
    | error error => exact .done _

theorem two_attempts_log_once :
    let log := logEntries (Session.occurrences "run" .empty
      [.ofLoggedAttempts 0, .ofLoggedAttempts 1])
    Narrative.ofTwoAttempts.Tells "run" [] log ∧
      log = [⟨.info, "begin", "run", none⟩,
        ⟨.debug, "working", "run", some ⟨operationId 0, "x", 1⟩⟩,
        ⟨.debug, "working", "run", some ⟨operationId 0, "x", 2⟩⟩,
        ⟨.info, "end", "run", none⟩] := by
  intro log
  have lossless : Narrative.ofTwoAttempts.plan.Lossless Store.empty.medium := by
    refine ⟨fun value payload encoded => ⟨rfl, rfl⟩, ?_⟩
    intro outcome
    cases outcome <;> trivial
  have discreet : Narrative.ofTwoAttempts.Discreet := by
    refine ⟨fun _ => rfl, ?_⟩
    intro outcome goesOn
    cases outcome <;> trivial
  have visited : ∀ visit ∈ [Visit.ofLoggedAttempts 0] ++ [.ofLoggedAttempts 1],
      ∃ seconds, visit = .ofLoggedAttempts seconds := by
    simp
  have ongoing : ∀ answer ∈ Session.answers "run" .empty [Visit.ofLoggedAttempts 0], ∀ result,
      answer.verdict = .finished result → result.isTerminal = false := by
    intro answer member result finished
    obtain rfl := List.mem_singleton.mp member
    cases finished
    rfl
  refine ⟨(call_sites_log_once rfl rfl lossless discreet ?_ ?_ ongoing rfl rfl).1, rfl⟩
  · intro visit member
    obtain ⟨seconds, rfl⟩ := visited visit member
    exact Visit.ofLoggedAttempts_narrates seconds
  · intro visit member
    obtain ⟨seconds, rfl⟩ := visited visit member
    rfl

end Durable
