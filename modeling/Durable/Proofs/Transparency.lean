import Durable.Proofs.Durability
import Durable.Proofs.PlanReplay

/-!
# Suspension transparency

However a deterministic workflow is chopped into invocations, by suspensions, by faults
of the store or by crashes, its terminal result is the one of the reference evaluation,
which walks the plan of the workflow once, without a log and without a clock.
-/

namespace Durable

variable {V O : Type}

open Occurrence

namespace OperationLog

theorem Views.operations {log : OperationLog} {operations : List Operation}
    (views : log.Views operations) (sorted : log.Sorted) :
    log.operations.map Operation.timeless = operations :=
  operations_map sorted views

end OperationLog

namespace Plan

theorem Trails.kept {plan : Plan V O} {medium : Medium} {done rest : List Operation}
    (trails : plan.Trails done rest) (lossless : plan.Lossless medium) :
    ∀ operation ∈ rest, ∀ value, operation.result = some value → medium.Keeps value := by
  induction trails with
  | start => simp
  | @step task next operations rest update outcome fresh ends trails induction =>
      intro operation member value result
      rcases List.mem_cons.mp member with rfl | later
      · cases ends.closure with
        | succeeded attempt returned payload encoded =>
            obtain rfl : payload = value := Option.some.inj result
            exact (lossless.1 returned payload encoded).1
        | failed attempt error => cases result
      · exact induction (lossless.2 outcome) operation later value result
  | retrying fresh retried =>
      intro operation member value result
      rw [List.mem_singleton.mp member] at result
      cases result
  | wait fresh trails induction =>
      intro operation member value result
      rcases List.mem_cons.mp member with rfl | later
      · cases result
        exact medium.keeps_null
      · exact induction (lossless _) operation later value result
  | waiting fresh =>
      intro operation member value result
      rw [List.mem_singleton.mp member] at result
      cases result

/-- How the verdict on a pass stands to the reference evaluation. -/
inductive Judges (plan : Plan V O) (mayDie : Prop) : Verdict O → Prop where
  | failed (error : StoreError) : Judges plan mayDie (.failed (.store error))
  | crashed (dies : mayDie) : Judges plan mayDie .crashed
  | pending (result : ExecutionResult O) (pending : result.status = .pending) :
      Judges plan mayDie (.finished result)
  | terminal (result : ExecutionResult O) (terminal : result.isTerminal = true)
      (evaluates : plan.Evaluates result.evaluation) : Judges plan mayDie (.finished result)

theorem Judges.evaluates {plan : Plan V O} {mayDie : Prop} {result : ExecutionResult O}
    (judges : plan.Judges mayDie (.finished result)) (terminal : result.isTerminal = true) :
    plan.Evaluates result.evaluation := by
  cases judges with
  | pending _ pending =>
      simp [ExecutionResult.isTerminal, pending, ExecutionStatus.isTerminal] at terminal
  | terminal _ _ evaluates => exact evaluates

theorem PassFollowed.judges {plan : Plan V O} {mayDie : Prop} {final : Invocation V}
    {ending : PassEnd O} (followed : plan.PassFollowed mayDie final ending)
    (sorted : final.log.Sorted) (executionId : String) :
    plan.Judges mayDie (ending.verdict executionId final) := by
  cases followed with
  | crashed dies views trails => exact .crashed dies
  | @finished outcome operations free views trails evaluates =>
      have same := views.operations sorted
      cases outcome with
      | ok output =>
          simp only [PassEnd.verdict, Invocation.close, Snapshot.result, free]
          apply Judges.terminal _ rfl
          simpa only [ExecutionResult.evaluation, ExecutionResult.ofStatus, same,
            Evaluation.ofOutcome] using evaluates
      | error error =>
          simp only [PassEnd.verdict, Invocation.close, Snapshot.result, free]
          apply Judges.terminal _ rfl
          simpa only [ExecutionResult.evaluation, ExecutionResult.ofStatus, same,
            Evaluation.ofOutcome] using evaluates
  | stopped outcome stopped =>
      obtain ⟨halt, operations, halted, views, trails, halts⟩ := stopped
      have same := views.operations sorted
      simp only [PassEnd.verdict, Invocation.close, halted]
      cases halts with
      | suspended wake => exact .pending _ rfl
      | store error => exact .failed error
      | fatal error evaluates =>
          apply Judges.terminal _ rfl
          simpa only [ExecutionResult.evaluation, ExecutionResult.ofStatus, same,
            Evaluation.ofOutcome] using evaluates

theorem PassFollowed.views {plan : Plan V O} {mayDie : Prop} {final : Invocation V}
    {ending : PassEnd O} (followed : plan.PassFollowed mayDie final ending) :
    ∃ operations, final.log.Views operations ∧ plan.Trails [] operations := by
  cases followed with
  | finished free views trails evaluates => exact ⟨_, views, trails⟩
  | stopped outcome stopped =>
      obtain ⟨halt, operations, halted, views, trails, halts⟩ := stopped
      exact ⟨operations, views, trails⟩
  | crashed dies views trails => exact ⟨_, views, trails⟩

end Plan

/-- When the log that a pass begins with is what was written before, the log that it ends with
is what has been written then. -/
theorem Invocation.Reached.latest {begun final : Invocation V} (reached : begun.Reached final)
    {trace closing : List (Occurrence V)} (closingQuiet : Quiet closing)
    (written : ∀ ordinal, (History.latest? (records trace) ordinal).map Operation.timeless =
      (begun.log.lookup? ordinal).map Operation.timeless) (ordinal : Nat) :
    (History.latest? (records (trace ++ (final.occurrences ++ closing))) ordinal).map
        Operation.timeless =
      (final.log.lookup? ordinal).map Operation.timeless := by
  rw [← List.append_assoc, closingQuiet.records_append, records_append, History.latest?_append,
    reached.log, OperationLog.lookup?_insertAll]
  cases History.latest? (records final.occurrences) ordinal with
  | some operation => rfl
  | none =>
      rw [Option.none_or, Option.none_or]
      exact written ordinal

/-- A session that has come some way along a plan. -/
structure TrailingSession (executionId : String) (initial : Medium) (plan : Plan V O)
    (trace : List (Occurrence V)) (store : Store) : Prop where
  appended : store.medium = initial.appendAll executionId (records trace)
  trails : ∃ operations, plan.Trails [] operations ∧ ∀ ordinal,
    (History.latest? (records trace) ordinal).map Operation.timeless = operations[ordinal]?

namespace TrailingSession

variable {executionId : String} {initial : Medium} {plan : Plan V O}
  {trace : List (Occurrence V)} {store : Store}

theorem aligned (session : TrailingSession executionId initial plan trace store)
    (empty : initial.history executionId = .ok []) (lossless : plan.Lossless initial)
    {log : OperationLog} {after : Store}
    (loaded : OperationLog.load store executionId = (.ok log, after)) (visit : Visit V O) :
    ∃ operations, (∀ ordinal, (History.latest? (records trace) ordinal).map Operation.timeless =
        operations[ordinal]?) ∧
      plan.Aligned plan [] operations (visit.begun executionId log after) := by
  obtain ⟨operations, trails, latest⟩ := session.trails
  have views : log.Views operations := by
    intro ordinal
    have related := OperationLog.load_related empty session.appended loaded ordinal
    rw [← latest ordinal]
    have here := latest ordinal
    generalize History.latest? (records trace) ordinal = written? at related here ⊢
    generalize log.lookup? ordinal = read? at related ⊢
    cases related with
    | none => rfl
    | @some written read given =>
        have member : written.timeless ∈ operations :=
          List.mem_of_getElem? here.symm
        have kept := trails.kept lossless written.timeless member
        rw [Option.map_some, Option.map_some, given.timeless kept]
  exact ⟨operations, latest, rfl, views, trails, rfl, fun _ => rfl, fun _ => id, fun _ => id⟩

theorem visit {mayDie : Prop} {visit : Visit V O}
    (session : TrailingSession executionId initial plan trace store)
    (empty : initial.history executionId = .ok []) (lossless : plan.Lossless initial)
    (follows : visit.workflow.Follows mayDie plan)
    (careful : visit.workflow.Careful store.faults mayDie) :
    plan.Judges mayDie (visit.answer executionId store).verdict ∧
      TrailingSession executionId initial plan
        (trace ++ (visit.answer executionId store).occurrences)
        (visit.answer executionId store).store := by
  have appended := visit.appended session.appended
  have frame := OperationLog.load_frame store executionId
  rcases visit.answer_cases executionId store with
    ⟨error, after, failed, answered⟩ |
      ⟨log, after, ending, final, closing, loaded, ran, closingQuiet, occurrences, kept,
        verdict⟩
  · refine ⟨?_, appended, ?_⟩
    · rw [answered]
      exact .failed error
    · rw [answered, List.append_nil]
      exact session.trails
  · rw [loaded] at frame
    obtain ⟨operations, latest, aligned⟩ := session.aligned empty lossless loaded visit
    have reached := Visit.reached_of_run ran
    have followed := follows.run lossless aligned (by
      rw [Visit.begun_store, frame.2]
      exact careful)
    rw [ran] at followed
    refine ⟨?_, appended, ?_⟩
    · rw [verdict]
      exact followed.judges (Visit.sorted_of_run loaded ran) executionId
    · obtain ⟨finalOperations, views, trails⟩ := followed.views
      refine ⟨finalOperations, trails, fun ordinal => ?_⟩
      rw [occurrences, ← views ordinal]
      apply reached.latest closingQuiet
      intro ordinal
      rw [latest]
      exact (aligned.views ordinal).symm

theorem after {mayDie : Prop} {visits : List (Visit V O)}
    (empty : store.medium.history executionId = .ok [])
    (lossless : plan.Lossless store.medium)
    (follows : ∀ visit ∈ visits, visit.workflow.Follows mayDie plan)
    (careful : ∀ visit ∈ visits, visit.workflow.Careful store.faults mayDie) :
    TrailingSession executionId store.medium plan
      (Session.occurrences executionId store visits)
      (Session.storeAfter executionId store visits) := by
  have initially : store.faults = store.faults ∧
      TrailingSession executionId store.medium plan ([] : List (Occurrence V)) store :=
    ⟨rfl, rfl, [], .start plan [], fun _ => rfl⟩
  have visited := Session.preserved
    (fun trace found => found.faults = store.faults ∧
      TrailingSession executionId store.medium plan trace found)
    (fun (visit : Visit V O) (member : visit ∈ visits) trace found kept => by
      have carefully : visit.workflow.Careful found.faults mayDie := by
        rw [kept.1]
        exact careful visit member
      exact ⟨(visit.answer_faults executionId found).trans kept.1,
        (kept.2.visit empty lossless (follows visit member) carefully).2⟩) initially
  rw [List.nil_append] at visited
  exact visited.2

theorem judges {mayDie : Prop} {visits : List (Visit V O)}
    (empty : store.medium.history executionId = .ok [])
    (lossless : plan.Lossless store.medium)
    (follows : ∀ visit ∈ visits, visit.workflow.Follows mayDie plan)
    (careful : ∀ visit ∈ visits, visit.workflow.Careful store.faults mayDie) :
    ∀ answer ∈ Session.answers executionId store visits,
      plan.Judges mayDie answer.verdict := by
  intro answer member
  obtain ⟨earlier, visit, later, rfl, rfl⟩ := Session.mem_answers member
  have here : visit ∈ earlier ++ visit :: later := by simp
  have before : ∀ visited ∈ earlier, visited ∈ earlier ++ visit :: later :=
    fun _ => List.mem_append_left _
  have session := after empty lossless
    (fun visited inside => follows visited (before visited inside))
    fun visited inside => careful visited (before visited inside)
  have carefully : visit.workflow.Careful
      (Session.storeAfter executionId store earlier).faults mayDie := by
    rw [Session.storeAfter_faults]
    exact careful visit here
  exact (session.visit empty lossless (follows visit here) carefully).1

end TrailingSession

/-- Suspension transparency.  When a deterministic workflow is invoked again and again,
beginning over a store that held nothing of the execution and that has no faults, every
terminal result is the one reference evaluation of its plan. -/
theorem terminal_result_is_reference_evaluation {plan : Plan V O} {executionId : String}
    {store : Store} {visits : List (Visit V O)}
    (empty : store.medium.history executionId = .ok []) (reliable : store.faults = .none)
    (lossless : plan.Lossless store.medium)
    (follows : ∀ visit ∈ visits, visit.workflow.Follows False plan) :
    ∀ answer ∈ Session.answers executionId store visits, ∀ result,
      answer.verdict = .finished result → result.isTerminal = true →
        plan.Evaluates result.evaluation ∧
          ∀ evaluation, plan.Evaluates evaluation → evaluation = result.evaluation := by
  intro answer member result finished terminal
  have judges := TrailingSession.judges empty lossless follows
    (fun _ _ => .inl ⟨reliable, id⟩) answer member
  rw [finished] at judges
  have evaluates := judges.evaluates terminal
  exact ⟨evaluates, fun evaluation again => evaluates.unique again⟩

/-- The first attempt fails and is granted another one, which succeeds. -/
def Task.ofTwoAttempts : Task Unit where
  name := "x"
  codec := ⟨fun _ => .ok .null, fun _ => .ok ()⟩
  body attempt := if attempt = 1 then .error default else .ok ()
  retries attempt _ := decide (attempt = 1)

def Plan.ofTwoAttempts : Plan Unit Unit :=
  .step .ofTwoAttempts .done

/-- A visit, so many seconds after the first one, with a workflow of the step. -/
def Visit.ofTwoAttempts (seconds : Nat) : Visit Unit Unit where
  clock := ⟨(default : Instant).add (.ofSeconds seconds)⟩
  suppressReplayLogs := false
  workflow :=
    .step "x" ⟨fun attempt _ => if attempt = 1 then some (.ofSeconds 1) else none, .atLeastOnce⟩
      ⟨fun _ => .ok .null, fun _ => .ok ()⟩
      (fun context => ⟨[], if context.attempt = 1 then .failure default else .value ()⟩)
      .done

theorem Visit.ofTwoAttempts_follows (mayDie : Prop) (seconds : Nat) :
    (Visit.ofTwoAttempts seconds).workflow.Follows mayDie Plan.ofTwoAttempts := by
  refine .step ⟨rfl, rfl, ?_, ?_⟩ fun update outcome ends => .done outcome
  · intro attempt error
    by_cases first : attempt = 1 <;> simp [Task.ofTwoAttempts, first]
  · intro context name
    by_cases first : context.attempt = 1 <;> simp [Task.ofTwoAttempts, first]

theorem two_attempts_are_transparent :
    (∃ answer ∈ Session.answers "run" .empty [.ofTwoAttempts 0, .ofTwoAttempts 1],
        ∃ result, answer.verdict = .finished result ∧ result.status = .succeeded) ∧
      ∀ answer ∈ Session.answers "run" .empty [.ofTwoAttempts 0, .ofTwoAttempts 1],
        ∀ result, answer.verdict = .finished result → result.isTerminal = true →
          Plan.ofTwoAttempts.Evaluates result.evaluation := by
  have lossless : Plan.ofTwoAttempts.Lossless Store.empty.medium :=
    ⟨fun value payload encoded => ⟨rfl, rfl⟩, fun outcome => trivial⟩
  have follows : ∀ visit ∈ [Visit.ofTwoAttempts 0, .ofTwoAttempts 1],
      visit.workflow.Follows False Plan.ofTwoAttempts := by
    intro visit member
    simp only [List.mem_cons, List.not_mem_nil, or_false] at member
    rcases member with rfl | rfl <;> exact Visit.ofTwoAttempts_follows False _
  constructor
  · exact ⟨_, List.mem_cons_of_mem _ List.mem_cons_self, _, rfl, rfl⟩
  · intro answer member result finished terminal
    exact (terminal_result_is_reference_evaluation rfl rfl lossless follows answer member result
      finished terminal).1

end Durable
