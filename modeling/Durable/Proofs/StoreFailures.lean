import Durable.Proofs.CallChanges
import Durable.Proofs.CallTraces

/-!
# Failures of the store

An invocation calls its store to load the log, and then for each record that it appends.  The
log never refuses a record, so that the invocation fails only with the first of these calls
that fails, and makes none after it.
-/

namespace Durable

variable {V O : Type}

open Occurrence

namespace Store

/-- The answers to the appends that have led from one state of the store to a later one: an
append that was taken has no failure. -/
def answersUpTo (before after : Store) : List (Option StoreError) :=
  (List.range' (before.appends + 1) (after.appends - before.appends)).map before.faults.append

theorem answersUpTo_refl (store : Store) : store.answersUpTo store = [] := by
  simp [answersUpTo]

theorem answersUpTo_next {before after : Store} (last : Store)
    (later : before.appends ≤ after.appends) (next : last.appends = after.appends + 1) :
    before.answersUpTo last =
      before.answersUpTo after ++ [before.faults.append (after.appends + 1)] := by
  obtain ⟨count, counted⟩ := Nat.exists_eq_add_of_le later
  have further : last.appends - before.appends = count + 1 := by omega
  have sofar : after.appends - before.appends = count := by omega
  have number : before.appends + 1 + 1 * count = after.appends + 1 := by omega
  rw [answersUpTo, answersUpTo, further, sofar, List.range'_concat, List.map_append, number]
  rfl

end Store

namespace Effect

/-- The answer to an append. -/
def answer? : Effect V → Option (Option StoreError)
  | .appended _ => some none
  | .appendFailed _ error => some (some error)
  | _ => none

theorem answer?_of_report {effect : Effect V} (reports : effect.isReport = true) :
    effect.answer? = none := by
  cases effect <;> simp_all [isReport, answer?]

end Effect

namespace Occurrence

/-- The answers to the appends, in order. -/
def answers (occurrences : List (Occurrence V)) : List (Option StoreError) :=
  occurrences.filterMap fun occurrence => occurrence.effect.answer?

@[simp] theorem answers_nil : answers ([] : List (Occurrence V)) = [] :=
  rfl

@[simp] theorem answers_append (earlier later : List (Occurrence V)) :
    answers (earlier ++ later) = answers earlier ++ answers later := by
  simp [answers]

@[simp] theorem answers_cons (occurrence : Occurrence V) (rest : List (Occurrence V)) :
    answers (occurrence :: rest) = occurrence.effect.answer?.toList ++ answers rest := by
  cases answered : occurrence.effect.answer? <;> simp [answers, answered]

theorem Chatter.answers {chatter : List (Occurrence V)} (logs : Chatter chatter) :
    Occurrence.answers chatter = [] := by
  apply List.filterMap_eq_nil_iff.mpr
  intro occurrence member
  have isLog := logs occurrence member
  cases effect : occurrence.effect <;> simp_all [Effect.isChatter, Effect.answer?]

end Occurrence

namespace Invocation

theorem logCall_store (invocation : Invocation V) (level : LogLevel) (message : String) :
    (invocation.logCall level message).store = invocation.store := by
  unfold logCall
  split <;> rfl

private theorem actions_store (actions : List BodyAction) (invocation : Invocation V) :
    (actions.foldl act invocation).store = invocation.store := by
  induction actions generalizing invocation with
  | nil => rfl
  | cons action actions induction =>
      rw [List.foldl_cons, induction]
      cases action with
      | log level message => exact logCall_store invocation level message
      | advance duration => rfl

theorem runBody_store (invocation : Invocation V) (context : StepContext) (body : StepBody V) :
    (invocation.runBody context body).2.store = invocation.store :=
  actions_store (body context).actions _

/-- Between the two states the store was not read, and has answered each append as its faults
say. -/
structure Accounts (before after : Invocation V) : Prop where
  faults : after.store.faults = before.store.faults
  reads : after.store.reads = before.store.reads
  later : before.store.appends ≤ after.store.appends
  answered : answers after.occurrences =
    answers before.occurrences ++ before.store.answersUpTo after.store

theorem Accounts.refl (invocation : Invocation V) : Accounts invocation invocation :=
  ⟨rfl, rfl, Nat.le_refl _, by rw [Store.answersUpTo_refl, List.append_nil]⟩

theorem Accounts.aside {before after changed : Invocation V} (accounts : Accounts before after)
    (store : changed.store = after.store)
    (answered : answers changed.occurrences = answers after.occurrences) :
    Accounts before changed := by
  constructor
  · rw [store, accounts.faults]
  · rw [store, accounts.reads]
  · rw [store]
    exact accounts.later
  · rw [store, answered, accounts.answered]

theorem Accounts.writes {before after written : Invocation V} {operation : Operation}
    {result : Except StoreError Operation} (accounts : Accounts before after)
    (writes : Writes after operation result written) : Accounts before written := by
  have next := Store.answersUpTo_next written.store accounts.later (by cases writes <;> rfl)
  constructor
  · rw [← accounts.faults]
    cases writes <;> rfl
  · rw [← accounts.reads]
    cases writes <;> rfl
  · have later := accounts.later
    cases writes <;> exact Nat.le_succ_of_le later
  · rw [next, ← accounts.faults, ← List.append_assoc, ← accounts.answered]
    cases writes with
    | lost error failing => simp [failing, Effect.answer?]
    | kept taken => simp [taken, Effect.answer?]

theorem accounts_lasting (before : Invocation V) :
    Lasting (fun _ => True) (Accounts before) where
  write := by
    intro after admitted accounts
    cases admitted with
    | error error => exact accounts
    | ok operation =>
        cases wrote : after.write (.ok operation) with
        | mk result written => exact accounts.writes (write_writes wrote)
  report := by
    intro after effect reports accounts
    refine accounts.aside rfl ?_
    simp [emit, Effect.answer?_of_report reports]
  flag replaying accounts := accounts.aside rfl rfl
  place halt nextOrdinal names accounts := accounts.aside rfl rfl
  body := by
    intro after body ordinal semantics context _ _ accounts
    cases ran : (after.emit (.bodyBegun ordinal semantics context false)).runBody context body with
    | mk ending finished =>
        obtain ⟨_, _, chatter, logs, extension, _⟩ := runBody_course ran
        refine accounts.aside ?_ ?_
        · have same := runBody_store (after.emit (.bodyBegun ordinal semantics context false))
            context body
          rw [ran] at same
          exact same
        · rw [extension.occurrences, answers_append, logs.answers]
          simp [emit, Effect.answer?]

end Invocation

namespace Halt

/-- The failure of the store that stopped an invocation. -/
def failure? : Halt → Option StoreError
  | .store error => some error
  | .suspended _ | .fatal _ => none

end Halt

/-- Every append was taken, up to a last one that may have failed and has halted the
invocation. -/
def Answered (answers : List (Option StoreError)) (halt : Option Halt) : Prop :=
  ∃ taken, answers = List.replicate taken none ++ (halt.bind Halt.failure?).toList.map some

theorem replicate_split {α : Type} {taken : Nat} {last : Option α}
    {earlier later : List (Option α)} {item : α}
    (split : List.replicate taken none ++ last.toList.map some = earlier ++ some item :: later) :
    last = some item ∧ later = [] ∧ ∀ answer ∈ earlier, answer = none := by
  rcases append_eq_append_cons split with ⟨part, front, _⟩ | ⟨part, rfl, back⟩
  · have member : some item ∈ List.replicate taken (none : Option α) := by simp [front]
    simp at member
  · cases last with
    | none => simp at back
    | some found =>
        cases part with
        | nil =>
            cases back
            exact ⟨rfl, rfl, by simp⟩
        | cons head part => simp at back

namespace Answered

theorem taken {halt : Option Halt} (count : Nat) (other : halt.bind Halt.failure? = none) :
    Answered (List.replicate count none) halt :=
  ⟨count, by rw [other]; simp⟩

theorem append {earlier later : List (Option StoreError)} {halt : Option Halt}
    (first : Answered earlier none) (second : Answered later halt) :
    Answered (earlier ++ later) halt := by
  obtain ⟨before, rfl⟩ := first
  obtain ⟨after, rfl⟩ := second
  refine ⟨before + after, ?_⟩
  rw [← List.append_assoc, List.replicate_append_replicate.symm]
  simp

end Answered

theorem Operation.replay_failure? (operation : Operation) (codec : Codec V) :
    (Invocation.haltOf? (operation.replay codec)).bind Halt.failure? = none := by
  unfold Operation.replay
  split
  · rfl
  · next result _ =>
      cases decoded : codec.decode result <;> rfl

theorem BodyOutcome.closing?_failure? {outcome : BodyOutcome V} {retry : RetryPolicy}
    {codec : Codec V} {name : String} {attempt : Nat} {now : Instant}
    {update : OperationUpdate} {seen : Except DurableError V}
    (closes : outcome.closing? retry codec name attempt now = some (update, seen)) :
    (Invocation.haltOf? seen).bind Halt.failure? = none := by
  unfold closing? at closes
  split at closes
  · simp at closes
  · split at closes <;> cases closes <;> rfl
  · split at closes <;> cases closes <;> rfl

theorem StepCall.opening_answers (call : StepCall V) (invocation : Invocation V) (number : Nat) :
    Answered (answers (call.opening invocation number)) none := by
  cases semantics : call.config.semantics with
  | atMostOnce => exact ⟨1, by simp [opening, marker, semantics, Effect.answer?]⟩
  | atLeastOnce => exact ⟨0, by simp [opening, marker, semantics, Effect.answer?]⟩

theorem AttemptCourse.answered {invocation : Invocation V} {call : StepCall V} {number : Nat}
    {reply : Reply V} {emitted : List (Occurrence V)}
    (course : AttemptCourse invocation call number reply emitted) :
    Answered (answers emitted) reply.halt? := by
  cases course with
  | unmarked error guarded faulty => exact ⟨0, rfl⟩
  | crashed chatter logs dies =>
      rw [answers_append, logs.answers]
      exact (call.opening_answers invocation number).append (.taken 0 rfl)
  | lost chatter logs reading update outcome closes error faulty timed =>
      rw [answers_append, answers_append, logs.answers]
      exact (call.opening_answers invocation number).append ⟨0, rfl⟩
  | closed chatter logs reading update outcome closes diagnostic timed =>
      rw [answers_append, answers_append, logs.answers]
      exact (call.opening_answers invocation number).append
        (.taken 1 (BodyOutcome.closing?_failure? closes))

theorem StepCourse.answered {invocation : Invocation V} {call : StepCall V} {reply : Reply V}
    {middle : List (Occurrence V)} (course : StepCourse invocation call reply middle) :
    Answered (answers middle) reply.halt? := by
  cases course with
  | duplicate first known => exact .taken 0 rfl
  | mismatched operation fresh found other => exact .taken 0 rfl
  | planned recorded fresh found same course =>
      generalize planned : StepPlan.ofRecord recorded call.config.semantics invocation.now = plan
        at course
      cases course with
      | replay operation => exact .taken 0 (operation.replay_failure? call.codec)
      | fail error =>
          obtain ⟨operation, _, ⟨_, rfl⟩ | ⟨_, wake, rfl⟩⟩ := StepPlan.ofRecord_eq_fail planned
          · exact .taken 0 rfl
          · exact .taken 0 rfl
      | reported operation noted => exact .taken 0 rfl
      | annotated operation unnoted => exact .taken 1 rfl
      | unannotated operation unnoted error faulty => exact ⟨0, rfl⟩
      | attempted number unfinished notDecreasing course => exact course.answered

theorem WaitPlan.ofRecord_failure? {recorded : Option Operation} {now : Instant}
    {error : DurableError} (planned : ofRecord recorded now = .fail error) :
    (Halt.ofError? error).bind Halt.failure? = none := by
  cases recorded with
  | none => simp [ofRecord] at planned
  | some timer =>
      simp only [ofRecord] at planned
      split at planned
      · simp at planned
      · split at planned <;> cases planned
        rfl
      · cases planned
        rfl
      · cases planned
        rfl

theorem WaitCourse.answered {invocation : Invocation V} {call : WaitCall}
    {outcome : Except DurableError Unit} {middle : List (Occurrence V)}
    (course : WaitCourse invocation call outcome middle) :
    Answered (answers middle) (Invocation.haltOf? outcome) := by
  cases course with
  | duplicate first known => exact .taken 0 rfl
  | mismatched operation fresh found other => exact .taken 0 rfl
  | planned recorded fresh found same course =>
      generalize planned : WaitPlan.ofRecord recorded invocation.now = plan at course
      cases course with
      | pass => exact .taken 0 rfl
      | fail error => exact .taken 0 (WaitPlan.ofRecord_failure? planned)
      | elapsed timer diagnostic => exact .taken 1 rfl
      | unelapsed timer error faulty => exact ⟨0, rfl⟩
      | passed due => exact .taken 1 rfl
      | started notDue diagnostic => exact .taken 1 rfl
      | lost written error faulty => exact ⟨0, rfl⟩

namespace Invocation

/-- The store has answered the appends since the begin as its faults say, each was taken but
for a last one, and that one has halted the invocation. -/
structure Audited (begun invocation : Invocation V) : Prop where
  accounts : Accounts begun invocation
  answered : Answered (answers invocation.occurrences) invocation.halt

namespace Audited

variable {begun before after : Invocation V}

theorem aside (audited : Audited begun before) (store : after.store = before.store)
    (halt : after.halt = before.halt)
    (answered : answers after.occurrences = answers before.occurrences) :
    Audited begun after := by
  refine ⟨audited.accounts.aside store answered, ?_⟩
  rw [halt, answered]
  exact audited.answered

theorem called {kind : OperationKind} {name : String} {emitted : List (Occurrence V)}
    {halt : Option Halt} (audited : Audited begun before) (free : before.halt = none)
    (called : Called before after kind name emitted halt) (accounts : Accounts begun after)
    (answered : Answered (answers emitted) halt) : Audited begun after := by
  refine ⟨accounts, ?_⟩
  have sofar := audited.answered
  rw [free] at sofar
  rw [called.extension.occurrences, answers_append, called.halt]
  exact sofar.append answered

theorem settled {halt : Halt} (audited : Audited begun before)
    (halted : before.halt = some halt) (outcome : Except DurableError α) {effect : Effect V}
    (reports : effect.isReport = true) :
    Audited begun ((before.settle outcome).emit effect) := by
  have extension := settle_extends before outcome
  refine audited.aside (settle_store before outcome) (settle_halted halted outcome).halt ?_
  simp [emit, extension.occurrences, Effect.answer?_of_report reports]

theorem step (audited : Audited begun before) (call : StepCall V) {reply : Reply V}
    (stepped : before.step call.name call.config call.codec call.body = (reply, after)) :
    Audited begun after ∧ (reply = .crashed → after.halt = none) := by
  cases halted : before.halt with
  | none =>
      obtain ⟨middle, course, called⟩ := step_course halted call stepped
      have accounts : Accounts begun
          (before.step call.name call.config call.codec call.body).2 :=
        (accounts_lasting begun).step _ _ _ trivial audited.accounts
      rw [stepped] at accounts
      refine ⟨audited.called halted called accounts ?_, ?_⟩
      · rw [answers_append]
        cases reply <;> simpa [Reply.returning, Effect.answer?] using course.answered
      · rintro rfl
        exact called.halt
  | some halt =>
      rw [step_halted halted] at stepped
      cases stepped
      exact ⟨audited.settled halted _ rfl, by simp⟩

theorem wait (audited : Audited begun before) (call : WaitCall)
    {outcome : Except DurableError Unit}
    (waited : before.wait call.name call.duration = (outcome, after)) : Audited begun after := by
  cases halted : before.halt with
  | none =>
      obtain ⟨middle, course, called⟩ := wait_course halted call waited
      have accounts := (accounts_lasting begun).wait call.name call.duration audited.accounts
      rw [waited] at accounts
      refine audited.called halted called accounts ?_
      rw [answers_append]
      simpa [Effect.answer?] using course.answered
  | some halt =>
      rw [wait_halted halted] at waited
      cases waited
      exact audited.settled halted _ rfl

end Audited

end Invocation

/-- A pass keeps the account; when the process dies in it, no append has failed. -/
theorem Workflow.run_audited (workflow : Workflow V O) {begun before : Invocation V}
    (audited : Invocation.Audited begun before) :
    Invocation.Audited begun (workflow.run before).2 ∧
      ((workflow.run before).1 = .crashed → (workflow.run before).2.halt = none) := by
  induction workflow generalizing before with
  | done outcome => exact ⟨audited, by simp [run]⟩
  | step name config codec body next induction =>
      cases stepped : before.step name config codec body with
      | mk reply after =>
          have kept := audited.step ⟨name, config, codec, body⟩ stepped
          cases reply with
          | crashed =>
              simp only [run, stepped]
              exact ⟨kept.1, fun _ => kept.2 rfl⟩
          | returned outcome =>
              simp only [run, stepped]
              exact induction outcome kept.1
  | wait name duration next induction =>
      exact induction _ (audited.wait ⟨name, duration⟩ rfl)
  | log level message next induction =>
      obtain ⟨chatter, logs, extension, place⟩ := Invocation.logCall_course before level message
      refine induction (audited.aside (Invocation.logCall_store before level message)
        place.halt ?_)
      rw [extension.occurrences, answers_append, logs.answers, List.append_nil]
  | observe next induction =>
      exact induction _ (audited.aside rfl rfl (by simp [Invocation.emit, Effect.answer?]))
  | advance duration next induction => exact induction (audited.aside rfl rfl rfl)

namespace OperationLog

/-- How loading the log fails. -/
def loadFailure? (store : Store) (executionId : String) : Option StoreError :=
  match (load store executionId).1 with
  | .error error => some error
  | .ok _ => none

theorem load_calls (store : Store) (executionId : String) :
    (load store executionId).2.appends = store.appends ∧
      (load store executionId).2.faults = store.faults ∧
      (load store executionId).2.reads = store.reads + 1 := by
  simp only [load, Store.load, Store.history]
  split <;> exact ⟨rfl, rfl, rfl⟩

end OperationLog

theorem PassEnd.verdict_failed_iff {ending : PassEnd O} {final : Invocation V}
    (died : ending = .crashed → final.halt = none) (executionId : String) (error : EngineError) :
    ending.verdict executionId final = .failed error ↔
      (final.halt.bind Halt.failure?).map EngineError.store = some error := by
  cases ending with
  | crashed => simp [verdict, died rfl]
  | returned outcome =>
      cases halted : final.halt with
      | none => cases outcome <;> simp [verdict, Invocation.close, Snapshot.result, halted]
      | some halt =>
          cases halt <;>
            simp [verdict, Invocation.close, Snapshot.result, halted, Halt.failure?]

namespace Visit

/-- The answers of the store to a visit, in the order in which it was called: to the load
of the log, and to each append. -/
def storeAnswers (visit : Visit V O) (executionId : String) (store : Store) :
    List (Option StoreError) :=
  OperationLog.loadFailure? store executionId ::
    store.answersUpTo (visit.answer executionId store).store

/-- The store takes every call of a visit, up to a last one that may fail, and its failure is
that of the visit. -/
theorem storeAnswers_course (visit : Visit V O) (executionId : String) (store : Store) :
    (visit.answer executionId store).store.reads = store.reads + 1 ∧
      ∃ taken failure, visit.storeAnswers executionId store =
          List.replicate taken none ++ (Option.toList failure).map some ∧
        ∀ error, (visit.answer executionId store).verdict = .failed error ↔
          failure.map EngineError.store = some error := by
  obtain ⟨appends, faults, reads⟩ := OperationLog.load_calls store executionId
  rcases visit.answer_cases executionId store with
    ⟨error, after, failed, answered⟩ |
      ⟨log, after, ending, final, closing, loaded, ran, _, _, left, verdict⟩
  · rw [failed] at appends reads
    rw [storeAnswers, OperationLog.loadFailure?, answered, failed]
    refine ⟨reads, 0, some error, ?_, ?_⟩
    · have none : store.answersUpTo after = [] := by
        rw [Store.answersUpTo, appends, Nat.sub_self]
        rfl
      rw [none]
      rfl
    · intro given
      simp
  · have begins : Invocation.Audited (visit.begun executionId log after)
        (visit.begun executionId log after) := ⟨.refl _, .taken 0 rfl⟩
    have audited := visit.workflow.run_audited begins
    rw [ran] at audited
    obtain ⟨⟨accounts, taken, answered⟩, died⟩ := audited
    rw [accounts.answered] at answered
    rw [loaded] at appends faults reads
    have same : store.answersUpTo final.store =
        List.replicate taken none ++ (final.halt.bind Halt.failure?).toList.map some := by
      rw [← answered, Store.answersUpTo, Store.answersUpTo, begun_store, appends, faults]
      rfl
    rw [storeAnswers, OperationLog.loadFailure?, loaded, left, verdict, accounts.reads, same]
    exact ⟨reads, taken + 1, _, rfl, PassEnd.verdict_failed_iff died executionId⟩

end Visit

namespace MadeCall

variable {made : MadeCall V}

theorem answered (free : made.before.halt = none) :
    Answered (answers made.emitted) made.after.halt := by
  cases declared : made.declaration with
  | step call =>
      obtain ⟨reply, middle, course, called, _⟩ := step_called free declared
      rw [emitted_of_called called, called.halt, answers_cons, answers_append]
      cases reply <;> simpa [Reply.returning, Effect.answer?] using course.answered
  | wait call =>
      obtain ⟨outcome, middle, course, called, _⟩ := wait_called free declared
      rw [emitted_of_called called, called.halt, answers_cons, answers_append]
      simpa [Effect.answer?] using course.answered

theorem append_failed (free : made.before.halt = none) {error : StoreError}
    (returned : made.reply = .returned (.error (.checkpoint error))) :
    ∃ reading operation, ⟨reading, .appendFailed operation error⟩ ∈ made.emitted := by
  obtain ⟨taken, answered⟩ := answered free
  rw [halt_after free returned] at answered
  have member : some error ∈ answers made.emitted := by
    rw [answered]
    exact List.mem_append_right _ List.mem_cons_self
  obtain ⟨⟨reading, effect⟩, occurred, failed⟩ := List.mem_filterMap.mp member
  cases effect <;> simp only [Effect.answer?, Option.some.injEq, reduceCtorEq] at failed
  cases failed
  exact ⟨reading, _, occurred⟩

end MadeCall

/-- Invocation errors come only from the store.  Over any store with any records and any
faults, for any workflow and clock, the invocation fails exactly when a call of the store
does, with the error of that call: the store takes all calls before it, and is called no more
after it.  The log is read once, and no write is refused by the log itself, so that a call
which reports a failure of the store has seen an append fail. -/
theorem invocation_fails_only_with_its_store (visit : Visit V O) (executionId : String)
    (store : Store) :
    (∀ error, (visit.answer executionId store).verdict = .failed error ↔
        ∃ earlier failure, error = .store failure ∧
          visit.storeAnswers executionId store = earlier ++ [some failure] ∧
          ∀ answer ∈ earlier, answer = none) ∧
      (∀ earlier failure later,
        visit.storeAnswers executionId store = earlier ++ some failure :: later →
        later = [] ∧ (visit.answer executionId store).verdict = .failed (.store failure)) ∧
      (visit.answer executionId store).store.reads = store.reads + 1 ∧
      ∀ made ∈ visit.calls executionId store, made.before.halt = none → ∀ error,
        made.reply = .returned (.error (.checkpoint error)) →
        ∃ reading operation, ⟨reading, .appendFailed operation error⟩ ∈ made.emitted := by
  obtain ⟨reads, taken, failure, answers, failed⟩ := visit.storeAnswers_course executionId store
  rw [answers]
  refine ⟨?_, ?_, reads, fun made _ free error => made.append_failed free⟩
  · intro error
    rw [failed]
    constructor
    · intro reported
      obtain ⟨lost, rfl, rfl⟩ := Option.map_eq_some_iff.mp reported
      exact ⟨List.replicate taken none, lost, rfl, rfl, by simp⟩
    · rintro ⟨earlier, lost, rfl, split, _⟩
      rw [(replicate_split split).1]
      rfl
  · intro earlier lost later split
    obtain ⟨rfl, none, _⟩ := replicate_split split
    exact ⟨none, (failed _).mpr rfl⟩

/-- The outcome of the step is the second append, which the store loses. -/
theorem lost_outcome_fails_invocation :
    let failure := StoreError.database "append" "disk full"
    let store := Store.ofMedium (.memory []) (.listed [2] [] failure)
    Visit.ofOneStep.storeAnswers "run" store = [none, none, some failure] ∧
      (Visit.ofOneStep.answer "run" store).verdict = .failed (.store failure) := by
  intro failure store
  have answers : Visit.ofOneStep.storeAnswers "run" store = [none, none] ++ [some failure] := rfl
  exact ⟨answers,
    ((invocation_fails_only_with_its_store Visit.ofOneStep "run" store).2.1 _ _ _ answers).2⟩

end Durable
