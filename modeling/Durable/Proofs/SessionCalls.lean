import Durable.Proofs.CallTraces
import Durable.Proofs.RecordChains

/-!
# The calls of a session

A session makes its calls one after another, each over a log that holds the latest records of
everything before it, but for what the medium makes of results and ready times.  A property of
the calls and of the trace that every call keeps, and that no occurrence between the calls
touches, holds of the whole session.
-/

namespace Durable

variable {V O : Type}

open Occurrence

/-- What a call does between its declaration and its return: nothing that is recorded or run,
a wait, the report of an interrupted attempt, or an attempt. -/
inductive MadeCall.Engages (made : MadeCall V) : List (Occurrence V) → Prop where
  | idle : Engages made []
  | waited (call : WaitCall) {outcome : Except DurableError Unit} {middle : List (Occurrence V)}
      (declared : made.declaration = .wait call)
      (course : WaitCourse made.before call outcome middle) : Engages made middle
  | reported (call : StepCall V) (declared : made.declaration = .step call)
      (operation : Operation)
      (found : made.before.log.lookup? made.before.nextOrdinal = some operation)
      (own : operation.kind = .step ∧ operation.name = call.name)
      (started : operation.status = .started) (reading : Instant) :
      Engages made [⟨reading, .appended operation.annotated⟩]
  | attempted (call : StepCall V) (declared : made.declaration = .step call) (number : Nat)
      {reply : Reply V} {middle : List (Occurrence V)}
      (own : ∀ operation, made.before.log.lookup? made.before.nextOrdinal = some operation →
        operation.kind = .step ∧ operation.name = call.name)
      (planned : StepPlan.ofRecord (made.before.log.lookup? made.before.nextOrdinal)
        call.config.semantics made.before.now = .attempt number)
      (course : AttemptCourse made.before call number reply middle) : Engages made middle

/-- The occurrences of a list are those of a part, with quiet ones around it. -/
def Occurrence.Around (part whole : List (Occurrence V)) : Prop :=
  ∃ head tail, Quiet head ∧ Quiet tail ∧ whole = head ++ (part ++ tail)

theorem Occurrence.Quiet.around {occurrences : List (Occurrence V)} (isQuiet : Quiet occurrences) :
    Around [] occurrences :=
  ⟨occurrences, [], isQuiet, ⟨rfl, rfl⟩, by simp⟩

theorem StepCourse.engages {made : MadeCall V} {call : StepCall V} {reply : Reply V}
    {middle : List (Occurrence V)} (declared : made.declaration = .step call)
    (course : StepCourse made.before call reply middle) :
    ∃ part, Around part middle ∧ made.Engages part := by
  have quiet : Quiet middle → ∃ part, Around part middle ∧ made.Engages part :=
    fun isQuiet => ⟨[], isQuiet.around, .idle⟩
  cases course with
  | duplicate first known => exact quiet ⟨rfl, rfl⟩
  | mismatched operation fresh found other => exact quiet ⟨rfl, rfl⟩
  | planned recorded fresh found same course =>
      subst found
      generalize plans : StepPlan.ofRecord _ _ _ = plan at course
      cases course with
      | replay operation => exact quiet ⟨rfl, rfl⟩
      | fail error => exact quiet ⟨rfl, rfl⟩
      | reported operation noted => exact quiet ⟨rfl, rfl⟩
      | unannotated operation unnoted error faulty => exact quiet ⟨rfl, rfl⟩
      | annotated operation unnoted =>
          obtain ⟨found, started, _⟩ := StepPlan.ofRecord_eq_interrupt plans
          exact ⟨_, ⟨[_], [], ⟨rfl, rfl⟩, ⟨rfl, rfl⟩, rfl⟩,
            .reported call declared operation found (same operation found) started _⟩
      | attempted number unfinished notDecreasing course =>
          exact ⟨middle, ⟨[], [], ⟨rfl, rfl⟩, ⟨rfl, rfl⟩, by simp⟩,
            .attempted call declared number same plans course⟩

theorem MadeCall.engages (made : MadeCall V) :
    ∃ part, Around part made.emitted ∧ made.Engages part := by
  cases halted : made.before.halt with
  | some halt => exact ⟨[], (made.quiet_of_halted halted).around, .idle⟩
  | none =>
      cases declared : made.declaration with
      | step call =>
          obtain ⟨reply, middle, course, called, _⟩ := step_called halted declared
          obtain ⟨part, ⟨head, tail, headQuiet, tailQuiet, rfl⟩, engages⟩ :=
            course.engages declared
          refine ⟨part, ⟨⟨made.before.now, .declared made.before.nextOrdinal .step call.name⟩ ::
            head, tail ++ reply.returning call.name made.after, ?_, ?_, ?_⟩, engages⟩
          · exact ⟨by simp [Effect.record?, headQuiet.records],
              by simp [Effect.isBody, headQuiet.bodies]⟩
          · exact tailQuiet.append (reply.returning_quiet call.name made.after)
          · rw [emitted_of_called called]
            simp
      | wait call =>
          obtain ⟨outcome, middle, course, called, _⟩ := wait_called halted declared
          refine ⟨middle, ⟨[⟨made.before.now,
            .declared made.before.nextOrdinal .timer call.name⟩],
            [⟨made.after.now, .waitReturned call.name outcome made.after.isReplaying⟩],
            ⟨rfl, rfl⟩, ⟨rfl, rfl⟩, ?_⟩, .waited call declared course⟩
          rw [emitted_of_called called]
          simp

namespace MadeCall.Engages

variable {made : MadeCall V} {part : List (Occurrence V)}

/-- Everything that a call records is of its own ordinal, kind and name. -/
theorem records (engages : made.Engages part) : ∀ record ∈ Occurrence.records part,
    record.ordinal = made.before.nextOrdinal ∧ record.kind = made.declaration.kind ∧
      record.name = made.declaration.name := by
  cases engages with
  | idle => simp
  | waited call declared course =>
      rw [declared]
      exact course.ownRecords.own
  | reported call declared operation found own started reading =>
      intro record member
      obtain rfl : record = operation.annotated := by simpa [Effect.record?] using member
      have ordinal : operation.ordinal = made.before.nextOrdinal :=
        OperationLog.lookup?_ordinal found
      rw [declared]
      exact ⟨ordinal, own⟩
  | attempted call declared number own planned course =>
      intro record member
      obtain ⟨update, rfl⟩ := course.states record member
      rw [declared]
      exact StepCall.base_fits own

end MadeCall.Engages

theorem Operation.fields_of_lasting {written read : Operation}
    (same : written.lasting = read.lasting) :
    read.kind = written.kind ∧ read.name = written.name ∧ read.status = written.status ∧
      read.attempt = written.attempt ∧ read.error = written.error := by
  simp only [lasting, mk.injEq] at same
  obtain ⟨_, _, name, kind, status, attempt, _, error, _⟩ := same
  exact ⟨kind.symm, name.symm, status.symm, attempt.symm, error.symm⟩

/-- Up to what a medium may change, the log holds the latest records of the trace. -/
def Invocation.Follows (invocation : Invocation V) (trace : List (Occurrence V)) : Prop :=
  ∀ ordinal, (invocation.log.lookup? ordinal).map Operation.lasting =
    (History.latest? (records trace) ordinal).map Operation.lasting

theorem History.latest?_lasting (history : List Operation) (ordinal : Nat) :
    latest? (history.map Operation.lasting) ordinal =
      (latest? history ordinal).map Operation.lasting := by
  have view : (history.map Operation.lasting).filter (·.ordinal == ordinal) =
      (history.filter (·.ordinal == ordinal)).map Operation.lasting := List.filter_map
  simp only [latest?, view, List.getLast?_map]

theorem Medium.history_lasting {medium : Medium} {executionId : String}
    {records history : List Operation} (empty : medium.history executionId = .ok [])
    (read : (medium.appendAll executionId records).history executionId = .ok history) :
    history.map Operation.lasting = records.map Operation.lasting := by
  obtain ⟨earlier, later, earlierRead, rfl, given⟩ := history_appendAll read
  obtain rfl : [] = earlier := Except.ok.inj (empty.symm.trans earlierRead)
  exact History.map_lasting_of_givesBack given

namespace Invocation.Follows

variable {invocation before after : Invocation V} {trace emitted : List (Occurrence V)}

theorem extend (follows : before.Follows trace) (extension : Extends before after emitted) :
    after.Follows (trace ++ emitted) := by
  intro ordinal
  rw [extension.lookup?, records_append, History.latest?_append]
  cases History.latest? (records emitted) ordinal with
  | none => exact follows ordinal
  | some record => rfl

theorem quiet (follows : invocation.Follows trace) (isQuiet : Quiet emitted) :
    invocation.Follows (trace ++ emitted) := by
  intro ordinal
  rw [isQuiet.records_append]
  exact follows ordinal

theorem absent (follows : invocation.Follows trace) {ordinal : Nat}
    (missing : invocation.log.lookup? ordinal = none) :
    History.latest? (records trace) ordinal = none := by
  have same := follows ordinal
  rw [missing] at same
  exact Option.map_eq_none_iff.mp same.symm

theorem found (follows : invocation.Follows trace) {ordinal : Nat} {read : Operation}
    (here : invocation.log.lookup? ordinal = some read) :
    ∃ written, History.latest? (records trace) ordinal = some written ∧
      written.lasting = read.lasting := by
  have same := follows ordinal
  rw [here] at same
  exact Option.map_eq_some_iff.mp same.symm

theorem begun {executionId : String} {initial : Medium} {store afterLoad : Store}
    {log : OperationLog} (empty : initial.history executionId = .ok [])
    (appended : store.medium = initial.appendAll executionId (records trace))
    (loaded : OperationLog.load store executionId = (.ok log, afterLoad)) (visit : Visit V O) :
    (visit.begun executionId log afterLoad).Follows trace := by
  obtain ⟨history, read, rfl, _⟩ := OperationLog.load_ok loaded
  rw [appended] at read
  intro ordinal
  rw [Visit.begun_log, OperationLog.lookup?_latestStates, ← History.latest?_lasting,
    Medium.history_lasting empty read, History.latest?_lasting]

end Invocation.Follows

namespace Session

/-- The medium has taken in everything that the session has recorded. -/
theorem storeAfter_medium (executionId : String) (store : Store) (visits : List (Visit V O)) :
    (storeAfter executionId store visits).medium =
      store.medium.appendAll executionId (records (occurrences executionId store visits)) := by
  have initially : store.medium = store.medium.appendAll executionId
      (records ([] : List (Occurrence V))) := rfl
  have appended := preserved
    (fun trace visited => visited.medium = store.medium.appendAll executionId (records trace))
    (fun visit (_ : visit ∈ visits) trace visited before => visit.appended before) initially
  rwa [List.nil_append] at appended

/-- The calls of the visits, in order. -/
def calls (executionId : String) (store : Store) : List (Visit V O) → List (MadeCall V)
  | [] => []
  | visit :: rest =>
    visit.calls executionId store ++ calls executionId (visit.answer executionId store).store rest

/-- A property of the calls so far and of the trace that every call keeps, when its step
satisfies the condition, and that quiet occurrences do not touch. -/
structure Keeps (condition : StepCall V → Prop)
    (property : List (MadeCall V) → List (Occurrence V) → Prop) : Prop where
  quiet : ∀ {calls : List (MadeCall V)} {trace emitted : List (Occurrence V)},
    property calls trace → Quiet emitted → property calls (trace ++ emitted)
  call : ∀ {calls : List (MadeCall V)} {trace part : List (Occurrence V)} {made : MadeCall V},
    (∀ call, made.declaration = .step call → condition call) → made.before.Follows trace →
    (∀ occurrence ∈ part, occurrence ∈ made.emitted) → made.Engages part →
    property calls trace → property (calls ++ [made]) (trace ++ part)

namespace Keeps

variable {condition : StepCall V → Prop}
  {property : List (MadeCall V) → List (Occurrence V) → Prop}
  {passed : List (MadeCall V)} {trace : List (Occurrence V)}

theorem made (keeps : Keeps condition property) {made : MadeCall V}
    (allowed : ∀ call, made.declaration = .step call → condition call)
    (follows : made.before.Follows trace) (holds : property passed trace) :
    property (passed ++ [made]) (trace ++ made.emitted) := by
  -- The declaration and the return of the call are quiet, and stand around what it engages in.
  obtain ⟨part, ⟨head, tail, headQuiet, tailQuiet, emitted⟩, engages⟩ := made.engages
  have kept := keeps.call allowed (follows.quiet headQuiet)
    (fun occurrence member => by simp [emitted, member]) engages (keeps.quiet holds headQuiet)
  rw [emitted, ← List.append_assoc, ← List.append_assoc, List.append_assoc trace]
  rw [List.append_assoc trace] at kept
  exact keeps.quiet kept tailQuiet

/-- Along a pass, whose occurrences stand behind those of the earlier visits. -/
theorem run (keeps : Keeps condition property) {workflow : Workflow V O}
    (each : workflow.EveryStep condition) {earlier : List (Occurrence V)}
    {before : Invocation V} (follows : before.Follows (earlier ++ before.occurrences))
    (holds : property passed (earlier ++ before.occurrences)) :
    property (passed ++ workflow.calls before)
      (earlier ++ (workflow.run before).2.occurrences) := by
  induction workflow generalizing before passed with
  | done outcome =>
      rw [Workflow.calls, List.append_nil]
      exact holds
  | step name config codec body next induction =>
      let made : MadeCall V := ⟨before, .step ⟨name, config, codec, body⟩⟩
      have extension := made.extends_emitted
      have further := follows.extend extension
      have allowed : ∀ call, made.declaration = .step call → condition call := by
        rintro call ⟨⟩
        exact each.1
      have kept := keeps.made allowed follows holds
      -- What the call emits makes up the difference between the two traces of the pass.
      rw [List.append_assoc, ← extension.occurrences] at further kept
      cases stepped : before.step name config codec body with
      | mk reply after =>
          obtain rfl : made.after = after := congrArg Prod.snd (MadeCall.result_of_step stepped)
          simp only [Workflow.calls, Workflow.run, stepped]
          cases reply with
          | crashed => exact kept
          | returned outcome =>
              rw [List.append_cons]
              exact induction outcome (each.2 outcome) further kept
  | wait name duration next induction =>
      let made : MadeCall V := ⟨before, .wait ⟨name, duration⟩⟩
      have extension := made.extends_emitted
      have further := follows.extend extension
      have allowed : ∀ call, made.declaration = .step call → condition call := by
        rintro call ⟨⟩
      have kept := keeps.made allowed follows holds
      rw [List.append_assoc, ← extension.occurrences] at further kept
      simp only [Workflow.calls, Workflow.run]
      rw [List.append_cons]
      exact induction _ (each _) further kept
  | log level message next induction =>
      obtain ⟨chatter, logs, extension, _⟩ := Invocation.logCall_course before level message
      have further := follows.extend extension
      have kept := keeps.quiet holds logs.quiet
      rw [List.append_assoc, ← extension.occurrences] at further kept
      exact induction each further kept
  | observe next induction =>
      have further := follows.extend (.emit before (.observed before.observation) rfl)
      have kept := keeps.quiet holds
        (Invocation.emit_quiet before (.observed before.observation) rfl rfl)
      rw [List.append_assoc] at further kept
      exact induction before.observation (each before.observation) further kept
  | advance duration next induction => exact induction each follows holds

theorem visit (keeps : Keeps condition property) {executionId : String} {initial : Medium}
    (empty : initial.history executionId = .ok []) {visit : Visit V O} {store : Store}
    (each : visit.workflow.EveryStep condition)
    (appended : store.medium = initial.appendAll executionId (records trace))
    (holds : property passed trace) :
    property (passed ++ visit.calls executionId store)
      (trace ++ (visit.answer executionId store).occurrences) := by
  rcases visit.answer_cases executionId store with
    ⟨error, after, failed, answered⟩ |
      ⟨log, after, ending, final, closing, loaded, ran, closingQuiet, occurrences, _⟩
  · simp only [Visit.calls, failed, answered, List.append_nil]
    exact holds
  · have isQuiet := visit.begun_quiet executionId log after
    have follows := (Invocation.Follows.begun empty appended loaded visit).quiet isQuiet
    have kept := keeps.run each follows (keeps.quiet holds isQuiet)
    rw [ran] at kept
    simp only [Visit.calls, loaded, occurrences]
    rw [← List.append_assoc]
    exact keeps.quiet kept closingQuiet

theorem visits (keeps : Keeps condition property) {executionId : String} {initial : Medium}
    (empty : initial.history executionId = .ok []) {visits : List (Visit V O)} {store : Store}
    (each : ∀ visit ∈ visits, visit.workflow.EveryStep condition)
    (appended : store.medium = initial.appendAll executionId (records trace))
    (holds : property passed trace) :
    property (passed ++ calls executionId store visits)
      (trace ++ occurrences executionId store visits) := by
  induction visits generalizing passed trace store with
  | nil => simpa [calls, occurrences, answers] using holds
  | cons visit rest induction =>
      have kept := keeps.visit empty (each visit List.mem_cons_self) appended holds
      have further := induction (fun later member => each later (List.mem_cons_of_mem _ member))
        (visit.appended appended) kept
      simpa [calls, occurrences, answers] using further

theorem session (keeps : Keeps condition property) {executionId : String} {store : Store}
    (empty : store.medium.history executionId = .ok []) {visits : List (Visit V O)}
    (each : ∀ visit ∈ visits, visit.workflow.EveryStep condition) (holds : property [] []) :
    property (calls executionId store visits) (occurrences executionId store visits) := by
  have kept := keeps.visits empty each (Eq.refl store.medium) holds
  rwa [List.nil_append, List.nil_append] at kept

theorem declared (condition : StepCall V → Prop) :
    Keeps condition fun calls _ =>
      ∀ made ∈ calls, ∀ call, made.declaration = .step call → condition call where
  quiet holds _ := holds
  call allowed _ _ _ holds := by
    intro other member
    rcases List.mem_append.mp member with passed | last
    · exact holds other passed
    · rw [List.mem_singleton.mp last]
      exact allowed

end Keeps

end Session

end Durable
