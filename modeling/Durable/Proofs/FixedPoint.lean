import Durable.Proofs.LogRefinement
import Durable.Proofs.Recall
import Durable.Proofs.StoreFailures

/-!
# Executions that have ended

When an invocation of a deterministic workflow has ended for good, the log that it leaves
recalls every call of the workflow up to the end.  A later invocation therefore runs no body,
appends nothing and ends in the same way, at any clock reading, and it leaves the store as it
found it, so that it is the same with the invocations after it.
-/

namespace Durable

variable {V O : Type}

open Occurrence

/-- The calls of a deterministic workflow: the next one, or the end, depends on the outcomes
of the earlier ones only.  What the bodies do, which retries are granted and how long a wait
lasts are left open. -/
inductive Scenario (V O : Type) where
  | done (outcome : Except DurableError O)
  | step (name : String) (semantics : StepSemantics) (codec : Codec V)
      (next : Except DurableError V → Scenario V O)
  | wait (name : String) (next : Except DurableError Unit → Scenario V O)

namespace Workflow

/-- As long as it is not halted, the workflow declares the calls of the scenario and ends as
the scenario does; what it observes makes no difference. -/
inductive Enacts : Workflow V O → Scenario V O → Prop where
  | done (outcome : Except DurableError O) : Enacts (.done outcome) (.done outcome)
  | step {name : String} {config : StepConfig} {codec : Codec V} {body : StepBody V}
      {next : Except DurableError V → Workflow V O}
      {following : Except DurableError V → Scenario V O}
      (enacts : ∀ outcome, Invocation.haltOf? outcome = none →
        Enacts (next outcome) (following outcome)) :
      Enacts (.step name config codec body next) (.step name config.semantics codec following)
  | wait {name : String} {duration : Duration} {next : Except DurableError Unit → Workflow V O}
      {following : Except DurableError Unit → Scenario V O}
      (enacts : ∀ outcome, Invocation.haltOf? outcome = none →
        Enacts (next outcome) (following outcome)) :
      Enacts (.wait name duration next) (.wait name following)
  | log {level : LogLevel} {message : String} {next : Workflow V O} {scenario : Scenario V O}
      (enacts : Enacts next scenario) : Enacts (.log level message next) scenario
  | observe {next : Observation → Workflow V O} {scenario : Scenario V O}
      (enacts : ∀ observation, Enacts (next observation) scenario) :
      Enacts (.observe next) scenario
  | advance {duration : Duration} {next : Workflow V O} {scenario : Scenario V O}
      (enacts : Enacts next scenario) : Enacts (.advance duration next) scenario

end Workflow

namespace OperationLog

/-- The log recalls every call of the rest of a scenario, after declarations of some names,
up to its end or to the error that halts it. -/
inductive Recounts (log : OperationLog) : Scenario V O → Nat → List (String × Nat) →
    Except DurableError O → Prop where
  | done (outcome : Except DurableError O) (position : Nat) (names : List (String × Nat)) :
      Recounts log (.done outcome) position names outcome
  | step {name : String} {semantics : StepSemantics} {codec : Codec V}
      {next : Except DurableError V → Scenario V O} {position : Nat}
      {names : List (String × Nat)} {outcome : Except DurableError V}
      {ending : Except DurableError O}
      (recalls : log.RecallsStep position names name semantics codec outcome)
      (goesOn : Invocation.haltOf? outcome = none)
      (rest : Recounts log (next outcome) (position + 1) (names ++ [(name, position)]) ending) :
      Recounts log (.step name semantics codec next) position names ending
  | stepHalts {name : String} {semantics : StepSemantics} {codec : Codec V}
      {next : Except DurableError V → Scenario V O} {position : Nat}
      {names : List (String × Nat)} {error : DurableError}
      (recalls : log.RecallsStep position names name semantics codec (.error error))
      (halts : Halt.ofError? error = some (.fatal error)) :
      Recounts log (.step name semantics codec next) position names (.error error)
  | wait {name : String} {next : Except DurableError Unit → Scenario V O} {position : Nat}
      {names : List (String × Nat)} {outcome : Except DurableError Unit}
      {ending : Except DurableError O}
      (recalls : log.RecallsWait position names name outcome)
      (goesOn : Invocation.haltOf? outcome = none)
      (rest : Recounts log (next outcome) (position + 1) (names ++ [(name, position)]) ending) :
      Recounts log (.wait name next) position names ending
  | waitHalts {name : String} {next : Except DurableError Unit → Scenario V O} {position : Nat}
      {names : List (String × Nat)} {error : DurableError}
      (recalls : log.RecallsWait position names name (.error error))
      (halts : Halt.ofError? error = some (.fatal error)) :
      Recounts log (.wait name next) position names (.error error)

theorem recordFor_fresh {log : OperationLog} {position : Nat} {names : List (String × Nat)}
    {kind : OperationKind} {name : String}
    (goesOn : ∀ error, log.recordFor position names kind name = .error error →
      Halt.ofError? error = none) :
    (names.find? (·.1 == name)).map Prod.snd = none := by
  cases known : (names.find? (·.1 == name)).map Prod.snd with
  | none => rfl
  | some first => cases goesOn _ (recordFor_of_known known)

theorem RecallsStep.fresh {log : OperationLog} {position : Nat} {names : List (String × Nat)}
    {name : String} {semantics : StepSemantics} {codec : Codec V}
    {outcome : Except DurableError V}
    (recalls : log.RecallsStep position names name semantics codec outcome)
    (goesOn : Invocation.haltOf? outcome = none) :
    (names.find? (·.1 == name)).map Prod.snd = none := by
  cases recalls with
  | refused refused =>
      apply recordFor_fresh
      intro error same
      cases refused.symm.trans same
      exact goesOn
  | recorded found settled told => exact (recordFor_eq_ok found).1

theorem RecallsWait.fresh {log : OperationLog} {position : Nat} {names : List (String × Nat)}
    {name : String} {outcome : Except DurableError Unit}
    (recalls : log.RecallsWait position names name outcome)
    (goesOn : Invocation.haltOf? outcome = none) :
    (names.find? (·.1 == name)).map Prod.snd = none := by
  cases recalls with
  | refused refused =>
      apply recordFor_fresh
      intro error same
      cases refused.symm.trans same
      exact goesOn
  | recorded found told => exact (recordFor_eq_ok found).1

end OperationLog

namespace Invocation

/-- How an invocation ends whose workflow returns this outcome: what halted it decides. -/
def ending (final : Invocation V) (outcome : Except DurableError O) : Except DurableError O :=
  match final.halt with
  | none => outcome
  | some halt => .error halt.toError

theorem ending_of_free {final : Invocation V} (free : final.halt = none)
    (outcome : Except DurableError O) : final.ending outcome = outcome := by
  simp only [ending, free]

theorem ending_of_halted {final : Invocation V} {halt : Halt} (halted : final.halt = some halt)
    (outcome : Except DurableError O) : final.ending outcome = .error halt.toError := by
  simp only [ending, halted]

theorem haltOf?_eq_fatal {outcome : Except DurableError α} {error : DurableError}
    (halts : haltOf? outcome = some (.fatal error)) :
    outcome = .error error ∧ Halt.ofError? error = some (.fatal error) := by
  cases outcome with
  | ok value => cases halts
  | error found =>
      have same : found = error := by
        cases found <;> simp_all [haltOf?, Halt.ofError?, DurableError.isFatal]
      rw [same] at halts
      exact ⟨congrArg Except.error same, halts⟩

/-- What is recorded at the ordinals that a pass has gone past stays as it is. -/
theorem passed_preserved (ordinal : Nat) (found : Option Operation) :
    Preserved (fun _ : StepCall V => True)
      (fun invocation => ordinal < invocation.nextOrdinal ∧
        invocation.log.lookup? ordinal = found)
      (fun invocation => invocation.log.lookup? ordinal = found) := by
  have kept : ∀ {before after : Invocation V} {kind : OperationKind} {name : String}
      {emitted : List (Occurrence V)} {halt : Option Halt},
      Called before after kind name emitted halt → OwnRecords before kind name (records emitted) →
      ordinal < before.nextOrdinal → before.log.lookup? ordinal = found →
      ordinal < after.nextOrdinal ∧ after.log.lookup? ordinal = found := by
    intro before after kind name emitted halt called own behind same
    refine ⟨by rw [called.nextOrdinal]; omega, ?_⟩
    rw [called.log, OperationLog.lookup?_insertAll, History.latest?_eq_none, Option.none_or]
    · exact same
    · intro operation member here
      have ordinal := (own.own operation member).1
      omega
  refine ⟨And.right, ?_, ?_, ?_⟩
  · rintro before after emitted extension isQuiet place ⟨behind, same⟩
    rw [place.nextOrdinal, extension.lookup?, isQuiet.records]
    exact ⟨behind, same⟩
  · rintro before after call reply middle _ free course called ⟨behind, same⟩
    have own := course.ownRecords
    rw [← (reply.returning_quiet call.name after).records_append] at own
    have further := kept called own behind same
    exact ⟨further.2, fun _ => further⟩
  · rintro before after call outcome middle free course called ⟨behind, same⟩
    have own : OwnRecords before .timer call.name (records (middle
        ++ [⟨after.now, .waitReturned call.name outcome after.isReplaying⟩])) := by
      simpa [Effect.record?] using course.ownRecords
    exact kept called own behind same

theorem Called.names_of_fresh {before after : Invocation V} {kind : OperationKind} {name : String}
    {emitted : List (Occurrence V)} {halt : Option Halt}
    (called : Called before after kind name emitted halt)
    (fresh : before.declaredAt? name = none) :
    after.names = before.names ++ [(name, before.nextOrdinal)] := by
  rw [called.names]
  simp only [declare, fresh]

/-- Between the two states calls were recalled at most, up to an error that halts for good. -/
structure Recalls (before final : Invocation V) : Prop where
  records : records final.occurrences = records before.occurrences
  bodies : bodies final.occurrences = bodies before.occurrences
  log : final.log = before.log
  lasts : Lasts final.halt

namespace Recalls

variable {before after final : Invocation V}

theorem refl (free : before.halt = none) : Recalls before before :=
  ⟨rfl, rfl, rfl, by rw [free]; exact .none⟩

theorem of_idle (recalls : Recalls after final) (idle : Idle before after) :
    Recalls before final :=
  ⟨recalls.records.trans idle.records, recalls.bodies.trans idle.bodies,
    recalls.log.trans idle.log, recalls.lasts⟩

theorem of_called {kind : OperationKind} {name : String} {emitted : List (Occurrence V)}
    {halt : Option Halt} (recalls : Recalls after final)
    (called : Called before after kind name emitted halt) (isQuiet : Quiet emitted) :
    Recalls before final := by
  constructor
  · rw [recalls.records, called.records, isQuiet.records, List.append_nil]
  · rw [recalls.bodies, called.bodies, isQuiet.bodies, List.append_nil]
  · rw [recalls.log, called.log, isQuiet.records, OperationLog.insertAll_nil]
  · exact recalls.lasts

end Recalls

theorem Idle.recounts {before after : Invocation V} (idle : Idle before after)
    {scenario : Scenario V O} {ended : Except DurableError O}
    (recounts : before.log.Recounts scenario before.nextOrdinal before.names ended) :
    after.log.Recounts scenario after.nextOrdinal after.names ended := by
  rw [idle.log, idle.place.nextOrdinal, idle.place.names]
  exact recounts

theorem Called.recounts {before after : Invocation V} {kind : OperationKind} {name : String}
    {emitted : List (Occurrence V)} {halt : Option Halt}
    (called : Called before after kind name emitted halt) (isQuiet : Quiet emitted)
    (fresh : before.declaredAt? name = none) {scenario : Scenario V O}
    {ended : Except DurableError O}
    (recounts : before.log.Recounts scenario (before.nextOrdinal + 1)
      (before.names ++ [(name, before.nextOrdinal)]) ended) :
    after.log.Recounts scenario after.nextOrdinal after.names ended := by
  rw [called.log, isQuiet.records, OperationLog.insertAll_nil, called.nextOrdinal,
    called.names_of_fresh fresh]
  exact recounts

theorem Idle.recalls {before final : Invocation V} (idle : Idle before final)
    {error : DurableError} (halted : before.halt = some (.fatal error)) :
    Recalls before final := by
  refine ⟨idle.records, idle.bodies, idle.log, ?_⟩
  rw [idle.place.halt, halted]
  exact .fatal error

end Invocation

namespace Workflow

theorem lookup?_of_run {workflow : Workflow V O} {before final : Invocation V}
    {ended : PassEnd O} {ordinal : Nat} (behind : ordinal < before.nextOrdinal)
    (ran : workflow.run before = (ended, final)) :
    final.log.lookup? ordinal = before.log.lookup? ordinal := by
  have kept := (Invocation.passed_preserved ordinal _).run workflow.everyStep_true ⟨behind, rfl⟩
  rwa [ran] at kept

theorem ended_of_halted {workflow : Workflow V O} {before final : Invocation V} {halt : Halt}
    {outcome : Except DurableError O} (halted : before.halt = some halt)
    (ran : workflow.run before = (.returned outcome, final)) :
    final.halt = some halt ∧ final.ending outcome = .error halt.toError := by
  obtain ⟨_, _, ranHalted, haltedFinal, _⟩ := workflow.run_halted halted
  rw [ran] at ranHalted
  cases ranHalted
  exact ⟨haltedFinal, Invocation.ending_of_halted haltedFinal outcome⟩

namespace Enacts

variable {workflow : Workflow V O} {scenario : Scenario V O} (enacts : workflow.Enacts scenario)
  {before final : Invocation V} {outcome : Except DurableError O}

include enacts

/-- The log at the end of a pass recalls the calls of the pass, unless the pass was suspended
or the store has failed. -/
theorem recounted {medium : Medium} (lossless : workflow.EveryStep (StepCall.Lossless medium))
    (free : before.halt = none) (ran : workflow.run before = (.returned outcome, final))
    (lasts : Lasts final.halt) :
    final.log.Recounts scenario before.nextOrdinal before.names (final.ending outcome) := by
  induction enacts generalizing before with
  | done given =>
      cases ran
      rw [Invocation.ending_of_free free]
      exact .done _ _ _
  | @step name config codec body next following enacts induction =>
      let call : StepCall V := ⟨name, config, codec, body⟩
      cases stepped : before.step name config codec body with
      | mk reply after =>
          obtain ⟨middle, course, called⟩ := Invocation.step_course free call stepped
          simp only [run, stepped] at ran
          cases reply with
          | crashed => cases ran
          | returned seen =>
              have behind : before.nextOrdinal < after.nextOrdinal := by
                rw [called.nextOrdinal]
                omega
              have kept := lookup?_of_run behind ran
              have decodes : ∀ value payload, codec.encode value = .ok payload →
                  codec.decode payload = .ok value :=
                fun value payload encoded => (lossless.1 value payload encoded).2
              cases halts : Invocation.haltOf? seen with
              | none =>
                  have recalls := course.recalled called decodes (by rw [halts]; exact .none)
                  have fresh := recalls.fresh halts
                  have rest := induction seen halts (lossless.2 seen)
                    (called.halt.trans halts) ran
                  rw [called.nextOrdinal, called.names_of_fresh fresh] at rest
                  exact .step (recalls.congr kept) halts rest
              | some halt =>
                  obtain ⟨halted, ended⟩ := ended_of_halted (called.halt.trans halts) ran
                  rw [halted] at lasts
                  have recalls := course.recalled called decodes (by rw [halts]; exact lasts)
                  obtain ⟨error, rfl⟩ := lasts halt rfl
                  obtain ⟨rfl, fatal⟩ := Invocation.haltOf?_eq_fatal halts
                  rw [ended]
                  exact .stepHalts (recalls.congr kept) fatal
  | @wait name duration next following enacts induction =>
      cases waited : before.wait name duration with
      | mk seen after =>
          obtain ⟨middle, course, called⟩ :=
            Invocation.wait_course free ⟨name, duration⟩ waited
          simp only [run, waited] at ran
          have behind : before.nextOrdinal < after.nextOrdinal := by
            rw [called.nextOrdinal]
            omega
          have kept := lookup?_of_run behind ran
          cases halts : Invocation.haltOf? seen with
          | none =>
              have recalls := course.recalled called (by rw [halts]; exact .none)
              have fresh := recalls.fresh halts
              have rest := induction seen halts (lossless seen) (called.halt.trans halts) ran
              rw [called.nextOrdinal, called.names_of_fresh fresh] at rest
              exact .wait (recalls.congr kept) halts rest
          | some halt =>
              obtain ⟨halted, ended⟩ := ended_of_halted (called.halt.trans halts) ran
              rw [halted] at lasts
              have recalls := course.recalled called (by rw [halts]; exact lasts)
              obtain ⟨error, rfl⟩ := lasts halt rfl
              obtain ⟨rfl, fatal⟩ := Invocation.haltOf?_eq_fatal halts
              rw [ended]
              exact .waitHalts (recalls.congr kept) fatal
  | @log level message next following enacts induction =>
      have idle := Invocation.logCall_idle before level message
      have rest := induction lossless (idle.place.halt.trans free) ran
      rwa [idle.place.nextOrdinal, idle.place.names] at rest
  | observe enacts induction =>
      have idle := Invocation.emit_idle before (.observed before.observation) rfl rfl
      have rest := induction before.observation (lossless _) (idle.place.halt.trans free) ran
      rwa [idle.place.nextOrdinal, idle.place.names] at rest
  | @advance duration next following enacts induction =>
      have idle := Invocation.advance_idle before duration
      have rest := induction lossless (idle.place.halt.trans free) ran
      rwa [idle.place.nextOrdinal, idle.place.names] at rest

/-- A pass whose calls the log recalls does nothing but report, and ends as it is recalled. -/
theorem recalled {ended : Except DurableError O} (free : before.halt = none)
    (recounts : before.log.Recounts scenario before.nextOrdinal before.names ended) :
    ∃ outcome final, workflow.run before = (.returned outcome, final) ∧
      final.ending outcome = ended ∧ Invocation.Recalls before final := by
  induction enacts generalizing before with
  | done given =>
      cases recounts
      exact ⟨_, before, rfl, Invocation.ending_of_free free _, .refl free⟩
  | @step name config codec body next following enacts induction =>
      let call : StepCall V := ⟨name, config, codec, body⟩
      cases stepped : before.step name config codec body with
      | mk reply after =>
          obtain ⟨middle, course, called⟩ := Invocation.step_course free call stepped
          cases recounts with
          | @step _ _ _ _ _ _ seen _ recalls goesOn rest =>
              obtain ⟨rfl, isQuiet⟩ := course.of_recalled recalls
              have silent := isQuiet.append ((Reply.returned seen).returning_quiet call.name after)
              obtain ⟨outcome, final, ran, ending, further⟩ :=
                induction seen goesOn (called.halt.trans goesOn)
                  (called.recounts silent (recalls.fresh goesOn) rest)
              exact ⟨outcome, final, by simp only [run, stepped, ran], ending,
                further.of_called called silent⟩
          | @stepHalts _ _ _ _ _ _ error recalls halts =>
              obtain ⟨rfl, isQuiet⟩ := course.of_recalled recalls
              have halted := called.halt.trans halts
              obtain ⟨outcome, final, ran, idle⟩ := (next (.error error)).run_idle halted
              refine ⟨outcome, final, by simp only [run, stepped, ran], ?_, ?_⟩
              · exact Invocation.ending_of_halted (idle.place.halt.trans halted) outcome
              · apply (idle.recalls halted).of_called called
                exact isQuiet.append (Reply.returning_quiet _ call.name after)
  | @wait name duration next following enacts induction =>
      cases waited : before.wait name duration with
      | mk seen after =>
          obtain ⟨middle, course, called⟩ :=
            Invocation.wait_course free ⟨name, duration⟩ waited
          have returns := Invocation.emit_quiet after
            (.waitReturned name seen after.isReplaying) rfl rfl
          cases recounts with
          | @wait _ _ _ _ recalled _ recalls goesOn rest =>
              obtain ⟨rfl, isQuiet⟩ := course.of_recalled recalls
              have silent := isQuiet.append returns
              obtain ⟨outcome, final, ran, ending, further⟩ :=
                induction seen goesOn (called.halt.trans goesOn)
                  (called.recounts silent (recalls.fresh goesOn) rest)
              exact ⟨outcome, final, by simp only [run, waited, ran], ending,
                further.of_called called silent⟩
          | @waitHalts _ _ _ _ error recalls halts =>
              obtain ⟨rfl, isQuiet⟩ := course.of_recalled recalls
              have halted := called.halt.trans halts
              obtain ⟨outcome, final, ran, idle⟩ := (next (.error error)).run_idle halted
              refine ⟨outcome, final, by simp only [run, waited, ran], ?_, ?_⟩
              · exact Invocation.ending_of_halted (idle.place.halt.trans halted) outcome
              · exact (idle.recalls halted).of_called called (isQuiet.append returns)
  | @log level message next following enacts induction =>
      have idle := Invocation.logCall_idle before level message
      obtain ⟨outcome, final, ran, ending, further⟩ :=
        induction (idle.place.halt.trans free) (idle.recounts recounts)
      exact ⟨outcome, final, ran, ending, further.of_idle idle⟩
  | observe enacts induction =>
      have idle := Invocation.emit_idle before (.observed before.observation) rfl rfl
      obtain ⟨outcome, final, ran, ending, further⟩ :=
        induction before.observation (idle.place.halt.trans free) (idle.recounts recounts)
      exact ⟨outcome, final, ran, ending, further.of_idle idle⟩
  | @advance duration next following enacts induction =>
      have idle := Invocation.advance_idle before duration
      obtain ⟨outcome, final, ran, ending, further⟩ :=
        induction (idle.place.halt.trans free) (idle.recounts recounts)
      exact ⟨outcome, final, ran, ending, further.of_idle idle⟩

end Enacts

end Workflow

theorem Occurrence.none_not_mem_answers {occurrences : List (Occurrence V)}
    (silent : records occurrences = []) : none ∉ answers occurrences := by
  intro member
  obtain ⟨⟨reading, effect⟩, occurred, taken⟩ := List.mem_filterMap.mp member
  cases effect with
  | appended operation =>
      have recorded : operation ∈ records occurrences :=
        List.mem_filterMap.mpr ⟨_, occurred, rfl⟩
      rw [silent] at recorded
      cases recorded
  | _ => simp [Effect.answer?] at taken

/-- An invocation that has recorded nothing, and that no failure of the store has halted, has
not called the store. -/
theorem Invocation.Audited.appends_of_silent {begun invocation : Invocation V}
    (audited : Audited begun invocation) (silent : records invocation.occurrences = [])
    (lasts : Lasts invocation.halt) : invocation.store.appends = begun.store.appends := by
  obtain ⟨taken, answered⟩ := audited.answered
  have unfailing : invocation.halt.bind Halt.failure? = none := by
    cases halted : invocation.halt with
    | none => rfl
    | some halt =>
        obtain ⟨error, rfl⟩ := lasts halt halted
        rfl
  rw [unfailing] at answered
  have nothing : answers invocation.occurrences = [] := by
    cases taken with
    | zero => exact answered
    | succ count =>
        refine absurd ?_ (none_not_mem_answers silent)
        simp [answered, List.replicate_succ]
  have accounted := audited.accounts.answered
  rw [nothing, eq_comm, List.append_eq_nil_iff, Store.answersUpTo, List.map_eq_nil_iff,
    List.range'_eq_nil_iff] at accounted
  have later := audited.accounts.later
  omega

/-- The result of an invocation that has ended for good, with this log. -/
def ExecutionResult.concluded (executionId : String) (log : OperationLog)
    (ending : Except DurableError O) : ExecutionResult O :=
  match ending with
  | .ok output =>
    .ofStatus executionId ⟨none, log.operations, log.nextReadyTime?⟩ .succeeded (some output) none
  | .error error =>
    .ofStatus executionId ⟨none, log.operations, log.nextReadyTime?⟩ .failed none
      (some error.toObject)

namespace PassEnd

theorem verdict_concluded {final : Invocation V} (lasts : Lasts final.halt)
    (executionId : String) (outcome : Except DurableError O) :
    (PassEnd.returned outcome).verdict executionId final =
      .finished (.concluded executionId final.log (final.ending outcome)) := by
  cases halted : final.halt with
  | none =>
      rw [Invocation.ending_of_free halted]
      cases outcome <;>
        simp [verdict, Invocation.close, Snapshot.result, halted, ExecutionResult.concluded,
          ExecutionResult.ofStatus]
  | some halt =>
      obtain ⟨error, rfl⟩ := lasts halt halted
      rw [Invocation.ending_of_halted halted]
      simp [verdict, Invocation.close, Snapshot.result, halted, ExecutionResult.concluded,
        ExecutionResult.ofStatus, Halt.toError]

/-- An invocation that ends for good was neither suspended nor failed by its store. -/
theorem lasts_of_terminal {ending : PassEnd O} {final : Invocation V} {executionId : String}
    {result : ExecutionResult O} (finished : ending.verdict executionId final = .finished result)
    (terminal : result.isTerminal = true) :
    ∃ outcome, ending = .returned outcome ∧ Lasts final.halt := by
  cases ending with
  | crashed => cases finished
  | returned outcome =>
      refine ⟨outcome, rfl, ?_⟩
      intro halt halted
      cases halt with
      | fatal error => exact ⟨error, rfl⟩
      | suspended wake =>
          simp only [verdict, Invocation.close, Snapshot.result, halted] at finished
          cases finished
          cases terminal
      | store error =>
          simp only [verdict, Invocation.close, Snapshot.result, halted] at finished
          cases finished

end PassEnd

/-- The log that is loaded from the medium recounts the whole scenario. -/
structure Scenario.Told (scenario : Scenario V O) (executionId : String) (medium : Medium)
    (log : OperationLog) (ended : Except DurableError O) : Prop where
  read : ∀ history, medium.history executionId = .ok history →
    .ofRecords executionId (History.latestStates history) = log
  recounts : log.Recounts scenario 0 [] ended

namespace Visit

variable {visit : Visit V O} {scenario : Scenario V O} {executionId : String} {store : Store}

/-- An invocation that ends for good leaves a medium from which its log is loaded, which
recounts the scenario up to the end. -/
theorem told_of_terminal (enacts : visit.workflow.Enacts scenario)
    (lossless : visit.workflow.EveryStep (StepCall.Lossless store.medium))
    (genuine : ∀ table, store.medium = .table table → visit.clock.now.Genuine)
    {result : ExecutionResult O}
    (finished : (visit.answer executionId store).verdict = .finished result)
    (terminal : result.isTerminal = true) :
    ∃ log ended, result = .concluded executionId log ended ∧
      scenario.Told executionId (visit.answer executionId store).store.medium log ended := by
  have preserved := Visit.preserved executionId lossless genuine
  have appended := visit.answer_medium executionId store
  rcases visit.answer_cases executionId store with
    ⟨error, after, failed, answered⟩ |
      ⟨log, after, ending, final, closing, loaded, ran, closingQuiet, occurrences, left, verdict⟩
  · rw [answered] at finished
    cases finished
  · rw [verdict] at finished
    rw [occurrences, closingQuiet.records_append] at preserved appended
    obtain ⟨outcome, rfl, lasts⟩ := PassEnd.lasts_of_terminal finished terminal
    rw [PassEnd.verdict_concluded lasts] at finished
    cases finished
    refine ⟨final.log, final.ending outcome, rfl, ?_, ?_⟩
    · obtain ⟨history, read, rfl, _⟩ := OperationLog.load_ok loaded
      intro again readAgain
      rw [appended] at readAgain
      rw [Medium.history_preserved preserved read readAgain]
      have refines := (OperationLog.ofRecords_refines executionId history).insertAll
        (records final.occurrences)
      have reached := (reached_of_run ran).log
      rw [begun_log] at reached
      rw [← reached] at refines
      have execution : final.log.executionId = executionId := by
        rw [reached, OperationLog.insertAll_executionId]
        exact OperationLog.ofRecords_executionId _ _
      have unique := refines.eq_ofRecords
      rw [execution] at unique
      exact unique.symm
    · exact enacts.recounted lossless rfl ran lasts

/-- A visit that finds such a log does nothing but report, and ends in the same way. -/
theorem recalled_of_told (enacts : visit.workflow.Enacts scenario) {log loaded : OperationLog}
    {ended : Except DurableError O} (told : scenario.Told executionId store.medium log ended)
    {after : Store} (loads : OperationLog.load store executionId = (.ok loaded, after)) :
    (visit.answer executionId store).verdict = .finished (.concluded executionId log ended) ∧
      bodies (visit.answer executionId store).occurrences = [] ∧
      (visit.answer executionId store).store.medium = store.medium ∧
      (visit.answer executionId store).store.appends = store.appends := by
  obtain ⟨history, read, same, _, _, sameAppends⟩ := OperationLog.load_ok loads
  obtain rfl : loaded = log := same.trans (told.read history read)
  obtain ⟨ending, final, closing, ran, closingQuiet, occurrences, left, verdict⟩ :=
    visit.answer_of_loaded loads
  have free : (visit.begun executionId loaded after).halt = none := rfl
  obtain ⟨outcome, found, ranFound, endsSo, recalls⟩ := enacts.recalled free told.recounts
  rw [ran] at ranFound
  cases ranFound
  have begunQuiet := visit.begun_quiet executionId loaded after
  have silent : records final.occurrences = [] := recalls.records.trans begunQuiet.records
  have begins : Invocation.Audited (visit.begun executionId loaded after)
      (visit.begun executionId loaded after) := ⟨.refl _, .taken 0 rfl⟩
  have audited := (visit.workflow.run_audited begins).1
  rw [ran] at audited
  refine ⟨?_, ?_, ?_, ?_⟩
  · rw [verdict, PassEnd.verdict_concluded recalls.lasts, endsSo, recalls.log, begun_log]
  · rw [occurrences, closingQuiet.bodies_append, recalls.bodies, begunQuiet.bodies]
  · rw [answer_medium, occurrences, closingQuiet.records_append, silent, Medium.appendAll_nil]
  · rw [left, audited.appends_of_silent silent recalls.lasts, begun_store, sameAppends]

theorem medium_of_told (enacts : visit.workflow.Enacts scenario) {log : OperationLog}
    {ended : Except DurableError O} (told : scenario.Told executionId store.medium log ended) :
    (visit.answer executionId store).store.medium = store.medium := by
  cases loading : OperationLog.load store executionId with
  | mk loaded after =>
      cases loaded with
      | error error =>
          have frame := (OperationLog.load_frame store executionId).1
          rw [loading] at frame
          simp only [answer, Execution.invoke, loading]
          exact frame
      | ok loaded => exact (recalled_of_told enacts told loading).2.2.1

end Visit

theorem Session.medium_of_told {scenario : Scenario V O} {executionId : String} {store : Store}
    {visits : List (Visit V O)} (enact : ∀ visit ∈ visits, visit.workflow.Enacts scenario)
    {log : OperationLog} {ended : Except DurableError O}
    (told : scenario.Told executionId store.medium log ended) :
    (storeAfter executionId store visits).medium = store.medium := by
  induction visits generalizing store with
  | nil => rfl
  | cons visit rest induction =>
      have head := Visit.medium_of_told (enact visit List.mem_cons_self) told
      rw [← head] at told
      have tail := induction (fun later member => enact later (List.mem_cons_of_mem _ member)) told
      exact tail.trans head

/-- Terminal executions are fixed points.  Over any store, let an invocation of a deterministic
workflow end SUCCEEDED or FAILED.  Whatever the store holds of other executions later, and
whatever its faults, every later invocation of the workflow that loads its log runs no body,
appends nothing and returns the same result, at any clock reading, when only the workflow
itself was invoked in between.  The values of the steps have to survive encoding, the medium
and decoding; over a table the first clock shows a genuine instant. -/
theorem terminal_execution_is_fixed {scenario : Scenario V O} {executionId : String}
    {store later : Store} {visit again : Visit V O} {between : List (Visit V O)}
    {result : ExecutionResult O} (enacts : visit.workflow.Enacts scenario)
    (lossless : visit.workflow.EveryStep (StepCall.Lossless store.medium))
    (genuine : ∀ table, store.medium = .table table → visit.clock.now.Genuine)
    (finished : (visit.answer executionId store).verdict = .finished result)
    (terminal : result.isTerminal = true)
    (kept : later.medium.history executionId =
      (visit.answer executionId store).store.medium.history executionId)
    (enactLater : ∀ visited ∈ between ++ [again], visited.workflow.Enacts scenario) :
    let found := Session.storeAfter executionId later between
    ∀ log after, OperationLog.load found executionId = (.ok log, after) →
      (again.answer executionId found).verdict = .finished result ∧
        bodies (again.answer executionId found).occurrences = [] ∧
        (again.answer executionId found).store.medium = found.medium ∧
        (again.answer executionId found).store.appends = found.appends := by
  intro found log after loads
  obtain ⟨ended, outcome, rfl, toldFirst⟩ :=
    Visit.told_of_terminal enacts lossless genuine finished terminal
  have told : scenario.Told executionId later.medium ended outcome := by
    refine ⟨?_, toldFirst.recounts⟩
    rw [kept]
    exact toldFirst.read
  have untouched : found.medium = later.medium :=
    Session.medium_of_told
      (fun visited member => enactLater visited (List.mem_append_left _ member)) told
  rw [← untouched] at told
  exact Visit.recalled_of_told (enactLater again (by simp)) told loads

/-- A step was begun by a process that died in it: the first visit reports the interruption
and ends, and so do the visits after it. -/
theorem interrupted_execution_stays_ended :
    let begun := (Operation.step 0 "x").withState (.started 1)
    let store := Store.ofMedium (.memory [("run", begun)]) .none
    let first := Visit.ofOneStep.answer "run" store
    ∃ result, first.verdict = .finished result ∧ result.isTerminal = true ∧
      result.operations = [begun.annotated] ∧
      (Visit.ofOneStep.answer "run" (Visit.ofOneStep.answer "run" first.store).store).verdict =
        .finished result := by
  intro begun store first
  have enacts : Visit.ofOneStep.workflow.Enacts (.step "x" .atMostOnce
      ⟨fun _ => .ok .null, fun _ => .ok ()⟩ fun _ => .done (.ok ())) :=
    .step fun _ _ => .done _
  have lossless : Visit.ofOneStep.workflow.EveryStep (StepCall.Lossless store.medium) := by
    refine ⟨?_, fun _ => trivial⟩
    intro value payload encoded
    cases encoded
    exact ⟨rfl, rfl⟩
  have enactLater : ∀ visited ∈ [Visit.ofOneStep] ++ [Visit.ofOneStep],
      visited.workflow.Enacts (.step "x" .atMostOnce ⟨fun _ => .ok .null, fun _ => .ok ()⟩
        fun _ => .done (.ok ())) := by
    intro visited member
    obtain rfl : visited = Visit.ofOneStep := by simpa using member
    exact enacts
  refine ⟨_, rfl, rfl, rfl, ?_⟩
  exact (terminal_execution_is_fixed enacts lossless (fun _ isTable => by cases isTable) rfl rfl
    (Eq.refl (first.store.medium.history "run")) enactLater _ _ rfl).1

end Durable
