import Durable.Proofs.OrderlyLog

/-!
# The calls of a pass

A pass is a sequence of calls, each made in some state of the invocation and answered
by a reply.  What is kept along the pass holds before each of its calls, and what is
established after a call and kept from there on holds at its end.
-/

namespace Durable

variable {V O : Type}

/-- A call as it is declared. -/
inductive Declaration (V : Type) where
  | step (call : StepCall V)
  | wait (call : WaitCall)

/-- A call of a pass, with the invocation that it was made in. -/
structure MadeCall (V : Type) where
  before : Invocation V
  declaration : Declaration V

namespace Reply

/-- The reply with another form of its value. -/
def map {α β : Type} (form : α → β) : Reply α → Reply β
  | .crashed => .crashed
  | .returned outcome => .returned (outcome.map form)

@[simp] theorem map_eq_crashed {α β : Type} {form : α → β} {reply : Reply α} :
    reply.map form = .crashed ↔ reply = .crashed := by
  cases reply <;> simp [map]

@[simp] theorem map_eq_error {α β : Type} {form : α → β} {reply : Reply α}
    {error : DurableError} :
    reply.map form = .returned (.error error) ↔ reply = .returned (.error error) := by
  cases reply with
  | crashed => simp [map]
  | returned outcome => cases outcome <;> simp [map, Except.map]

end Reply

namespace MadeCall

/-- The reply of the call and the invocation after it; an elapsed wait gives no
value. -/
def result (made : MadeCall V) : Reply (Option V) × Invocation V :=
  match made.declaration with
  | .step call =>
    match made.before.step call.name call.config call.codec call.body with
    | (.crashed, after) => (.crashed, after)
    | (.returned outcome, after) => (.returned (outcome.map some), after)
  | .wait call =>
    let (outcome, after) := made.before.wait call.name call.duration
    (.returned (outcome.map fun _ => none), after)

def reply (made : MadeCall V) : Reply (Option V) :=
  made.result.1

def after (made : MadeCall V) : Invocation V :=
  made.result.2

theorem result_of_step {before after : Invocation V} {call : StepCall V} {reply : Reply V}
    (stepped : before.step call.name call.config call.codec call.body = (reply, after)) :
    (MadeCall.mk before (.step call)).result = (reply.map some, after) := by
  simp only [result, stepped]
  cases reply <;> rfl

variable {made : MadeCall V}

theorem step_called {call : StepCall V} (free : made.before.halt = none)
    (declared : made.declaration = .step call) :
    ∃ reply middle, StepCourse made.before call reply middle ∧
      Invocation.Called made.before made.after .step call.name
        (middle ++ reply.returning call.name made.after) reply.halt? ∧
      made.reply = reply.map some := by
  obtain ⟨before, declaration⟩ := made
  obtain rfl : declaration = .step call := declared
  cases stepped : before.step call.name call.config call.codec call.body with
  | mk reply after =>
      obtain ⟨middle, course, called⟩ := Invocation.step_course free call stepped
      rw [MadeCall.after, MadeCall.reply, result_of_step stepped]
      exact ⟨reply, middle, course, called, rfl⟩

theorem wait_called {call : WaitCall} (free : made.before.halt = none)
    (declared : made.declaration = .wait call) :
    ∃ outcome middle, WaitCourse made.before call outcome middle ∧
      Invocation.Called made.before made.after .timer call.name
        (middle ++ [⟨made.after.now, .waitReturned call.name outcome made.after.isReplaying⟩])
        (Invocation.haltOf? outcome) ∧
      made.reply = .returned (outcome.map fun _ => none) := by
  obtain ⟨before, declaration⟩ := made
  obtain rfl : declaration = .wait call := declared
  cases waited : before.wait call.name call.duration with
  | mk outcome after =>
      obtain ⟨middle, course, called⟩ := Invocation.wait_course free call waited
      have same : (MadeCall.mk before (.wait call)).result =
          (.returned (outcome.map fun _ => none), after) := by
        simp only [result, waited]
      rw [MadeCall.after, MadeCall.reply, same]
      exact ⟨outcome, middle, course, called, rfl⟩

end MadeCall

namespace Workflow

/-- The calls of a pass, in order. -/
def calls : Workflow V O → Invocation V → List (MadeCall V)
  | .done _, _ => []
  | .step name config codec body next, invocation =>
    ⟨invocation, .step ⟨name, config, codec, body⟩⟩ ::
      match invocation.step name config codec body with
      | (.crashed, _) => []
      | (.returned outcome, after) => (next outcome).calls after
  | .wait name duration next, invocation =>
    ⟨invocation, .wait ⟨name, duration⟩⟩ ::
      match invocation.wait name duration with
      | (outcome, after) => (next outcome).calls after
  | .log level message next, invocation => next.calls (invocation.logCall level message)
  | .observe next, invocation =>
    (next invocation.observation).calls (invocation.emit (.observed invocation.observation))
  | .advance duration next, invocation => next.calls (invocation.advance duration)

/-- A call that crashed is the last one of its pass.  What follows any other call is the
pass of the rest of the workflow, from the invocation that the call left. -/
theorem calls_split {workflow : Workflow V O} {before : Invocation V}
    {passed later : List (MadeCall V)} {made : MadeCall V}
    (split : workflow.calls before = passed ++ made :: later) :
    (made.reply = .crashed ∧ later = [] ∧ (workflow.run before).1 = .crashed) ∨
      ∃ rest : Workflow V O, made.reply ≠ .crashed ∧ later = rest.calls made.after ∧
        workflow.run before = rest.run made.after ∧
        ∀ condition, workflow.EveryStep condition → rest.EveryStep condition := by
  induction workflow generalizing before passed with
  | done outcome => simp [calls] at split
  | step name config codec body next induction =>
      cases stepped : before.step name config codec body with
      | mk reply after =>
          simp only [calls, run, stepped] at split ⊢
          cases passed with
          | nil =>
              simp only [List.nil_append, List.cons.injEq] at split
              obtain ⟨rfl, rfl⟩ := split
              cases reply with
              | crashed => simp [MadeCall.reply, MadeCall.result, stepped]
              | returned outcome =>
                  refine .inr ⟨next outcome, ?_⟩
                  simp only [MadeCall.reply, MadeCall.after, MadeCall.result, stepped]
                  exact ⟨by simp, trivial, trivial, fun condition each => each.2 outcome⟩
          | cons head passed =>
              cases reply with
              | crashed => simp at split
              | returned outcome =>
                  simp only [List.cons_append, List.cons.injEq] at split
                  refine (induction outcome split.2).imp id ?_
                  rintro ⟨rest, returns, same, ran, each⟩
                  exact ⟨rest, returns, same, ran,
                    fun condition every => each condition (every.2 outcome)⟩
  | wait name duration next induction =>
      cases waited : before.wait name duration with
      | mk outcome after =>
          simp only [calls, run, waited] at split ⊢
          cases passed with
          | nil =>
              simp only [List.nil_append, List.cons.injEq] at split
              obtain ⟨rfl, rfl⟩ := split
              refine .inr ⟨next outcome, ?_⟩
              simp only [MadeCall.reply, MadeCall.after, MadeCall.result, waited]
              exact ⟨by simp, trivial, trivial, fun condition each => each outcome⟩
          | cons head passed =>
              simp only [List.cons_append, List.cons.injEq] at split
              refine (induction outcome split.2).imp id ?_
              rintro ⟨rest, returns, same, ran, each⟩
              exact ⟨rest, returns, same, ran,
                fun condition every => each condition (every outcome)⟩
  | log level message next induction => exact induction split
  | observe next induction =>
      refine (induction before.observation split).imp id ?_
      rintro ⟨rest, returns, same, ran, each⟩
      exact ⟨rest, returns, same, ran,
        fun condition every => each condition (every before.observation)⟩
  | advance duration next induction => exact induction split

end Workflow

namespace Invocation

namespace Preserved

variable {condition : StepCall V → Prop} {property final : Invocation V → Prop}

/-- What every part of a pass keeps holds before each call, and a step that is
called satisfies the condition. -/
theorem calls (preserved : Preserved condition property final) {workflow : Workflow V O}
    (each : workflow.EveryStep condition) {before : Invocation V} (holds : property before)
    {made : MadeCall V} (member : made ∈ workflow.calls before) :
    property made.before ∧ ∀ call, made.declaration = .step call → condition call := by
  induction workflow generalizing before with
  | done outcome => simp [Workflow.calls] at member
  | step name config codec body next induction =>
      simp only [Workflow.calls, List.mem_cons] at member
      rcases member with rfl | later
      · refine ⟨holds, ?_⟩
        intro call same
        cases same
        exact each.1
      · split at later
        · simp at later
        · next outcome after stepped =>
            have kept := (preserved.stepCall each.1 stepped holds).2 (by simp)
            exact induction outcome (each.2 outcome) kept later
  | wait name duration next induction =>
      simp only [Workflow.calls, List.mem_cons] at member
      rcases member with rfl | later
      · exact ⟨holds, by simp⟩
      · have waited :=
          preserved.waitCall ⟨name, duration⟩ (Eq.refl (before.wait name duration)) holds
        exact induction _ (each _) waited later
  | log level message next induction =>
      exact induction each (preserved.logCall level message holds) member
  | observe next induction =>
      exact induction before.observation (each before.observation) (preserved.observe holds)
        member
  | advance duration next induction =>
      exact induction each (preserved.advance duration holds) member

theorem runAfter (preserved : Preserved condition property final) {workflow : Workflow V O}
    (each : workflow.EveryStep condition) {before : Invocation V} {made : MadeCall V}
    (member : made ∈ workflow.calls before) (returns : made.reply ≠ .crashed)
    (holds : property made.after) : final (workflow.run before).2 := by
  obtain ⟨passed, later, split⟩ := List.append_of_mem member
  rcases Workflow.calls_split split with ⟨crashes, _⟩ | ⟨rest, _, _, ran, every⟩
  · exact absurd crashes returns
  · rw [ran]
    exact preserved.run (every condition each) holds

end Preserved

theorem behind_preserved (ordinal : Nat) :
    Preserved (fun _ : StepCall V => True) (fun invocation => ordinal < invocation.nextOrdinal)
      fun invocation => ordinal < invocation.nextOrdinal := by
  refine ⟨id, ?_, ?_, ?_⟩
  · intro before after emitted _ _ place behind
    rw [place.nextOrdinal]
    exact behind
  · intro before after call reply middle _ _ _ called behind
    have further : ordinal < after.nextOrdinal := by
      rw [called.nextOrdinal]
      exact Nat.lt_succ_of_lt behind
    exact ⟨further, fun _ => further⟩
  · intro before after call outcome middle _ _ called behind
    rw [called.nextOrdinal]
    exact Nat.lt_succ_of_lt behind

end Invocation

/-- As long as the invocation is not halted, every call has an ordinal of its own. -/
theorem Workflow.calls_apart (workflow : Workflow V O) (before : Invocation V) :
    (workflow.calls before).Pairwise fun made later =>
      made.before.halt = none → made.before.nextOrdinal < later.before.nextOrdinal := by
  induction workflow generalizing before with
  | done outcome => exact .nil
  | step name config codec body next induction =>
      cases stepped : before.step name config codec body with
      | mk reply after =>
          simp only [calls, stepped]
          cases reply with
          | crashed => exact List.pairwise_singleton _ _
          | returned outcome =>
              refine List.pairwise_cons.mpr ⟨?_, induction outcome after⟩
              intro later member free
              obtain ⟨middle, _, called⟩ :=
                Invocation.step_course free ⟨name, config, codec, body⟩ stepped
              have behind : before.nextOrdinal < after.nextOrdinal := by
                rw [called.nextOrdinal]
                exact Nat.lt_succ_self _
              exact ((Invocation.behind_preserved before.nextOrdinal).calls
                (next outcome).everyStep_true behind member).1
  | wait name duration next induction =>
      cases waited : before.wait name duration with
      | mk outcome after =>
          simp only [calls, waited]
          refine List.pairwise_cons.mpr ⟨?_, induction outcome after⟩
          intro later member free
          obtain ⟨middle, _, called⟩ := Invocation.wait_course free ⟨name, duration⟩ waited
          have behind : before.nextOrdinal < after.nextOrdinal := by
            rw [called.nextOrdinal]
            exact Nat.lt_succ_self _
          exact ((Invocation.behind_preserved before.nextOrdinal).calls
            (next outcome).everyStep_true behind member).1
  | log level message next induction => exact induction _
  | observe next induction => exact induction _ _
  | advance duration next induction => exact induction _

namespace Visit

/-- The calls of a visit; there are none when the log cannot be loaded. -/
def calls (visit : Visit V O) (executionId : String) (store : Store) : List (MadeCall V) :=
  match OperationLog.load store executionId with
  | (.error _, _) => []
  | (.ok log, after) => visit.workflow.calls (visit.begun executionId log after)

theorem mem_calls {visit : Visit V O} {executionId : String} {store : Store}
    {made : MadeCall V} (member : made ∈ visit.calls executionId store) :
    ∃ log after, OperationLog.load store executionId = (.ok log, after) ∧
      made ∈ visit.workflow.calls (visit.begun executionId log after) := by
  unfold calls at member
  split at member
  · simp at member
  · next log after loaded => exact ⟨log, after, loaded, member⟩

/-- What is established after a call of a visit, and is kept from there on, holds at the
end of its pass. -/
theorem answer_after {visit : Visit V O} {executionId : String} {store : Store}
    {condition : StepCall V → Prop} {property final : Invocation V → Prop}
    (preserved : Invocation.Preserved condition property final)
    (each : visit.workflow.EveryStep condition) {made : MadeCall V}
    (member : made ∈ visit.calls executionId store) (returns : made.reply ≠ .crashed)
    (holds : property made.after) :
    ∃ ended closing, final ended ∧ Occurrence.Quiet closing ∧
      (visit.answer executionId store).occurrences = ended.occurrences ++ closing := by
  obtain ⟨log, after, loaded, made⟩ := mem_calls member
  obtain ⟨ending, ended, closing, ran, closingQuiet, occurrences, _⟩ :=
    visit.answer_of_loaded loaded
  have lasts := preserved.runAfter each made returns holds
  rw [ran] at lasts
  exact ⟨ended, closing, lasts, closingQuiet, occurrences⟩

end Visit

namespace Declaration

def kind : Declaration V → OperationKind
  | .step _ => .step
  | .wait _ => .timer

def name : Declaration V → String
  | .step call => call.name
  | .wait call => call.name

/-- The same kind, name and result type. -/
def Agrees : Declaration V → Declaration V → Prop
  | .step first, .step second => first.name = second.name ∧ first.codec = second.codec
  | .wait first, .wait second => first.name = second.name
  | _, _ => False

/-- The outcome of a call as the record of its operation tells it. -/
def outcomeIn? (declaration : Declaration V) (record : Operation) :
    Option (Except DurableError (Option V)) :=
  match declaration with
  | .step call => (record.outcome? call.codec).map fun outcome => outcome.map some
  | .wait _ => record.elapse?.map fun outcome => outcome.map fun _ => none

theorem Agrees.facts {first second : Declaration V} (agrees : first.Agrees second) :
    second.kind = first.kind ∧ second.name = first.name ∧
      ∀ record, second.outcomeIn? record = first.outcomeIn? record := by
  cases first with
  | step first =>
      cases second with
      | step second => exact ⟨rfl, agrees.1.symm, fun record => by simp [outcomeIn?, agrees.2]⟩
      | wait second => exact agrees.elim
  | wait first =>
      cases second with
      | step second => exact agrees.elim
      | wait second => exact ⟨rfl, agrees.symm, fun record => rfl⟩

end Declaration

theorem Medium.GivesBack.outcomeIn?_unique {medium : Medium} {written read again : Operation}
    (given : medium.GivesBack written read) (givenAgain : medium.GivesBack written again)
    (declaration : Declaration V) : declaration.outcomeIn? again = declaration.outcomeIn? read := by
  cases declaration with
  | step call => simp only [Declaration.outcomeIn?, given.outcome?_unique givenAgain]
  | wait call => simp only [Declaration.outcomeIn?, given.elapse?, givenAgain.elapse?]

theorem Invocation.haltOf?_map (outcome : Except DurableError α) (f : α → β) :
    haltOf? (outcome.map f) = haltOf? outcome := by
  cases outcome <;> rfl

namespace MadeCall

variable {made : MadeCall V} {semantics : String → StepSemantics} {medium : Medium}

/-- A call with whose outcome the workflow goes on leaves a settled record. -/
theorem settles (free : made.before.halt = none)
    (steady : ∀ call, made.declaration = .step call → call.Steady semantics medium)
    {outcome : Except DurableError (Option V)} (returned : made.reply = .returned outcome)
    (goesOn : Invocation.haltOf? outcome = none) :
    ∃ emitted, Invocation.Called made.before made.after made.declaration.kind
        made.declaration.name emitted none ∧
      ∃ record, record.kind = made.declaration.kind ∧ record.name = made.declaration.name ∧
        record.Settled semantics ∧
        Leaves made.before medium (Occurrence.records emitted)
          (fun read => made.declaration.outcomeIn? read = some outcome) record := by
  cases declared : made.declaration with
  | step call =>
      obtain ⟨reply, middle, course, called, replied⟩ := step_called free declared
      rw [replied] at returned
      cases reply with
      | crashed => cases returned
      | returned seen =>
          cases returned
          rw [Invocation.haltOf?_map] at goesOn
          obtain ⟨_, record, kind, name, settled, leaves⟩ :=
            course.settles goesOn (steady call declared)
          rw [Reply.halt?, goesOn] at called
          refine ⟨_, called, record, kind, name, settled, ?_⟩
          rw [(Reply.returning_quiet _ _ _).records_append]
          exact leaves.imp fun read told => by simp only [Declaration.outcomeIn?, told,
            Option.map_some]
  | wait call =>
      obtain ⟨seen, middle, course, called, replied⟩ := wait_called free declared
      rw [replied] at returned
      cases returned
      rw [Invocation.haltOf?_map] at goesOn
      obtain ⟨_, record, kind, name, settled, leaves⟩ :=
        course.settles semantics medium goesOn
      rw [goesOn] at called
      refine ⟨_, called, record, kind, name, settled, ?_⟩
      have sameRecords : Occurrence.records (middle
          ++ [⟨made.after.now, .waitReturned call.name seen made.after.isReplaying⟩]) =
          Occurrence.records middle := by
        simp [Effect.record?]
      rw [sameRecords]
      exact leaves.imp fun read told => by simp only [Declaration.outcomeIn?, told,
        Option.map_some]

/-- A call that finds the settled record of its operation recalls the outcome, appends
nothing and runs no body. -/
theorem of_settled (free : made.before.halt = none)
    (agreed : ∀ call, made.declaration = .step call → call.Agreed semantics)
    {record : Operation}
    (found : made.before.log.lookup? made.before.nextOrdinal = some record)
    (settled : record.Settled semantics)
    (fresh : made.before.declaredAt? made.declaration.name = none)
    (kind : record.kind = made.declaration.kind) (name : record.name = made.declaration.name)
    {outcome : Except DurableError (Option V)}
    (told : made.declaration.outcomeIn? record = some outcome) :
    made.reply = .returned outcome ∧
      Occurrence.records made.after.occurrences = Occurrence.records made.before.occurrences ∧
      Occurrence.bodies made.after.occurrences = Occurrence.bodies made.before.occurrences := by
  cases declared : made.declaration with
  | step call =>
      rw [declared] at fresh kind name told
      obtain ⟨reply, middle, course, called, replied⟩ := step_called free declared
      obtain ⟨isQuiet, recalls⟩ := course.of_settled found settled (agreed call declared)
      obtain ⟨seen, rfl, tells⟩ := recalls fresh kind name
      simp only [Declaration.outcomeIn?, tells, Option.map_some, Option.some.injEq] at told
      have returning := (Reply.returned seen).returning_quiet call.name made.after
      refine ⟨by rw [replied, Reply.map, told], ?_, ?_⟩
      · rw [called.records, returning.records_append, isQuiet.records, List.append_nil]
      · rw [called.bodies, returning.bodies_append, isQuiet.bodies, List.append_nil]
  | wait call =>
      rw [declared] at fresh kind name told
      obtain ⟨seen, middle, course, called, replied⟩ := wait_called free declared
      obtain ⟨isQuiet, recalls⟩ := course.of_settled found settled
      obtain ⟨tells, elapses, rfl⟩ := Option.map_eq_some_iff.mp told
      have same := recalls fresh kind name tells elapses
      subst same
      refine ⟨replied, ?_, ?_⟩
      · simp [called.records, isQuiet.records, Effect.record?]
      · simp [called.bodies, isQuiet.bodies, Effect.isBody]

end MadeCall

end Durable
