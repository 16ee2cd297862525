import Durable.Proofs.LogCalls
import Durable.Proofs.Plan

/-!
# Narratives

The narrative of a deterministic workflow is its plan with its log calls: those between the
calls, and those of every attempt of a step.  The reference log of a narrative is what one
walk along it logs, in which a wait is over at once and a step makes its attempts in a row.
An execution that has come some way has logged what its records are evidence of.
-/

namespace Durable

variable {V O : Type}

/-- A task of which the log calls of an attempt depend on its number only. -/
structure LoggedTask (V : Type) extends Task V where
  remarks : Nat → List Remark

namespace LoggedTask

/-- What an attempt of the step logs at an ordinal. -/
def entries (task : LoggedTask V) (executionId : String) (ordinal attempt : Nat) :
    List LogEntry :=
  (task.remarks attempt).map
    (.ofRemark executionId (some ⟨operationId ordinal, task.name, attempt⟩))

/-- What so many attempts in a row log. -/
def entriesUpTo (task : LoggedTask V) (executionId : String) (ordinal attempts : Nat) :
    List LogEntry :=
  (List.range' 1 attempts).flatMap (task.entries executionId ordinal)

theorem entriesUpTo_succ (task : LoggedTask V) (executionId : String) (ordinal attempts : Nat) :
    task.entriesUpTo executionId ordinal (attempts + 1) =
      task.entriesUpTo executionId ordinal attempts ++
        task.entries executionId ordinal (attempts + 1) := by
  simp [entriesUpTo, List.range'_concat, Nat.add_comm]

end LoggedTask

/-- A deterministic workflow with its log calls: what comes next depends on the outcomes of
the earlier calls only. -/
inductive Narrative (V O : Type) where
  | done (outcome : Except DurableError O)
  | step (task : LoggedTask V) (next : Except DurableError V → Narrative V O)
  | wait (name : String) (next : Except DurableError Unit → Narrative V O)
  | log (level : LogLevel) (message : String) (next : Narrative V O)

namespace Narrative

/-- The narrative without its log calls. -/
def plan : Narrative V O → Plan V O
  | .done outcome => .done outcome
  | .step task next => .step task.toTask fun outcome => (next outcome).plan
  | .wait name next => .wait name fun outcome => (next outcome).plan
  | .log _ _ next => next.plan

/-- What is left to be logged when every call returns this error. -/
def remarksAfter (error : DurableError) : Narrative V O → List Remark
  | .done _ => []
  | .step _ next => (next (.error error)).remarksAfter error
  | .wait _ next => (next (.error error)).remarksAfter error
  | .log level message next => (level, message) :: next.remarksAfter error

/-- Nothing is logged after a call that was suspended. -/
def Discreet : Narrative V O → Prop
  | .done _ => True
  | .step _ next =>
    (∀ wake, (next (.error (.suspended wake))).remarksAfter (.suspended wake) = []) ∧
      ∀ outcome, Invocation.haltOf? outcome = none → (next outcome).Discreet
  | .wait _ next =>
    (∀ wake, (next (.error (.suspended wake))).remarksAfter (.suspended wake) = []) ∧
      ∀ outcome, Invocation.haltOf? outcome = none → (next outcome).Discreet
  | .log _ _ next => next.Discreet

/-- The reference log of the rest of a narrative, after the calls with these records.  A name
that is declared again is refused, and so are the calls behind it. -/
inductive Tells (executionId : String) :
    Narrative V O → List Operation → List LogEntry → Prop where
  | done (outcome : Except DurableError O) (operations : List Operation) :
      Tells executionId (.done outcome) operations []
  | log {level : LogLevel} {message : String} {next : Narrative V O}
      {operations : List Operation} {log : List LogEntry}
      (rest : Tells executionId next operations log) :
      Tells executionId (.log level message next) operations
        (.ofRemark executionId none (level, message) :: log)
  | step {task : LoggedTask V} {next : Except DurableError V → Narrative V O}
      {operations : List Operation} {update : OperationUpdate}
      {outcome : Except DurableError V} {log : List LogEntry}
      (fresh : Plan.declaredAt? operations task.name = none) (ends : task.Ends 1 update outcome)
      (rest : Tells executionId (next outcome)
        (operations ++ [(Operation.step operations.length task.name).withState update]) log) :
      Tells executionId (.step task next) operations
        (task.entriesUpTo executionId operations.length update.attempt ++ log)
  | stepTwice {task : LoggedTask V} {next : Except DurableError V → Narrative V O}
      {operations : List Operation} {first : Nat}
      (known : Plan.declaredAt? operations task.name = some first) :
      Tells executionId (.step task next) operations
        (((next (.error (.duplicateOperationName task.name first))).remarksAfter
          (.duplicateOperationName task.name first)).map (.ofRemark executionId none))
  | wait {name : String} {next : Except DurableError Unit → Narrative V O}
      {operations : List Operation} {log : List LogEntry}
      (fresh : Plan.declaredAt? operations name = none)
      (rest : Tells executionId (next (.ok ()))
        (operations ++ [Operation.passed operations.length name]) log) :
      Tells executionId (.wait name next) operations log
  | waitTwice {name : String} {next : Except DurableError Unit → Narrative V O}
      {operations : List Operation} {first : Nat}
      (known : Plan.declaredAt? operations name = some first) :
      Tells executionId (.wait name next) operations
        (((next (.error (.duplicateOperationName name first))).remarksAfter
          (.duplicateOperationName name first)).map (.ofRemark executionId none))

/-- A narrative has at most one reference log. -/
theorem Tells.unique {executionId : String} {narrative : Narrative V O}
    {operations : List Operation} {log again : List LogEntry}
    (tells : narrative.Tells executionId operations log)
    (tellsAgain : narrative.Tells executionId operations again) : again = log := by
  induction tells generalizing again with
  | done outcome operations =>
      cases tellsAgain
      rfl
  | log rest induction =>
      cases tellsAgain with
      | log restAgain => rw [induction restAgain]
  | step fresh ends rest induction =>
      cases tellsAgain with
      | stepTwice known => cases known.symm.trans fresh
      | step freshAgain endsAgain restAgain =>
          obtain ⟨rfl, rfl⟩ := ends.unique endsAgain
          rw [induction restAgain]
  | stepTwice known =>
      cases tellsAgain with
      | stepTwice knownAgain =>
          cases known.symm.trans knownAgain
          rfl
      | step fresh ends rest => cases known.symm.trans fresh
  | wait fresh rest induction =>
      cases tellsAgain with
      | waitTwice known => cases known.symm.trans fresh
      | wait freshAgain restAgain => exact induction restAgain
  | waitTwice known =>
      cases tellsAgain with
      | waitTwice knownAgain =>
          cases known.symm.trans knownAgain
          rfl
      | wait fresh rest => cases known.symm.trans fresh

/-- The reference log is told along the reference evaluation: there is one just when there is
the other. -/
theorem tells_iff_walks {executionId : String} {narrative : Narrative V O}
    {operations : List Operation} :
    (∃ log, narrative.Tells executionId operations log) ↔
      ∃ evaluation, narrative.plan.Walks operations evaluation := by
  induction narrative generalizing operations with
  | done outcome => exact ⟨fun _ => ⟨_, .done outcome operations⟩, fun _ => ⟨_, .done outcome _⟩⟩
  | step task next induction =>
      constructor
      · rintro ⟨log, tells⟩
        cases tells with
        | stepTwice known => exact ⟨_, .stepTwice known⟩
        | step fresh ends rest =>
            obtain ⟨evaluation, walks⟩ := (induction _).mp ⟨_, rest⟩
            exact ⟨evaluation, .step fresh ends walks⟩
      · rintro ⟨evaluation, walks⟩
        cases walks with
        | stepTwice known => exact ⟨_, .stepTwice known⟩
        | step fresh ends rest =>
            obtain ⟨log, tells⟩ := (induction _).mpr ⟨_, rest⟩
            exact ⟨_, .step fresh ends tells⟩
  | wait name next induction =>
      constructor
      · rintro ⟨log, tells⟩
        cases tells with
        | waitTwice known => exact ⟨_, .waitTwice known⟩
        | wait fresh rest =>
            obtain ⟨evaluation, walks⟩ := (induction _).mp ⟨_, rest⟩
            exact ⟨evaluation, .wait fresh walks⟩
      · rintro ⟨evaluation, walks⟩
        cases walks with
        | waitTwice known => exact ⟨_, .waitTwice known⟩
        | wait fresh rest =>
            obtain ⟨log, tells⟩ := (induction _).mpr ⟨_, rest⟩
            exact ⟨log, .wait fresh tells⟩
  | log level message next induction =>
      constructor
      · rintro ⟨log, tells⟩
        cases tells with
        | log rest => exact induction.mp ⟨_, rest⟩
      · intro walked
        obtain ⟨log, tells⟩ := induction.mpr walked
        exact ⟨_, .log tells⟩

/-- What was logged along the rest of a narrative from a position on, when these records lie
ahead.  The last of them is the one at which the execution was suspended, so that nothing
behind it has been logged. -/
inductive Recited (executionId : String) :
    Narrative V O → Nat → List Operation → List LogEntry → Prop where
  | silent (narrative : Narrative V O) (position : Nat) :
      Recited executionId narrative position [] []
  | log {level : LogLevel} {message : String} {next : Narrative V O} {position : Nat}
      {rest : List Operation} {log : List LogEntry} (more : rest ≠ [])
      (recited : Recited executionId next position rest log) :
      Recited executionId (.log level message next) position rest
        (.ofRemark executionId none (level, message) :: log)
  | retrying {task : LoggedTask V} {next : Except DurableError V → Narrative V O}
      {position attempts : Nat} (retried : task.Retried attempts) :
      Recited executionId (.step task next) position
        [Operation.retrying position task.name attempts]
        (task.entriesUpTo executionId position attempts)
  | step {task : LoggedTask V} {next : Except DurableError V → Narrative V O}
      {position : Nat} {update : OperationUpdate} {outcome : Except DurableError V}
      {rest : List Operation} {log : List LogEntry} (ends : task.Ends 1 update outcome)
      (more : rest ≠ [])
      (recited : Recited executionId (next outcome) (position + 1) rest log) :
      Recited executionId (.step task next) position
        ((Operation.step position task.name).withState update :: rest)
        (task.entriesUpTo executionId position update.attempt ++ log)
  | waiting {name : String} {next : Except DurableError Unit → Narrative V O}
      {position : Nat} :
      Recited executionId (.wait name next) position [Operation.waiting position name] []
  | wait {name : String} {next : Except DurableError Unit → Narrative V O} {position : Nat}
      {rest : List Operation} {log : List LogEntry} (more : rest ≠ [])
      (recited : Recited executionId (next (.ok ())) (position + 1) rest log) :
      Recited executionId (.wait name next) position
        (Operation.passed position name :: rest) log

theorem Recited.of_nothing {executionId : String} {narrative : Narrative V O} {position : Nat}
    {log : List LogEntry} (recited : narrative.Recited executionId position [] log) :
    log = [] := by
  cases recited with
  | silent => rfl
  | log more recited => exact absurd rfl more

end Narrative

namespace Workflow

/-- The workflow makes the calls and the log calls of the narrative, in its order; what it
observes makes no difference. -/
inductive Narrates : Workflow V O → Narrative V O → Prop where
  | done (outcome : Except DurableError O) : Narrates (.done outcome) (.done outcome)
  | step {name : String} {config : StepConfig} {codec : Codec V} {body : StepBody V}
      {next : Except DurableError V → Workflow V O} {task : LoggedTask V}
      {following : Except DurableError V → Narrative V O}
      (carries : Carries False ⟨name, config, codec, body⟩ task.toTask)
      (speaks : ∀ context, context.name = task.name →
        (body context).remarks = task.remarks context.attempt)
      (narrates : ∀ outcome, Narrates (next outcome) (following outcome)) :
      Narrates (.step name config codec body next) (.step task following)
  | wait {name : String} {duration : Duration} {next : Except DurableError Unit → Workflow V O}
      {following : Except DurableError Unit → Narrative V O}
      (narrates : ∀ outcome, Narrates (next outcome) (following outcome)) :
      Narrates (.wait name duration next) (.wait name following)
  | log {level : LogLevel} {message : String} {next : Workflow V O}
      {following : Narrative V O} (narrates : Narrates next following) :
      Narrates (.log level message next) (.log level message following)
  | observe {next : Observation → Workflow V O} {narrative : Narrative V O}
      (narrates : ∀ observation, Narrates (next observation) narrative) :
      Narrates (.observe next) narrative
  | advance {duration : Duration} {next : Workflow V O} {narrative : Narrative V O}
      (narrates : Narrates next narrative) : Narrates (.advance duration next) narrative

theorem Narrates.follows {workflow : Workflow V O} {narrative : Narrative V O}
    (narrates : workflow.Narrates narrative) : workflow.Follows False narrative.plan := by
  induction narrates with
  | done outcome => exact .done outcome
  | step carries speaks narrates induction =>
      exact .step carries fun _ outcome _ => induction outcome
  | wait narrates induction => exact .wait (induction _)
  | log narrates induction => exact .log induction
  | observe narrates induction => exact .observe induction
  | advance narrates induction => exact .advance induction

end Workflow

end Durable
