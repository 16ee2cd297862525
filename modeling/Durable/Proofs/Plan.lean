import Durable.Proofs.OrderlyLog

/-!
# Plans

The plan of a deterministic workflow says which call comes next, given the outcomes of
the earlier ones.  A task says, for each attempt of a step, how its body ends and
whether a further attempt is granted.  The reference evaluation of a plan walks it
once, without a log and without a clock: a wait is over at once, and a step is attempted
until it is closed.
-/

namespace Durable

variable {V O : Type}

/-- A step of which the outcome of an attempt depends on its number only, and the
grant of a retry on the number and the error. -/
structure Task (V : Type) where
  name : String
  codec : Codec V
  body : Nat → Except ErrorObject V
  retries : Nat → ErrorObject → Bool

namespace Task

/-- How an attempt closes the step, unless a further attempt is granted. -/
def close? (task : Task V) (attempt : Nat) : Option (OperationUpdate × Except DurableError V) :=
  match task.body attempt with
  | .ok value =>
    match task.codec.encode value with
    | .ok payload => some (.succeeded attempt payload, .ok value)
    | .error details =>
      some (.failed attempt ⟨ErrorType.serialization, details⟩,
        .error (.stepFailed task.name ⟨ErrorType.serialization, details⟩))
  | .error error =>
    if task.retries attempt error then none
    else some (.failed attempt error, .error (.stepFailed task.name error))

/-- The step is closed by the first attempt, from the given one on, that is not granted
another. -/
inductive Ends (task : Task V) : Nat → OperationUpdate → Except DurableError V → Prop where
  | closed {attempt : Nat} {update : OperationUpdate} {outcome : Except DurableError V}
      (closes : task.close? attempt = some (update, outcome)) : Ends task attempt update outcome
  | retried {attempt : Nat} {update : OperationUpdate} {outcome : Except DurableError V}
      (granted : task.close? attempt = none) (later : Ends task (attempt + 1) update outcome) :
      Ends task attempt update outcome

/-- Each of the first attempts was granted another one. -/
def Retried (task : Task V) (attempts : Nat) : Prop :=
  ∀ attempt, 1 ≤ attempt → attempt ≤ attempts → task.close? attempt = none

theorem Retried.succ {task : Task V} {attempts : Nat} (retried : task.Retried attempts)
    (granted : task.close? (attempts + 1) = none) : task.Retried (attempts + 1) := by
  intro attempt positive le
  by_cases last : attempt = attempts + 1
  · rw [last]
    exact granted
  · exact retried attempt positive (by omega)

theorem Retried.ends {task : Task V} {attempts : Nat} (retried : task.Retried attempts)
    {update : OperationUpdate} {outcome : Except DurableError V}
    (closes : task.close? (attempts + 1) = some (update, outcome)) :
    task.Ends 1 update outcome := by
  have reaches : ∀ back, back ≤ attempts → task.Ends (attempts + 1 - back) update outcome := by
    intro back le
    induction back with
    | zero => exact .closed closes
    | succ back induction =>
        have later := induction (by omega)
        have next : attempts + 1 - (back + 1) + 1 = attempts + 1 - back := by omega
        exact .retried (retried _ (by omega) (by omega)) (by rw [next]; exact later)
  have whole := reaches attempts (Nat.le_refl _)
  rwa [Nat.add_sub_cancel_left] at whole

theorem Ends.unique {task : Task V} {attempt : Nat} {update again : OperationUpdate}
    {outcome sameOutcome : Except DurableError V} (ends : task.Ends attempt update outcome)
    (endsAgain : task.Ends attempt again sameOutcome) :
    again = update ∧ sameOutcome = outcome := by
  induction ends with
  | closed closes =>
      cases endsAgain with
      | closed closesAgain =>
          rw [closes, Option.some.injEq, Prod.mk.injEq] at closesAgain
          exact ⟨closesAgain.1.symm, closesAgain.2.symm⟩
      | retried granted later => simp [closes] at granted
  | retried granted later induction =>
      cases endsAgain with
      | closed closesAgain => simp [granted] at closesAgain
      | retried grantedAgain laterAgain => exact induction laterAgain

/-- What an attempt that closes the step leaves: the outcome is told by the record. -/
inductive Closure (task : Task V) : OperationUpdate → Except DurableError V → Prop where
  | succeeded (attempt : Nat) (value : V) (payload : Json)
      (encoded : task.codec.encode value = .ok payload) :
      Closure task (.succeeded attempt payload) (.ok value)
  | failed (attempt : Nat) (error : ErrorObject) :
      Closure task (.failed attempt error) (.error (.stepFailed task.name error))

theorem close?_closure {task : Task V} {attempt : Nat} {update : OperationUpdate}
    {outcome : Except DurableError V} (closes : task.close? attempt = some (update, outcome)) :
    task.Closure update outcome := by
  unfold close? at closes
  split at closes
  · next value returned =>
      split at closes
      · next payload encoded =>
          cases closes
          exact .succeeded attempt value payload encoded
      · cases closes
        exact .failed attempt _
  · split at closes
    · simp at closes
    · cases closes
      exact .failed attempt _

theorem Ends.closure {task : Task V} {attempt : Nat} {update : OperationUpdate}
    {outcome : Except DurableError V} (ends : task.Ends attempt update outcome) :
    task.Closure update outcome := by
  induction ends with
  | closed closes => exact close?_closure closes
  | retried granted later induction => exact induction

theorem Closure.timeless {task : Task V} {update : OperationUpdate}
    {outcome : Except DurableError V} (closure : task.Closure update outcome)
    (operation : Operation) :
    (operation.withState update).timeless = operation.withState update := by
  cases closure <;> rfl

end Task

/-- A deterministic workflow: the next call, or the end, depends on the outcomes of the
earlier calls only. -/
inductive Plan (V O : Type) where
  | done (outcome : Except DurableError O)
  | step (task : Task V) (next : Except DurableError V → Plan V O)
  | wait (name : String) (next : Except DurableError Unit → Plan V O)

/-- What an invocation reports at its end, the ready times of its operations aside. -/
structure Evaluation (O : Type) where
  status : ExecutionStatus
  result : Option O
  error : Option ErrorObject
  operations : List Operation

namespace Evaluation

def ofOutcome (outcome : Except DurableError O) (operations : List Operation) : Evaluation O :=
  match outcome with
  | .ok output => ⟨.succeeded, some output, none, operations⟩
  | .error error => ⟨.failed, none, some error.toObject, operations⟩

end Evaluation

def ExecutionResult.evaluation (result : ExecutionResult O) : Evaluation O :=
  ⟨result.status, result.result, result.error, result.operations.map Operation.timeless⟩

namespace Operation

/-- A timer that has elapsed, without its ready time. -/
def passed (ordinal : Nat) (name : String) : Operation :=
  { id := operationId ordinal, ordinal := ordinal, name := name, kind := .timer,
    status := .succeeded, attempt := 1, result := some .null, error := none, readyAt := none }

/-- A timer that is pending, without its ready time. -/
def waiting (ordinal : Nat) (name : String) : Operation :=
  { id := operationId ordinal, ordinal := ordinal, name := name, kind := .timer,
    status := .pending, attempt := 1, result := none, error := none, readyAt := none }

/-- A step with so many failed attempts that waits for the next one, without its ready
time. -/
def retrying (ordinal : Nat) (name : String) (attempts : Nat) : Operation :=
  (step ordinal name).withState ⟨.pending, attempts, none, none, none⟩

end Operation

namespace Plan

/-- The position at which a name was declared before. -/
def declaredAt? (operations : List Operation) (name : String) : Option Nat :=
  operations.findIdx? (·.name == name)

/-- The reference evaluation of the rest of a plan, after the calls with these records. -/
inductive Walks : Plan V O → List Operation → Evaluation O → Prop where
  | done (outcome : Except DurableError O) (operations : List Operation) :
      Walks (.done outcome) operations (.ofOutcome outcome operations)
  | stepTwice {task : Task V} {next : Except DurableError V → Plan V O}
      {operations : List Operation} {first : Nat}
      (known : declaredAt? operations task.name = some first) :
      Walks (.step task next) operations
        (.ofOutcome (.error (.duplicateOperationName task.name first)) operations)
  | waitTwice {name : String} {next : Except DurableError Unit → Plan V O}
      {operations : List Operation} {first : Nat}
      (known : declaredAt? operations name = some first) :
      Walks (.wait name next) operations
        (.ofOutcome (.error (.duplicateOperationName name first)) operations)
  | step {task : Task V} {next : Except DurableError V → Plan V O}
      {operations : List Operation} {update : OperationUpdate}
      {outcome : Except DurableError V} {evaluation : Evaluation O}
      (fresh : declaredAt? operations task.name = none) (ends : task.Ends 1 update outcome)
      (rest : Walks (next outcome)
        (operations ++ [(Operation.step operations.length task.name).withState update])
        evaluation) :
      Walks (.step task next) operations evaluation
  | wait {name : String} {next : Except DurableError Unit → Plan V O}
      {operations : List Operation} {evaluation : Evaluation O}
      (fresh : declaredAt? operations name = none)
      (rest : Walks (next (.ok ()))
        (operations ++ [Operation.passed operations.length name]) evaluation) :
      Walks (.wait name next) operations evaluation

/-- The reference evaluation of a plan. -/
def Evaluates (plan : Plan V O) (evaluation : Evaluation O) : Prop :=
  plan.Walks [] evaluation

/-- A plan has at most one reference evaluation. -/
theorem Walks.unique {plan : Plan V O} {operations : List Operation}
    {evaluation again : Evaluation O} (walks : plan.Walks operations evaluation)
    (walksAgain : plan.Walks operations again) : again = evaluation := by
  induction walks with
  | done outcome operations =>
      cases walksAgain
      rfl
  | stepTwice known =>
      cases walksAgain with
      | stepTwice knownAgain =>
          cases known.symm.trans knownAgain
          rfl
      | step fresh ends rest => cases known.symm.trans fresh
  | waitTwice known =>
      cases walksAgain with
      | waitTwice knownAgain =>
          cases known.symm.trans knownAgain
          rfl
      | wait fresh rest => cases known.symm.trans fresh
  | step fresh ends rest induction =>
      cases walksAgain with
      | stepTwice known => cases known.symm.trans fresh
      | step freshAgain endsAgain restAgain =>
          obtain ⟨rfl, rfl⟩ := ends.unique endsAgain
          exact induction restAgain
  | wait fresh rest induction =>
      cases walksAgain with
      | waitTwice known => cases known.symm.trans fresh
      | wait freshAgain restAgain => exact induction restAgain

/-- The records of an execution that has come some way along the rest of a plan, after
the calls with the given records: every record is settled, except that the last one may
wait for a retry or for its time. -/
inductive Trails : Plan V O → List Operation → List Operation → Prop where
  | start (plan : Plan V O) (operations : List Operation) : Trails plan operations []
  | step {task : Task V} {next : Except DurableError V → Plan V O}
      {operations rest : List Operation} {update : OperationUpdate}
      {outcome : Except DurableError V} (fresh : declaredAt? operations task.name = none)
      (ends : task.Ends 1 update outcome)
      (trails : Trails (next outcome)
        (operations ++ [(Operation.step operations.length task.name).withState update]) rest) :
      Trails (.step task next) operations
        ((Operation.step operations.length task.name).withState update :: rest)
  | retrying {task : Task V} {next : Except DurableError V → Plan V O}
      {operations : List Operation} {attempts : Nat}
      (fresh : declaredAt? operations task.name = none) (retried : task.Retried attempts) :
      Trails (.step task next) operations
        [Operation.retrying operations.length task.name attempts]
  | wait {name : String} {next : Except DurableError Unit → Plan V O}
      {operations rest : List Operation} (fresh : declaredAt? operations name = none)
      (trails : Trails (next (.ok ()))
        (operations ++ [Operation.passed operations.length name]) rest) :
      Trails (.wait name next) operations (Operation.passed operations.length name :: rest)
  | waiting {name : String} {next : Except DurableError Unit → Plan V O}
      {operations : List Operation} (fresh : declaredAt? operations name = none) :
      Trails (.wait name next) operations [Operation.waiting operations.length name]

theorem Trails.nothing_of_stepTwice {task : Task V} {next : Except DurableError V → Plan V O}
    {operations rest : List Operation} {first : Nat}
    (trails : (Plan.step task next).Trails operations rest)
    (known : declaredAt? operations task.name = some first) : rest = [] := by
  cases trails with
  | start => rfl
  | step fresh ends trails => simp [fresh] at known
  | retrying fresh retried => simp [fresh] at known

theorem Trails.nothing_of_waitTwice {name : String} {next : Except DurableError Unit → Plan V O}
    {operations rest : List Operation} {first : Nat}
    (trails : (Plan.wait name next).Trails operations rest)
    (known : declaredAt? operations name = some first) : rest = [] := by
  cases trails with
  | start => rfl
  | wait fresh trails => simp [fresh] at known
  | waiting fresh => simp [fresh] at known

theorem Trails.behind_step {task : Task V} {next : Except DurableError V → Plan V O}
    {done rest : List Operation} {record : Operation} {update : OperationUpdate}
    {outcome : Except DurableError V}
    (trails : (Plan.step task next).Trails done (record :: rest)) (more : rest ≠ [])
    (ends : task.Ends 1 update outcome) : (next outcome).Trails (done ++ [record]) rest := by
  cases trails with
  | step fresh endsAgain trails =>
      obtain ⟨rfl, rfl⟩ := ends.unique endsAgain
      exact trails
  | retrying fresh retried => exact absurd rfl more

theorem Trails.behind_wait {name : String} {next : Except DurableError Unit → Plan V O}
    {done rest : List Operation}
    (trails : (Plan.wait name next).Trails done (Operation.passed done.length name :: rest)) :
    (next (.ok ())).Trails (done ++ [Operation.passed done.length name]) rest := by
  generalize whole : Operation.passed done.length name :: rest = records at trails
  cases trails with
  | start => cases whole
  | wait fresh trails =>
      cases whole
      exact trails
  | waiting fresh => cases whole

/-- Every value that a step encodes comes back from the medium and is decoded to
itself. -/
def Lossless (medium : Medium) : Plan V O → Prop
  | .done _ => True
  | .step task next =>
    (∀ value payload, task.codec.encode value = .ok payload →
      medium.Keeps payload ∧ task.codec.decode payload = .ok value) ∧
      ∀ outcome, (next outcome).Lossless medium
  | .wait _ next => ∀ outcome, (next outcome).Lossless medium

end Plan

namespace Workflow

/-- The call carries out the task: every attempt ends as the task says, unless the
process dies in it where that is allowed. -/
structure Carries (mayDie : Prop) (call : StepCall V) (task : Task V) : Prop where
  name : call.name = task.name
  codec : call.codec = task.codec
  retries : ∀ attempt error, (call.config.retry attempt error).isSome = task.retries attempt error
  body : ∀ context, context.name = task.name →
    (match task.body context.attempt with
      | .ok value => (call.body context).outcome = .value value
      | .error error => (call.body context).outcome = .failure error) ∨
      (mayDie ∧ (call.body context).outcome = .crash)

/-- The workflow declares the calls of the plan, in the order of the plan, and ends as
the plan does; what it observes makes no difference. -/
inductive Follows (mayDie : Prop) : Workflow V O → Plan V O → Prop where
  | done (outcome : Except DurableError O) : Follows mayDie (.done outcome) (.done outcome)
  | step {name : String} {config : StepConfig} {codec : Codec V} {body : StepBody V}
      {next : Except DurableError V → Workflow V O} {task : Task V}
      {planNext : Except DurableError V → Plan V O}
      (carries : Carries mayDie ⟨name, config, codec, body⟩ task)
      (follows : ∀ update outcome, task.Ends 1 update outcome →
        Follows mayDie (next outcome) (planNext outcome)) :
      Follows mayDie (.step name config codec body next) (.step task planNext)
  | wait {name : String} {duration : Duration}
      {next : Except DurableError Unit → Workflow V O}
      {planNext : Except DurableError Unit → Plan V O}
      (follows : Follows mayDie (next (.ok ())) (planNext (.ok ()))) :
      Follows mayDie (.wait name duration next) (.wait name planNext)
  | log {level : LogLevel} {message : String} {next : Workflow V O} {plan : Plan V O}
      (follows : Follows mayDie next plan) : Follows mayDie (.log level message next) plan
  | observe {next : Observation → Workflow V O} {plan : Plan V O}
      (follows : ∀ observation, Follows mayDie (next observation) plan) :
      Follows mayDie (.observe next) plan
  | advance {duration : Duration} {next : Workflow V O} {plan : Plan V O}
      (follows : Follows mayDie next plan) : Follows mayDie (.advance duration next) plan

end Workflow

end Durable
