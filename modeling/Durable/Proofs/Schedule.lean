import Durable.Proofs.LogPosition
import Durable.Proofs.StillClock

/-!
# Schedules

The schedule of a deterministic workflow is its plan together with all durations: how long
a wait lasts, and after which delay a retry is granted.  The reference evaluation of a
schedule goes through waits and attempts at once and lists the pauses that it left out.
From the records that an execution has left along its schedule, it lists the pauses that
are still ahead.
-/

namespace Durable

variable {V O : Type}

/-- A step of which the outcome of an attempt depends on its number only, and the delay of
a retry on the number and the error. -/
structure Job (V : Type) where
  name : String
  codec : Codec V
  body : Nat → Except ErrorObject V
  retry : RetryPolicy

namespace Job

/-- The job without the length of its delays. -/
def task (job : Job V) : Task V where
  name := job.name
  codec := job.codec
  body := job.body
  retries attempt error := (job.retry attempt error).isSome

/-- The delay after an attempt that is granted another one. -/
def delay? (job : Job V) (attempt : Nat) : Option Duration :=
  match job.body attempt with
  | .ok _ => none
  | .error error => job.retry attempt error

/-- From the given attempt on, the job is closed after retries with these delays. -/
inductive Ends (job : Job V) :
    Nat → List Duration → OperationUpdate → Except DurableError V → Prop where
  | closed {attempt : Nat} {update : OperationUpdate} {outcome : Except DurableError V}
      (closes : job.task.close? attempt = some (update, outcome)) :
      Ends job attempt [] update outcome
  | retried {attempt : Nat} {delay : Duration} {delays : List Duration}
      {update : OperationUpdate} {outcome : Except DurableError V}
      (granted : job.delay? attempt = some delay)
      (later : Ends job (attempt + 1) delays update outcome) :
      Ends job attempt (delay :: delays) update outcome

variable {job : Job V} {attempt : Nat} {delays : List Duration} {update : OperationUpdate}
  {outcome : Except DurableError V}

theorem close?_of_delay? {delay : Duration} (granted : job.delay? attempt = some delay) :
    job.task.close? attempt = none := by
  unfold delay? at granted
  split at granted
  · cases granted
  · next error failed =>
      have body : job.task.body attempt = .error error := failed
      have again : job.task.retries attempt error = true := congrArg Option.isSome granted
      simp only [Task.close?, body, again, if_true]

theorem Ends.task (ends : job.Ends attempt delays update outcome) :
    job.task.Ends attempt update outcome := by
  induction ends with
  | closed closes => exact .closed closes
  | retried granted later induction => exact .retried (close?_of_delay? granted) induction

theorem Ends.of_closes {again : OperationUpdate} {sameOutcome : Except DurableError V}
    (ends : job.Ends attempt delays update outcome)
    (closes : job.task.close? attempt = some (again, sameOutcome)) :
    delays = [] ∧ update = again ∧ outcome = sameOutcome := by
  cases ends with
  | closed closesToo =>
      cases closes.symm.trans closesToo
      exact ⟨rfl, rfl, rfl⟩
  | retried granted later => cases closes.symm.trans (close?_of_delay? granted)

theorem Ends.of_granted {delay : Duration} (ends : job.Ends attempt delays update outcome)
    (granted : job.delay? attempt = some delay) :
    ∃ later, delays = delay :: later ∧ job.Ends (attempt + 1) later update outcome := by
  cases ends with
  | closed closes => cases closes.symm.trans (close?_of_delay? granted)
  | retried grantedToo later =>
      cases granted.symm.trans grantedToo
      exact ⟨_, rfl, later⟩

end Job

theorem Plan.declaredAt?_timeless (operations : List Operation) (name : String) :
    declaredAt? (operations.map Operation.timeless) name = declaredAt? operations name := by
  rw [declaredAt?, List.findIdx?_map]
  rfl

/-- A stretch of time that passes between two pieces of work. -/
inductive Pause where
  | retry (delay : Duration)
  | wait (duration : Duration)

namespace Pause

def duration : Pause → Duration
  | .retry delay => delay
  | .wait duration => duration

/-- The reading when the pause is over; a clock never goes back. -/
def elapse (now : Instant) (pause : Pause) : Instant :=
  now.max (now.add pause.duration)

/-- The execution is suspended for every retry, but for a wait only if it ends later than
it begins. -/
def Suspends (now : Instant) : Pause → Prop
  | .retry _ => True
  | .wait duration => ¬now.add duration ≤ now

instance (now : Instant) (pause : Pause) : Decidable (pause.Suspends now) :=
  match pause with
  | .retry _ => inferInstanceAs (Decidable True)
  | .wait duration => inferInstanceAs (Decidable (¬now.add duration ≤ now))

/-- For how many of the pauses, one after another, the execution is suspended. -/
def suspensions (now : Instant) : List Pause → Nat
  | [] => 0
  | pause :: rest => (if pause.Suspends now then 1 else 0) + suspensions (pause.elapse now) rest

/-- The reading after the pauses, one after another. -/
def reading (now : Instant) (pauses : List Pause) : Instant :=
  pauses.foldl elapse now

theorem suspensions_of_suspends {now : Instant} {pause : Pause} (suspends : pause.Suspends now)
    (rest : List Pause) :
    suspensions now (pause :: rest) = suspensions (pause.elapse now) rest + 1 := by
  rw [suspensions, if_pos suspends, Nat.add_comm]

theorem elapse_of_le {now : Instant} {pause : Pause} (due : now.add pause.duration ≤ now) :
    pause.elapse now = now :=
  Instant.max_eq_left due

/-- Before the end of time, clocks do not have to be kept from going back. -/
theorem reading_of_le {now : Instant} (late : now ≤ Instant.latest) (pauses : List Pause) :
    reading now pauses = pauses.foldl (fun now pause => now.add pause.duration) now := by
  induction pauses generalizing now with
  | nil => rfl
  | cons pause rest induction =>
      have further : pause.elapse now = now.add pause.duration :=
        Instant.max_eq_right (Instant.le_add late pause.duration)
      rw [reading, List.foldl_cons, List.foldl_cons, further]
      exact induction (Instant.add_le_latest late pause.duration)

end Pause

/-- A deterministic workflow with all its durations: the next call, or the end, depends on
the outcomes of the earlier calls only. -/
inductive Schedule (V O : Type) where
  | done (outcome : Except DurableError O)
  | step (job : Job V) (next : Except DurableError V → Schedule V O)
  | wait (name : String) (duration : Duration) (next : Schedule V O)

namespace Schedule

/-- The schedule without its durations. -/
def plan : Schedule V O → Plan V O
  | .done outcome => .done outcome
  | .step job next => .step job.task fun outcome => (next outcome).plan
  | .wait name _ next => .wait name fun _ => next.plan

/-- The reference evaluation of the rest of a schedule, after the calls with these records,
and the pauses that belong between its pieces of work. -/
inductive Walks : Schedule V O → List Operation → Evaluation O → List Pause → Prop where
  | done (outcome : Except DurableError O) (operations : List Operation) :
      Walks (.done outcome) operations (.ofOutcome outcome operations) []
  | stepTwice {job : Job V} {next : Except DurableError V → Schedule V O}
      {operations : List Operation} {first : Nat}
      (known : Plan.declaredAt? operations job.name = some first) :
      Walks (.step job next) operations
        (.ofOutcome (.error (.duplicateOperationName job.name first)) operations) []
  | waitTwice {name : String} {duration : Duration} {next : Schedule V O}
      {operations : List Operation} {first : Nat}
      (known : Plan.declaredAt? operations name = some first) :
      Walks (.wait name duration next) operations
        (.ofOutcome (.error (.duplicateOperationName name first)) operations) []
  | step {job : Job V} {next : Except DurableError V → Schedule V O}
      {operations : List Operation} {delays : List Duration} {update : OperationUpdate}
      {outcome : Except DurableError V} {evaluation : Evaluation O} {pauses : List Pause}
      (fresh : Plan.declaredAt? operations job.name = none)
      (ends : job.Ends 1 delays update outcome)
      (rest : Walks (next outcome)
        (operations ++ [(Operation.step operations.length job.name).withState update])
        evaluation pauses) :
      Walks (.step job next) operations evaluation (delays.map .retry ++ pauses)
  | wait {name : String} {duration : Duration} {next : Schedule V O}
      {operations : List Operation} {evaluation : Evaluation O} {pauses : List Pause}
      (fresh : Plan.declaredAt? operations name = none)
      (rest : Walks next (operations ++ [Operation.passed operations.length name]) evaluation
        pauses) :
      Walks (.wait name duration next) operations evaluation (.wait duration :: pauses)

/-- The reference evaluation of a schedule, and its pauses. -/
def Evaluates (schedule : Schedule V O) (evaluation : Evaluation O) (pauses : List Pause) :
    Prop :=
  schedule.Walks [] evaluation pauses

/-- Without its pauses a walk is the reference evaluation of the plan. -/
theorem Walks.plan {schedule : Schedule V O} {operations : List Operation}
    {evaluation : Evaluation O} {pauses : List Pause}
    (walks : schedule.Walks operations evaluation pauses) :
    schedule.plan.Walks operations evaluation := by
  induction walks with
  | done outcome operations => exact .done outcome operations
  | stepTwice known => exact .stepTwice known
  | waitTwice known => exact .waitTwice known
  | step fresh ends rest induction => exact .step fresh ends.task induction
  | wait fresh rest induction => exact .wait fresh induction

/-- Every value that a step encodes is decoded to itself. -/
def Decodes : Schedule V O → Prop
  | .done _ => True
  | .step job next =>
    (∀ value payload, job.codec.encode value = .ok payload →
      job.codec.decode payload = .ok value) ∧
      ∀ outcome, (next outcome).Decodes
  | .wait _ _ next => next.Decodes

/-- The records that an execution has left along the rest of its schedule, behind the
operations that it has passed, and the pauses that are still ahead.  The last record may
wait for a retry or for its time. -/
inductive Remains : Schedule V O → List Operation → List Operation → Evaluation O →
    List Pause → Prop where
  | ahead {schedule : Schedule V O} {done : List Operation} {evaluation : Evaluation O}
      {pauses : List Pause}
      (walks : schedule.Walks (done.map Operation.timeless) evaluation pauses) :
      Remains schedule done [] evaluation pauses
  | closed {job : Job V} {next : Except DurableError V → Schedule V O}
      {done rest : List Operation} {update : OperationUpdate}
      {outcome : Except DurableError V} {evaluation : Evaluation O} {pauses : List Pause}
      (fresh : Plan.declaredAt? done job.name = none)
      (closure : job.task.Closure update outcome)
      (remains : Remains (next outcome)
        (done ++ [(Operation.step done.length job.name).withState update]) rest evaluation
        pauses) :
      Remains (.step job next) done
        ((Operation.step done.length job.name).withState update :: rest) evaluation pauses
  | retrying {job : Job V} {next : Except DurableError V → Schedule V O}
      {done : List Operation} {attempts : Nat} {readyAt : Instant} {delays : List Duration}
      {update : OperationUpdate} {outcome : Except DurableError V}
      {evaluation : Evaluation O} {pauses : List Pause}
      (fresh : Plan.declaredAt? done job.name = none)
      (ends : job.Ends (attempts + 1) delays update outcome)
      (walks : (next outcome).Walks
        ((done ++ [(Operation.step done.length job.name).withState update]).map
          Operation.timeless) evaluation pauses) :
      Remains (.step job next) done
        [(Operation.step done.length job.name).withState (.retryScheduled attempts readyAt)]
        evaluation (delays.map .retry ++ pauses)
  | elapsed {name : String} {duration : Duration} {next : Schedule V O}
      {done rest : List Operation} {readyAt : Instant} {evaluation : Evaluation O}
      {pauses : List Pause} (fresh : Plan.declaredAt? done name = none)
      (remains : Remains next (done ++ [(Operation.timer done.length name readyAt).elapsed])
        rest evaluation pauses) :
      Remains (.wait name duration next) done
        ((Operation.timer done.length name readyAt).elapsed :: rest) evaluation pauses
  | waiting {name : String} {duration : Duration} {next : Schedule V O}
      {done : List Operation} {readyAt : Instant} {evaluation : Evaluation O}
      {pauses : List Pause} (fresh : Plan.declaredAt? done name = none)
      (walks : next.Walks
        ((done ++ [(Operation.timer done.length name readyAt).elapsed]).map Operation.timeless)
        evaluation pauses) :
      Remains (.wait name duration next) done [.timer done.length name readyAt] evaluation
        pauses

end Schedule

namespace Workflow

/-- The call carries out the job: every attempt ends as the job says and is granted the
delay that the job says. -/
structure Performs (call : StepCall V) (job : Job V) : Prop where
  name : call.name = job.name
  codec : call.codec = job.codec
  retry : call.config.retry = job.retry
  body : ∀ context, context.name = job.name →
    match job.body context.attempt with
    | .ok value => (call.body context).outcome = .value value
    | .error error => (call.body context).outcome = .failure error

/-- The workflow declares the calls of the schedule, in the order of the schedule, and ends
as the schedule does; what it observes makes no difference. -/
inductive Keeps : Workflow V O → Schedule V O → Prop where
  | done (outcome : Except DurableError O) : Keeps (.done outcome) (.done outcome)
  | step {name : String} {config : StepConfig} {codec : Codec V} {body : StepBody V}
      {next : Except DurableError V → Workflow V O} {job : Job V}
      {scheduleNext : Except DurableError V → Schedule V O}
      (performs : Performs ⟨name, config, codec, body⟩ job)
      (keeps : ∀ update outcome, job.task.Closure update outcome →
        Keeps (next outcome) (scheduleNext outcome)) :
      Keeps (.step name config codec body next) (.step job scheduleNext)
  | wait {name : String} {duration : Duration}
      {next : Except DurableError Unit → Workflow V O} {scheduleNext : Schedule V O}
      (keeps : Keeps (next (.ok ())) scheduleNext) :
      Keeps (.wait name duration next) (.wait name duration scheduleNext)
  | log {level : LogLevel} {message : String} {next : Workflow V O} {schedule : Schedule V O}
      (keeps : Keeps next schedule) : Keeps (.log level message next) schedule
  | observe {next : Observation → Workflow V O} {schedule : Schedule V O}
      (keeps : ∀ observation, Keeps (next observation) schedule) :
      Keeps (.observe next) schedule

end Workflow

end Durable
