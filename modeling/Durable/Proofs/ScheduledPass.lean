import Durable.Proofs.Halting
import Durable.Proofs.Schedule

/-!
# Passes that keep to a schedule

A pass over the records that an execution has left along its schedule, with a clock that
has reached the time of the last one, gets past it.  It ends as the reference evaluation
does, or it is suspended for the next pause that takes time, and leaves the records of an
execution that has all pauses behind that one still ahead.
-/

namespace Durable

variable {V O : Type}

open Workflow

namespace Schedule

/-- An invocation on its way along the schedule: what is left of the schedule is `current`,
with these records and pauses; the time of the last record has come. -/
structure Aligned (schedule current : Schedule V O) (evaluation : Evaluation O) (now : Instant)
    (done rest : List Operation) (pauses : List Pause) (invocation : Invocation V) : Prop where
  stands : invocation.Stands done rest
  reading : invocation.now = now
  reliable : invocation.store.faults = .none
  past : ∀ record ∈ done, record.isTerminal = true
  due : ∀ record ∈ rest, record.isTerminal = false → record.isReady now = true
  remains : current.Remains done rest evaluation pauses
  whole : ∀ rest pauses, current.Remains done rest evaluation pauses →
    schedule.Remains [] (done ++ rest) evaluation pauses

/-- How a pass ends from where these pauses are ahead.  Either none of them takes time, and
the pass ends as the reference evaluation does; or the pass is suspended for the first one
that takes time. -/
inductive Passed (schedule : Schedule V O) (evaluation : Evaluation O) (now : Instant)
    (pauses : List Pause) (final : Invocation V) : PassEnd O → Prop where
  | ended {outcome given : Except DurableError O} {operations : List Operation}
      (decides : (final.halt = none ∧ given = outcome) ∨
        ∃ error, final.halt = some (.fatal error) ∧ given = .error error)
      (holds : final.log.Holds operations)
      (past : ∀ record ∈ operations, record.isTerminal = true)
      (evaluates : evaluation = .ofOutcome given (operations.map Operation.timeless))
      (count : Pause.suspensions now pauses = 0) (reading : Pause.reading now pauses = now) :
      Passed schedule evaluation now pauses final (.returned outcome)
  | suspended {outcome : Except DurableError O} {wake : Instant} {front : List Operation}
      {last : Operation} {left : List Pause} (halted : final.halt = some (.suspended wake))
      (holds : final.log.Holds (front ++ [last]))
      (past : ∀ record ∈ front, record.isTerminal = true) (waits : last.Waits wake)
      (remains : schedule.Remains [] (front ++ [last]) evaluation left)
      (count : Pause.suspensions now pauses = Pause.suspensions (now.max wake) left + 1)
      (reading : Pause.reading now pauses = Pause.reading (now.max wake) left) :
      Passed schedule evaluation now pauses final (.returned outcome)

/-- The invocation was halted, and that decides how its pass ends. -/
structure Stopped (schedule : Schedule V O) (evaluation : Evaluation O) (now : Instant)
    (pauses : List Pause) (invocation : Invocation V) : Prop where
  halted : ∃ halt, invocation.halt = some halt
  passed : ∀ outcome, schedule.Passed evaluation now pauses invocation (.returned outcome)

theorem Stopped.run {schedule : Schedule V O} {evaluation : Evaluation O} {now : Instant}
    {pauses : List Pause} {before : Invocation V}
    (stopped : schedule.Stopped evaluation now pauses before) (workflow : Workflow V O) :
    schedule.Passed evaluation now pauses (workflow.run before).2 (workflow.run before).1 := by
  obtain ⟨⟨halt, halted⟩, passed⟩ := stopped
  obtain ⟨outcome, after, ran, haltedAfter, log⟩ := workflow.run_halted halted
  rw [ran]
  rw [← halted] at haltedAfter
  cases passed outcome with
  | ended decides holds past evaluates count reading =>
      rw [← haltedAfter] at decides
      rw [← log] at holds
      exact .ended decides holds past evaluates count reading
  | suspended suspends holds past waits remains count reading =>
      rw [← log] at holds
      exact .suspended (haltedAfter.trans suspends) holds past waits remains count reading

theorem Passed.before_wait {schedule : Schedule V O} {evaluation : Evaluation O}
    {now : Instant} {pauses : List Pause} {final : Invocation V} {ending : PassEnd O}
    {duration : Duration} (due : now.add duration ≤ now)
    (passed : schedule.Passed evaluation now pauses final ending) :
    schedule.Passed evaluation now (.wait duration :: pauses) final ending := by
  have later : (Pause.wait duration).elapse now = now := Pause.elapse_of_le due
  have sameCount : Pause.suspensions now (.wait duration :: pauses) =
      Pause.suspensions now pauses := by
    have goesOn : ¬(Pause.wait duration).Suspends now := not_not_intro due
    rw [Pause.suspensions, if_neg goesOn, later, Nat.zero_add]
  have sameReading : Pause.reading now (.wait duration :: pauses) =
      Pause.reading now pauses := by
    rw [Pause.reading, List.foldl_cons, later]
    rfl
  cases passed with
  | ended decides holds past evaluates count reading =>
      exact .ended decides holds past evaluates (sameCount.trans count)
        (sameReading.trans reading)
  | suspended halted holds past waits remains count reading =>
      exact .suspended halted holds past waits remains (sameCount.trans count)
        (sameReading.trans reading)

end Schedule

/-- An attempt is recorded as the job says: it closes the step, or it waits for the next
one. -/
theorem Workflow.Performs.closing? {call : StepCall V} {job : Job V}
    (performs : Performs call job) {invocation : Invocation V} {attempt : Nat}
    {reading : Instant} {update : OperationUpdate} {outcome : Except DurableError V}
    (closes : call.closing? invocation attempt reading = some (update, outcome)) :
    job.task.close? attempt = some (update, outcome) ∨
      ∃ delay, job.delay? attempt = some delay ∧
        update = .retryScheduled attempt (reading.add delay) ∧
        outcome = .error (.suspended (reading.add delay)) := by
  have ends := performs.body (call.context invocation attempt) performs.name
  have sameAttempt : (call.context invocation attempt).attempt = attempt := rfl
  rw [sameAttempt] at ends
  rw [StepCall.closing?, performs.codec, performs.name, performs.retry] at closes
  cases body : job.body attempt with
  | ok value =>
      rw [body] at ends
      simp only [BodyOutcome.closing?, ends] at closes
      left
      simp only [Task.close?, Job.task, body]
      exact closes
  | error error =>
      rw [body] at ends
      simp only [BodyOutcome.closing?, ends] at closes
      cases granted : job.retry attempt error with
      | some delay =>
          rw [granted] at closes
          cases closes
          right
          refine ⟨delay, ?_, rfl, rfl⟩
          simp only [Job.delay?, body, granted]
      | none =>
          rw [granted] at closes
          cases closes
          left
          simp [Task.close?, Job.task, body, granted]

theorem Workflow.Performs.survives {call : StepCall V} {job : Job V}
    (performs : Performs call job) (invocation : Invocation V) (attempt : Nat) :
    (call.body (call.context invocation attempt)).outcome ≠ .crash := by
  intro dies
  have ends := performs.body (call.context invocation attempt) performs.name
  rw [dies] at ends
  split at ends <;> cases ends

namespace Schedule

/-- The invocation after a step call of the schedule. -/
inductive StepKept (schedule : Schedule V O) (job : Job V)
    (next : Except DurableError V → Schedule V O) (evaluation : Evaluation O) (now : Instant)
    (done : List Operation) (pauses : List Pause) (after : Invocation V) :
    Reply V → Prop where
  | goesOn {update : OperationUpdate} {outcome : Except DurableError V}
      {record : Operation} {rest : List Operation} (closure : job.task.Closure update outcome)
      (aligned : schedule.Aligned (next outcome) evaluation now (done ++ [record]) rest pauses
        after) :
      StepKept schedule job next evaluation now done pauses after (.returned outcome)
  | stopped (outcome : Except DurableError V)
      (stopped : schedule.Stopped evaluation now pauses after) :
      StepKept schedule job next evaluation now done pauses after (.returned outcome)

namespace Aligned

variable {schedule : Schedule V O} {evaluation : Evaluation O} {now : Instant}
  {done rest : List Operation} {pauses : List Pause} {before after : Invocation V}

theorem logCall {current : Schedule V O}
    (aligned : schedule.Aligned current evaluation now done rest pauses before)
    (level : LogLevel) (message : String) :
    schedule.Aligned current evaluation now done rest pauses (before.logCall level message) := by
  obtain ⟨_, _, extension, _⟩ := Invocation.logCall_course before level message
  have sameClock := before.logCall_clock level message
  exact ⟨aligned.stands.logCall level message,
    (congrArg Clock.now sameClock).trans aligned.reading,
    extension.faults.trans aligned.reliable, aligned.past, aligned.due, aligned.remains,
    aligned.whole⟩

theorem observe {current : Schedule V O}
    (aligned : schedule.Aligned current evaluation now done rest pauses before) :
    schedule.Aligned current evaluation now done rest pauses
      (before.emit (.observed before.observation)) :=
  ⟨aligned.stands.observe, aligned.reading, aligned.reliable, aligned.past, aligned.due,
    aligned.remains, aligned.whole⟩

theorem proceed {current following : Schedule V O} {record : Operation}
    {later : List Operation} {left : List Pause} {kind : OperationKind}
    {emitted : List (Occurrence V)}
    (aligned : schedule.Aligned current evaluation now done rest pauses before)
    (sameClock : after.clock = before.clock)
    (called : Invocation.Called before after kind record.name emitted none)
    (holds : after.log.Holds (done ++ record :: later)) (ended : record.isTerminal = true)
    (inRest : ∀ other ∈ later, other ∈ rest)
    (remains : following.Remains (done ++ [record]) later evaluation left)
    (further : ∀ later pauses, following.Remains (done ++ [record]) later evaluation pauses →
      current.Remains done (record :: later) evaluation pauses) :
    schedule.Aligned following evaluation now (done ++ [record]) later left after := by
  constructor
  · exact aligned.stands.proceed called holds
  · exact (congrArg Clock.now sameClock).trans aligned.reading
  · exact called.extension.faults.trans aligned.reliable
  · intro other member
    rcases List.mem_append.mp member with before | here
    · exact aligned.past other before
    · rw [List.mem_singleton.mp here]
      exact ended
  · intro other member
    exact aligned.due other (inRest other member)
  · exact remains
  · intro rest pauses remains
    rw [List.append_assoc, List.singleton_append]
    exact aligned.whole _ pauses (further rest pauses remains)

theorem refuse {current : Schedule V O} {kind : OperationKind} {name : String}
    {emitted : List (Occurrence V)} {error : DurableError}
    (aligned : schedule.Aligned current evaluation now done [] [] before)
    (called : Invocation.Called before after kind name emitted (some (.fatal error)))
    (silent : Occurrence.records emitted = [])
    (evaluates : evaluation = .ofOutcome (.error error) (done.map Operation.timeless)) :
    schedule.Stopped evaluation now [] after := by
  have holds := aligned.stands.unwritten called silent
  rw [List.append_nil] at holds
  constructor
  · exact ⟨_, called.halt⟩
  · intro outcome
    exact .ended (.inr ⟨error, called.halt, rfl⟩) holds aligned.past evaluates rfl rfl

theorem suspend {current : Schedule V O} {kind : OperationKind} {name : String}
    {emitted : List (Occurrence V)} {last : Operation} {wake : Instant} {pause : Pause}
    {left : List Pause}
    (aligned : schedule.Aligned current evaluation now done rest (pause :: left) before)
    (called : Invocation.Called before after kind name emitted (some (.suspended wake)))
    (holds : after.log.Holds (done ++ [last])) (waits : last.Waits wake)
    (ends : wake = now.add pause.duration) (suspends : pause.Suspends now)
    (remains : current.Remains done [last] evaluation left) :
    schedule.Stopped evaluation now (pause :: left) after := by
  have later : pause.elapse now = now.max wake := by
    rw [ends]
    rfl
  constructor
  · exact ⟨_, called.halt⟩
  · intro outcome
    apply Passed.suspended called.halt holds aligned.past waits (aligned.whole _ _ remains)
    · rw [Pause.suspensions_of_suspends suspends, later]
    · rw [Pause.reading, List.foldl_cons, later]
      rfl

variable {job : Job V} {next : Except DurableError V → Schedule V O} {call : StepCall V}
  {reply : Reply V} {middle : List (Occurrence V)}

/-- The attempt that is due closes the step, or suspends the invocation until the next
one. -/
theorem attempt {number : Nat} {delays : List Duration} {update : OperationUpdate}
    {outcome : Except DurableError V}
    (aligned : schedule.Aligned (.step job next) evaluation now done rest
      (delays.map .retry ++ pauses) before)
    (performs : Performs call job) (still : ∀ context, (call.body context).Still)
    (sameClock : after.clock = before.clock)
    (fresh : Plan.declaredAt? done job.name = none)
    (ends : job.Ends (number + 1) delays update outcome)
    (walks : (next outcome).Walks
      ((done ++ [(Operation.step done.length job.name).withState update]).map
        Operation.timeless) evaluation pauses)
    (last : rest.length ≤ 1)
    (base : ∀ state, (call.base before).withState state =
      (Operation.step done.length job.name).withState state)
    (course : AttemptCourse before call (number + 1) reply middle)
    (called : Invocation.Called before after .step call.name
      (middle ++ reply.returning call.name after) reply.halt?) :
    schedule.StepKept job next evaluation now done (delays.map .retry ++ pauses) after
      reply := by
  have returning := (reply.returning_quiet call.name after).records_append middle
  have states := course.states
  cases course with
  | unmarked error guarded faulty => exact absurd aligned.reliable faulty
  | crashed chatter logs dies => exact absurd dies (performs.survives before (number + 1))
  | lost chatter logs reading update outcome closes error faulty =>
      exact absurd aligned.reliable faulty
  | closed chatter logs reading written seen closes diagnostic timed =>
      have sameReading : reading = now := by
        rw [timed, StepCall.clockAfter, (still _).clockAfter]
        exact aligned.reading
      have latest := call.latest?_closing before (number + 1) logs reading written diagnostic
      rw [← returning] at latest
      have holds : after.log.Holds (done ++ [(call.base before).withState written]) := by
        apply aligned.stands.wrote last called _ latest
        intro operation member
        rw [returning] at member
        obtain ⟨state, rfl⟩ := states operation member
        rw [base, aligned.stands.ordinal]
        rfl
      rw [base] at holds
      rcases performs.closing? closes with closes | ⟨delay, granted, rfl, rfl⟩
      · -- The step is closed: the pauses are those behind it.
        obtain ⟨rfl, rfl, rfl⟩ := ends.of_closes closes
        have closure := Task.close?_closure closes
        have goesOn : Invocation.haltOf? outcome = none := by cases closure <;> rfl
        rw [performs.name] at called
        simp only [Reply.halt?, goesOn] at called
        apply StepKept.goesOn closure
        apply aligned.proceed sameClock called holds
        · cases closure <;> rfl
        · simp
        · exact .ahead walks
        · intro later pauses remains
          exact .closed fresh closure remains
      · obtain ⟨later, rfl, endsLater⟩ := ends.of_granted granted
        apply StepKept.stopped
        rw [sameReading] at called holds
        apply aligned.suspend called holds ⟨rfl, rfl⟩ rfl trivial
        exact .retrying fresh endsLater walks

/-- A closed step is replayed. -/
theorem replay {update : OperationUpdate} {outcome : Except DurableError V}
    {later : List Operation}
    (aligned : schedule.Aligned (.step job next) evaluation now done
      ((Operation.step done.length job.name).withState update :: later) pauses before)
    (performs : Performs call job)
    (decodes : ∀ value payload, job.codec.encode value = .ok payload →
      job.codec.decode payload = .ok value)
    (sameClock : after.clock = before.clock)
    (fresh : Plan.declaredAt? done job.name = none)
    (closure : job.task.Closure update outcome)
    (remains : (next outcome).Remains
      (done ++ [(Operation.step done.length job.name).withState update]) later evaluation
      pauses)
    (course : PlanCourse before call
      (.ofRecord (some ((Operation.step done.length job.name).withState update))
        call.config.semantics before.now) reply middle)
    (called : Invocation.Called before after .step call.name
      (middle ++ reply.returning call.name after) reply.halt?) :
    schedule.StepKept job next evaluation now done pauses after reply := by
  have replayed : reply = .returned outcome ∧ Occurrence.records middle = [] := by
    cases closure with
    | succeeded attempt value payload encoded =>
        cases course
        refine ⟨?_, rfl⟩
        have decoded := decodes value payload encoded
        simp [Operation.replay, Operation.withState, OperationUpdate.succeeded,
          performs.codec, decoded, Except.mapError]
    | failed attempt error =>
        cases course
        exact ⟨rfl, rfl⟩
  obtain ⟨rfl, silent⟩ := replayed
  have goesOn : Invocation.haltOf? outcome = none := by cases closure <;> rfl
  have holds := aligned.stands.unwritten called
    (((Reply.returning_quiet _ call.name after).records_append middle).trans silent)
  rw [performs.name] at called
  simp only [Reply.halt?, goesOn] at called
  apply StepKept.goesOn closure
  apply aligned.proceed sameClock called holds
  · cases closure <;> rfl
  · intro other member
    exact List.mem_cons_of_mem _ member
  · exact remains
  · intro later pauses remains
    exact .closed fresh closure remains

theorem fits
    (aligned : schedule.Aligned (.step job next) evaluation now done rest pauses before) :
    ∀ record, rest.head? = some record → record.kind = .step ∧ record.name = job.name := by
  intro record found
  cases aligned.remains with
  | ahead walks => cases found
  | closed fresh closure remains =>
      cases found
      exact ⟨rfl, rfl⟩
  | retrying fresh ends walks =>
      cases found
      exact ⟨rfl, rfl⟩

theorem step
    (aligned : schedule.Aligned (.step job next) evaluation now done rest pauses before)
    (performs : Performs call job)
    (decodes : ∀ value payload, job.codec.encode value = .ok payload →
      job.codec.decode payload = .ok value)
    (still : ∀ context, (call.body context).Still) (sameClock : after.clock = before.clock)
    (course : StepCourse before call reply middle)
    (called : Invocation.Called before after .step call.name
      (middle ++ reply.returning call.name after) reply.halt?) :
    schedule.StepKept job next evaluation now done pauses after reply := by
  have names := Plan.declaredAt?_timeless done job.name
  have base := aligned.stands.base call
  have fits := aligned.fits
  rw [← performs.name] at fits
  rcases aligned.stands.step course fits with ⟨first, known, rfl, rfl⟩ | ⟨fresh, course⟩
  · rw [performs.name] at known
    cases aligned.remains with
    | closed fresh closure remains => cases known.symm.trans fresh
    | retrying fresh ends walks => cases known.symm.trans fresh
    | ahead walks =>
        cases walks with
        | step fresh ends rest => cases (known.symm.trans names.symm).trans fresh
        | stepTwice again =>
            obtain rfl := Option.some.inj ((names.trans known).symm.trans again)
            rw [performs.name] at called
            exact .stopped _ (aligned.refuse called rfl rfl)
  · rw [performs.name] at fresh base
    cases aligned.remains with
    | closed _ closure remains =>
        exact aligned.replay performs decodes sameClock fresh closure remains course called
    | ahead walks =>
        cases walks with
        | stepTwice known => cases (fresh.symm.trans names.symm).trans known
        | @step _ _ _ delays update _ _ _ _ ends walks =>
            have start : ∀ state, (call.base before).withState state =
                (Operation.step done.length job.name).withState state := by
              intro state
              rw [base]
              rfl
            rw [List.length_map] at walks
            cases course with
            | attempted number unfinished notDecreasing course =>
                apply aligned.attempt performs still sameClock fresh ends _ (Nat.zero_le 1) start
                  course called
                rw [List.map_append, List.map_singleton, ends.task.closure.timeless]
                exact walks
    | @retrying _ _ _ attempts readyAt _ _ _ _ _ _ ends walks =>
        have start : ∀ state, (call.base before).withState state =
            (Operation.step done.length job.name).withState state := by
          intro state
          rw [base]
          rfl
        have ready := aligned.due _ List.mem_cons_self rfl
        rw [← aligned.reading] at ready
        have planned : StepPlan.ofRecord
            (some ((Operation.step done.length job.name).withState
              (.retryScheduled attempts readyAt))) call.config.semantics before.now =
            .attempt (attempts + 1) := if_pos ready
        rw [List.head?_cons, planned] at course
        cases course with
        | attempted number unfinished notDecreasing course =>
            exact aligned.attempt performs still sameClock fresh ends walks (Nat.le_refl 1) start
              course called

end Aligned

/-- The invocation after a wait call of the schedule. -/
inductive WaitKept (schedule : Schedule V O) (duration : Duration) (next : Schedule V O)
    (evaluation : Evaluation O) (now : Instant) (done : List Operation) (pauses : List Pause)
    (after : Invocation V) : Except DurableError Unit → Prop where
  | goesOn {record : Operation} {rest : List Operation}
      (aligned : schedule.Aligned next evaluation now (done ++ [record]) rest pauses after) :
      WaitKept schedule duration next evaluation now done pauses after (.ok ())
  | passed {record : Operation} {left : List Pause} (due : now.add duration ≤ now)
      (ahead : pauses = .wait duration :: left)
      (aligned : schedule.Aligned next evaluation now (done ++ [record]) [] left after) :
      WaitKept schedule duration next evaluation now done pauses after (.ok ())
  | stopped (outcome : Except DurableError Unit)
      (stopped : schedule.Stopped evaluation now pauses after) :
      WaitKept schedule duration next evaluation now done pauses after outcome

namespace Aligned

variable {schedule : Schedule V O} {evaluation : Evaluation O} {now : Instant}
  {done rest : List Operation} {pauses : List Pause} {before after : Invocation V}
  {call : WaitCall} {next : Schedule V O} {outcome : Except DurableError Unit}
  {middle : List (Occurrence V)}

theorem fitsWait
    (aligned : schedule.Aligned (.wait call.name call.duration next) evaluation now done rest
      pauses before) :
    ∀ record, rest.head? = some record → record.kind = .timer ∧ record.name = call.name := by
  intro record found
  cases aligned.remains with
  | ahead walks => cases found
  | elapsed fresh remains =>
      cases found
      exact ⟨rfl, rfl⟩
  | waiting fresh walks =>
      cases found
      exact ⟨rfl, rfl⟩

/-- A wait without a record starts its timer, which may be over at once. -/
theorem startWait {left : List Pause}
    (aligned : schedule.Aligned (.wait call.name call.duration next) evaluation now done []
      (.wait call.duration :: left) before)
    (sameClock : after.clock = before.clock)
    (fresh : Plan.declaredAt? done call.name = none)
    (walks : ∀ readyAt, next.Walks
      ((done ++ [(Operation.timer done.length call.name readyAt).elapsed]).map
        Operation.timeless) evaluation left)
    (course : TimerCourse before call .start outcome middle)
    (called : Invocation.Called before after .timer call.name
      (middle ++ [⟨after.now, .waitReturned call.name outcome after.isReplaying⟩])
      (Invocation.haltOf? outcome)) :
    schedule.WaitKept call.duration next evaluation now done (.wait call.duration :: left) after
      outcome := by
  have timer : call.timer before =
      .timer done.length call.name (now.add call.duration) := by
    rw [WaitCall.timer, aligned.stands.ordinal, aligned.reading]
  cases course with
  | lost written error faulty => exact absurd aligned.reliable faulty
  | passed due =>
      have holds : after.log.Holds (done ++ [(call.timer before).elapsed]) :=
        aligned.stands.wroteOne (Nat.zero_le 1) called rfl rfl
      rw [timer] at holds
      rw [aligned.reading] at due
      apply WaitKept.passed due rfl
      apply aligned.proceed sameClock called holds rfl
      · simp
      · exact .ahead (walks _)
      · intro later pauses remains
        exact .elapsed fresh remains
  | started notDue diagnostic =>
      have holds : after.log.Holds (done ++ [call.timer before]) :=
        aligned.stands.wroteOne (Nat.zero_le 1) called rfl rfl
      rw [timer] at holds
      rw [aligned.reading] at notDue called
      apply WaitKept.stopped
      apply aligned.suspend called holds ⟨rfl, rfl⟩ rfl notDue
      exact .waiting fresh (walks _)

theorem wait
    (aligned : schedule.Aligned (.wait call.name call.duration next) evaluation now done rest
      pauses before)
    (sameClock : after.clock = before.clock) (course : WaitCourse before call outcome middle)
    (called : Invocation.Called before after .timer call.name
      (middle ++ [⟨after.now, .waitReturned call.name outcome after.isReplaying⟩])
      (Invocation.haltOf? outcome)) :
    schedule.WaitKept call.duration next evaluation now done pauses after outcome := by
  have names := Plan.declaredAt?_timeless done call.name
  rcases aligned.stands.wait course aligned.fitsWait with
    ⟨first, known, rfl, rfl⟩ | ⟨fresh, course⟩
  · cases aligned.remains with
    | elapsed fresh remains => cases known.symm.trans fresh
    | waiting fresh walks => cases known.symm.trans fresh
    | ahead walks =>
        cases walks with
        | wait fresh rest => cases (known.symm.trans names.symm).trans fresh
        | waitTwice again =>
            obtain rfl := Option.some.inj ((names.trans known).symm.trans again)
            exact .stopped _ (aligned.refuse called rfl rfl)
  · cases aligned.remains with
    | ahead walks =>
        cases walks with
        | waitTwice known => cases (fresh.symm.trans names.symm).trans known
        | wait _ walks =>
            apply aligned.startWait sameClock fresh _ course called
            intro readyAt
            rw [List.length_map] at walks
            rw [List.map_append]
            exact walks
    | elapsed _ remains =>
        cases course
        have holds := aligned.stands.unwritten called rfl
        apply WaitKept.goesOn
        apply aligned.proceed sameClock called holds rfl
        · intro other member
          exact List.mem_cons_of_mem _ member
        · exact remains
        · intro later pauses remains
          exact .elapsed fresh remains
    | @waiting _ _ _ _ readyAt _ _ _ walks =>
        have ready := aligned.due _ List.mem_cons_self rfl
        rw [← aligned.reading] at ready
        have planned : WaitPlan.ofRecord (some (.timer done.length call.name readyAt))
            before.now = .elapse (.timer done.length call.name readyAt) := if_pos ready
        rw [List.head?_cons, planned] at course
        cases course with
        | unelapsed timer error faulty => exact absurd aligned.reliable faulty
        | elapsed timer diagnostic =>
            have holds : after.log.Holds
                (done ++ [(Operation.timer done.length call.name readyAt).elapsed]) :=
              aligned.stands.wroteOne (Nat.le_refl 1) called rfl aligned.stands.ordinal.symm
            apply WaitKept.goesOn
            apply aligned.proceed sameClock called holds rfl
            · simp
            · exact .ahead walks
            · intro later pauses remains
              exact .elapsed fresh remains

end Aligned

end Schedule

/-- A pass of a workflow that keeps to what is left of the schedule. -/
theorem Workflow.Keeps.run {workflow : Workflow V O} {current : Schedule V O}
    (keeps : workflow.Keeps current) (still : workflow.Still) (decodes : current.Decodes)
    {schedule : Schedule V O} {evaluation : Evaluation O} {now : Instant}
    {done rest : List Operation} {pauses : List Pause} {before : Invocation V}
    (aligned : schedule.Aligned current evaluation now done rest pauses before) :
    schedule.Passed evaluation now pauses (workflow.run before).2 (workflow.run before).1 := by
  induction keeps generalizing before done rest pauses with
  | done outcome =>
      cases aligned.remains with
      | ahead walks =>
          cases walks
          have holds := aligned.stands.holds
          rw [List.append_nil] at holds
          exact .ended (.inl ⟨aligned.stands.free, rfl⟩) holds aligned.past rfl rfl rfl
  | @step name config codec body next job scheduleNext performs keeps induction =>
      let call : StepCall V := ⟨name, config, codec, body⟩
      cases stepped : before.step name config codec body with
      | mk reply after =>
          have sameClock := before.step_clock name config codec still.1
          rw [stepped] at sameClock
          obtain ⟨middle, course, called⟩ :=
            Invocation.step_course aligned.stands.free call stepped
          have kept := aligned.step performs decodes.1 still.1 sameClock course called
          simp only [Workflow.run, stepped]
          cases kept with
          | goesOn closure alignedAfter =>
              exact induction _ _ closure (still.2 _) (decodes.2 _) alignedAfter
          | stopped outcome stopped => exact stopped.run (next outcome)
  | @wait name duration next scheduleNext keeps induction =>
      let call : WaitCall := ⟨name, duration⟩
      cases waited : before.wait name duration with
      | mk outcome after =>
          have sameClock := before.wait_clock name duration
          rw [waited] at sameClock
          obtain ⟨middle, course, called⟩ :=
            Invocation.wait_course aligned.stands.free call waited
          have alignedHere : schedule.Aligned (.wait call.name call.duration scheduleNext)
            evaluation now done rest pauses before := aligned
          have kept := alignedHere.wait sameClock course called
          simp only [Workflow.run, waited]
          cases kept with
          | goesOn alignedAfter => exact induction (still _) decodes alignedAfter
          | passed due ahead alignedAfter =>
              rw [ahead]
              exact (induction (still _) decodes alignedAfter).before_wait due
          | stopped _ stopped => exact stopped.run (next outcome)
  | log keeps induction => exact induction still decodes (aligned.logCall _ _)
  | observe keeps induction => exact induction _ (still _) decodes aligned.observe

end Durable
