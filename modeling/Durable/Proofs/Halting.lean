import Durable.Proofs.PassCalls

/-!
# Halting

The first error of a certain kind that a call returns halts the invocation.  From then on
every call returns the same error and does nothing, whatever the workflow makes of the
errors, and the answer to the invocation is decided by that error alone.
-/

namespace Durable

variable {V O : Type}

open Occurrence

namespace DurableError

/-- The errors that halt the invocation in which a call returns them. -/
def halts : DurableError → Bool
  | .suspended _ | .checkpoint _ => true
  | .replayMismatch .. | .duplicateOperationName _ _ | .invalidOperationState _ _
  | .serialization _ => true
  | .stepFailed _ _ | .stepInterrupted _ _ | .workflow _ => false

end DurableError

namespace Halt

theorem ofError?_of_halts {error : DurableError} (halts : error.halts = true) :
    ∃ halt, ofError? error = some halt ∧ halt.toError = error := by
  cases error <;> first | exact ⟨_, rfl, rfl⟩ | simp [DurableError.halts] at halts

theorem ofError?_of_not_halts {error : DurableError} (goesOn : error.halts = false) :
    ofError? error = none := by
  cases error <;> first | rfl | simp [DurableError.halts] at goesOn

end Halt

namespace Invocation

variable {before : Invocation V} {halt : Halt}

theorem settle_store (invocation : Invocation V) (outcome : Except DurableError α) :
    (invocation.settle outcome).store = invocation.store := by
  unfold settle noteHalt
  split <;> rfl

/-- Between the two states nothing was appended, no body was begun and no ordinal was
taken. -/
structure Idle (before after : Invocation V) : Prop where
  records : records after.occurrences = records before.occurrences
  bodies : bodies after.occurrences = bodies before.occurrences
  log : after.log = before.log
  store : after.store = before.store
  place : SamePlace before after

namespace Idle

theorem refl (invocation : Invocation V) : Idle invocation invocation :=
  ⟨rfl, rfl, rfl, rfl, .refl invocation⟩

theorem trans {first second third : Invocation V} (earlier : Idle first second)
    (later : Idle second third) : Idle first third :=
  ⟨later.records.trans earlier.records, later.bodies.trans earlier.bodies,
    later.log.trans earlier.log, later.store.trans earlier.store,
    earlier.place.trans later.place⟩

end Idle

theorem emit_idle (invocation : Invocation V) (effect : Effect V)
    (silent : effect.record? = none) (idle : effect.isBody = false) :
    Idle invocation (invocation.emit effect) := by
  have isQuiet := emit_quiet invocation effect silent idle
  exact ⟨isQuiet.records_append _, isQuiet.bodies_append _, rfl, rfl, ⟨rfl, rfl, rfl⟩⟩

theorem advance_idle (invocation : Invocation V) (duration : Duration) :
    Idle invocation (invocation.advance duration) :=
  ⟨rfl, rfl, rfl, rfl, ⟨rfl, rfl, rfl⟩⟩

theorem logCall_idle (invocation : Invocation V) (level : LogLevel) (message : String) :
    Idle invocation (invocation.logCall level message) := by
  unfold logCall
  split
  · exact .refl invocation
  · exact emit_idle invocation _ rfl rfl

theorem settle_idle (halted : before.halt = some halt) (outcome : Except DurableError α)
    {effect : Effect V} (silent : effect.record? = none) (idle : effect.isBody = false) :
    Idle before ((before.settle outcome).emit effect) := by
  have extension : Extends before ((before.settle outcome).emit effect) _ :=
    (settle_extends before outcome).trans (.emit _ effect silent)
  have isQuiet := emit_quiet (before.settle outcome) effect silent idle
  constructor
  · rw [extension.occurrences]
    exact isQuiet.records_append _
  · rw [extension.occurrences]
    exact isQuiet.bodies_append _
  · exact (settle_extends before outcome).log
  · exact settle_store before outcome
  · exact (settle_halted halted outcome).trans ⟨rfl, rfl, rfl⟩

theorem step_stays_halted (halted : before.halt = some halt) (call : StepCall V) :
    ∃ after, before.step call.name call.config call.codec call.body =
        (.returned (.error halt.toError), after) ∧ Idle before after :=
  ⟨_, step_halted halted call, settle_idle halted _ rfl rfl⟩

theorem wait_stays_halted (halted : before.halt = some halt) (call : WaitCall) :
    ∃ after, before.wait call.name call.duration = (.error halt.toError, after) ∧
      Idle before after :=
  ⟨_, wait_halted halted call, settle_idle halted _ rfl rfl⟩

end Invocation

/-- A pass that was halted returns, and does nothing but report. -/
theorem Workflow.run_idle (workflow : Workflow V O) {before : Invocation V} {halt : Halt}
    (halted : before.halt = some halt) :
    ∃ outcome after, workflow.run before = (.returned outcome, after) ∧
      Invocation.Idle before after := by
  induction workflow generalizing before with
  | done outcome => exact ⟨outcome, before, rfl, .refl before⟩
  | step name config codec body next induction =>
      obtain ⟨middle, stepped, idle⟩ :=
        Invocation.step_stays_halted halted ⟨name, config, codec, body⟩
      obtain ⟨outcome, after, ran, rest⟩ :=
        induction (.error halt.toError) (idle.place.halt.trans halted)
      exact ⟨outcome, after, by simp only [run, stepped, ran], idle.trans rest⟩
  | wait name duration next induction =>
      obtain ⟨middle, waited, idle⟩ := Invocation.wait_stays_halted halted ⟨name, duration⟩
      obtain ⟨outcome, after, ran, rest⟩ :=
        induction (.error halt.toError) (idle.place.halt.trans halted)
      exact ⟨outcome, after, by simp only [run, waited, ran], idle.trans rest⟩
  | log level message next induction =>
      have idle := Invocation.logCall_idle before level message
      obtain ⟨outcome, after, ran, rest⟩ := induction (idle.place.halt.trans halted)
      exact ⟨outcome, after, ran, idle.trans rest⟩
  | observe next induction =>
      have idle := Invocation.emit_idle before (.observed before.observation) rfl rfl
      obtain ⟨outcome, after, ran, rest⟩ := induction before.observation
        (idle.place.halt.trans halted)
      exact ⟨outcome, after, ran, idle.trans rest⟩
  | advance duration next induction =>
      have idle := Invocation.advance_idle before duration
      obtain ⟨outcome, after, ran, rest⟩ := induction (idle.place.halt.trans halted)
      exact ⟨outcome, after, ran, idle.trans rest⟩

theorem Workflow.run_halted (workflow : Workflow V O) {before : Invocation V} {halt : Halt}
    (halted : before.halt = some halt) :
    ∃ outcome after, workflow.run before = (.returned outcome, after) ∧
      after.halt = some halt ∧ after.log = before.log := by
  obtain ⟨outcome, after, ran, idle⟩ := workflow.run_idle halted
  exact ⟨outcome, after, ran, idle.place.halt.trans halted, idle.log⟩

theorem Workflow.calls_halted {workflow : Workflow V O} {before : Invocation V} {halt : Halt}
    (halted : before.halt = some halt) {made : MadeCall V}
    (member : made ∈ workflow.calls before) : made.before.halt = some halt := by
  have kept : Invocation.Preserved (fun _ : StepCall V => True)
      (fun invocation => invocation.halt = some halt)
      (fun invocation => invocation.halt = some halt) := by
    refine ⟨id, ?_, ?_, ?_⟩
    · intro before after emitted extension isQuiet place halted
      exact place.halt.trans halted
    · intro before after call reply middle _ free course called halted
      simp [free] at halted
    · intro before after call outcome middle free course called halted
      simp [free] at halted
  exact (kept.calls workflow.everyStep_true halted member).1

namespace MadeCall

variable {made : MadeCall V}

/-- A call in a halted invocation returns the error of the halt and does nothing. -/
theorem of_halted {halt : Halt} (halted : made.before.halt = some halt) :
    made.reply = .returned (.error halt.toError) ∧ Invocation.Idle made.before made.after := by
  obtain ⟨before, declaration⟩ := made
  cases declaration with
  | step call =>
      obtain ⟨finished, stepped, idle⟩ := Invocation.step_stays_halted halted call
      simp only [reply, after, result, stepped]
      exact ⟨rfl, idle⟩
  | wait call =>
      obtain ⟨finished, waited, idle⟩ := Invocation.wait_stays_halted halted call
      simp only [reply, after, result, waited]
      exact ⟨rfl, idle⟩

theorem halt_after (free : made.before.halt = none)
    {outcome : Except DurableError (Option V)} (returned : made.reply = .returned outcome) :
    made.after.halt = Invocation.haltOf? outcome := by
  obtain ⟨before, declaration⟩ := made
  cases declaration with
  | step call =>
      cases stepped : before.step call.name call.config call.codec call.body with
      | mk given finished =>
          obtain ⟨middle, course, called⟩ := Invocation.step_course free call stepped
          simp only [reply, after, result, stepped] at returned ⊢
          cases given with
          | crashed => simp at returned
          | returned seen =>
              cases returned
              rw [Invocation.haltOf?_map]
              exact called.halt
  | wait call =>
      cases waited : before.wait call.name call.duration with
      | mk seen finished =>
          obtain ⟨middle, course, called⟩ := Invocation.wait_course free call waited
          simp only [reply, after, result, waited] at returned ⊢
          cases returned
          rw [Invocation.haltOf?_map]
          exact called.halt

/-- The call returned an error that halts its invocation. -/
def Halts (made : MadeCall V) : Prop :=
  ∃ error, made.reply = .returned (.error error) ∧ error.halts = true

theorem free_after (made : MadeCall V) (free : made.before.halt = none)
    (returns : made.reply ≠ .crashed) (goesOn : ¬made.Halts) : made.after.halt = none := by
  cases replied : made.reply with
  | crashed => exact absurd replied returns
  | returned outcome =>
      rw [halt_after free replied]
      cases outcome with
      | ok value => rfl
      | error error =>
          apply Halt.ofError?_of_not_halts
          cases halts : error.halts with
          | false => rfl
          | true => exact absurd ⟨error, replied, halts⟩ goesOn

end MadeCall

namespace Workflow

theorem calls_head_idle {workflow : Workflow V O} {before : Invocation V}
    {later : List (MadeCall V)} {made : MadeCall V}
    (first : workflow.calls before = made :: later) : Invocation.Idle before made.before := by
  induction workflow generalizing before with
  | done outcome => simp [calls] at first
  | step name config codec body next _ =>
      simp only [calls, List.cons.injEq] at first
      rw [← first.1]
      exact .refl before
  | wait name duration next _ =>
      simp only [calls, List.cons.injEq] at first
      rw [← first.1]
      exact .refl before
  | log level message next induction =>
      exact (Invocation.logCall_idle before level message).trans (induction first)
  | observe next induction =>
      exact (Invocation.emit_idle before (.observed before.observation) rfl rfl).trans
        (induction before.observation first)
  | advance duration next induction =>
      exact (Invocation.advance_idle before duration).trans (induction first)

theorem calls_head_free {workflow : Workflow V O} {before : Invocation V}
    (free : before.halt = none) {later : List (MadeCall V)} {made : MadeCall V}
    (first : workflow.calls before = made :: later) : made.before.halt = none :=
  (calls_head_idle first).place.halt.trans free

/-- Up to the first call that halts, no call of a pass finds a halt. -/
theorem calls_free {workflow : Workflow V O} {before : Invocation V}
    (free : before.halt = none) {passed later : List (MadeCall V)} {made : MadeCall V}
    (split : workflow.calls before = passed ++ made :: later)
    (goesOn : ∀ earlier ∈ passed, ¬earlier.Halts) : made.before.halt = none := by
  induction passed generalizing workflow before with
  | nil => exact calls_head_free free split
  | cons head passed induction =>
      have headFree := calls_head_free free split
      have first : workflow.calls before = [] ++ head :: (passed ++ made :: later) := split
      rcases calls_split first with ⟨_, none, _⟩ | ⟨rest, returns, same, _⟩
      · simp at none
      · exact induction (head.free_after headFree returns (goesOn head (by simp))) same.symm
          fun earlier member => goesOn earlier (by simp [member])

/-- A pass none of whose calls halted is not halted at its end. -/
theorem run_free {workflow : Workflow V O} {before : Invocation V}
    (free : before.halt = none) (goesOn : ∀ made ∈ workflow.calls before, ¬made.Halts)
    {outcome : Except DurableError O} {final : Invocation V}
    (ran : workflow.run before = (.returned outcome, final)) : final.halt = none := by
  induction workflow generalizing before with
  | done returned =>
      cases ran
      exact free
  | step name config codec body next induction =>
      let made : MadeCall V := ⟨before, .step ⟨name, config, codec, body⟩⟩
      have head : ¬made.Halts := goesOn made (by simp [made, calls])
      cases stepped : before.step name config codec body with
      | mk reply after =>
          simp only [run, calls, stepped] at ran goesOn
          cases reply with
          | crashed => simp at ran
          | returned seen =>
              have replied : made.result = (.returned (seen.map some), after) := by
                simp only [made, MadeCall.result, stepped]
              have freeAfter := made.free_after free (by simp [MadeCall.reply, replied]) head
              rw [MadeCall.after, replied] at freeAfter
              exact induction seen freeAfter
                (fun later member => goesOn later (List.mem_cons_of_mem _ member)) ran
  | wait name duration next induction =>
      let made : MadeCall V := ⟨before, .wait ⟨name, duration⟩⟩
      have head : ¬made.Halts := goesOn made (by simp [made, calls])
      have freeAfter := made.free_after free
        (by simp [made, MadeCall.reply, MadeCall.result]) head
      exact induction _ freeAfter
        (fun later member => goesOn later (List.mem_cons_of_mem _ member)) ran
  | log level message next induction =>
      obtain ⟨_, _, _, place⟩ := Invocation.logCall_course before level message
      exact induction (place.halt.trans free) goesOn ran
  | observe next induction =>
      have freeThere : (before.emit (.observed before.observation)).halt = none := free
      exact induction before.observation freeThere goesOn ran
  | advance duration next induction =>
      have freeThere : (before.advance duration).halt = none := free
      exact induction freeThere goesOn ran

end Workflow

namespace Verdict

/-- The verdict on an invocation that this error halted: the failing store is reported as a
failure of the engine, a suspension leaves the execution pending, and any other error
fails it. -/
def OfHalt (verdict : Verdict O) (error : DurableError) : Prop :=
  match error with
  | .checkpoint failure => verdict = .failed (.store failure)
  | .suspended _ => ∃ result, verdict = .finished result ∧ result.status = .pending ∧
      result.result = none ∧ result.error = none
  | other => ∃ result, verdict = .finished result ∧ result.status = .failed ∧
      result.result = none ∧ result.error = some other.toObject

/-- The verdict on an invocation that nothing halted and whose workflow returned this. -/
def OfReturn (verdict : Verdict O) (outcome : Except DurableError O) : Prop :=
  match outcome with
  | .ok output => ∃ result, verdict = .finished result ∧ result.status = .succeeded ∧
      result.result = some output ∧ result.error = none
  | .error error => ∃ result, verdict = .finished result ∧ result.status = .failed ∧
      result.result = none ∧ result.error = some error.toObject

end Verdict

namespace PassEnd

variable {final : Invocation V} {outcome : Except DurableError O}

/-- What the workflow returned does not count once an error has halted the invocation. -/
theorem verdict_ofHalt (executionId : String) {error : DurableError}
    (halted : final.halt = Halt.ofError? error) (halts : error.halts = true) :
    ((PassEnd.returned outcome).verdict executionId final).OfHalt error := by
  cases error with
  | suspended wake =>
      simp only [verdict, Invocation.close, halted, Halt.ofError?, Snapshot.result]
      exact ⟨_, rfl, rfl, rfl, rfl⟩
  | checkpoint failure =>
      simp only [verdict, Invocation.close, halted, Halt.ofError?, Snapshot.result]
      exact rfl
  | replayMismatch | duplicateOperationName | invalidOperationState | serialization =>
      simp only [verdict, Invocation.close, halted, Halt.ofError?, DurableError.isFatal, if_true,
        Snapshot.result]
      exact ⟨_, rfl, rfl, rfl, rfl⟩
  | stepFailed | stepInterrupted | workflow => simp [DurableError.halts] at halts

theorem verdict_ofReturn (executionId : String) (free : final.halt = none) :
    ((PassEnd.returned outcome).verdict executionId final).OfReturn outcome := by
  cases outcome with
  | ok output =>
      simp only [verdict, Invocation.close, free, Snapshot.result]
      exact ⟨_, rfl, rfl, rfl, rfl⟩
  | error error =>
      simp only [verdict, Invocation.close, free, Snapshot.result]
      exact ⟨_, rfl, rfl, rfl, rfl⟩

end PassEnd

/-- Halting is final and decides the answer.  Over any store with any faults, for any
workflow and clock: after the first call of an invocation that returned a halting error,
every call returns that error, appends nothing, runs no body and takes no ordinal, and
the error alone decides the verdict, whatever the workflow returns.  When no call
halted, the verdict is the outcome of the workflow, even if that is an error which would
have halted the invocation in a call. -/
theorem first_halting_error_decides (visit : Visit V O) (executionId : String) (store : Store) :
    (∀ passed made later error,
        visit.calls executionId store = passed ++ made :: later →
        (∀ earlier ∈ passed, ¬earlier.Halts) →
        made.reply = .returned (.error error) → error.halts = true →
        (∀ again ∈ later, again.reply = .returned (.error error) ∧
          Invocation.Idle again.before again.after) ∧
        (visit.answer executionId store).verdict.OfHalt error) ∧
      ∀ log after outcome final, OperationLog.load store executionId = (.ok log, after) →
        visit.workflow.run (visit.begun executionId log after) = (.returned outcome, final) →
        (∀ made ∈ visit.calls executionId store, ¬made.Halts) →
        (visit.answer executionId store).verdict.OfReturn outcome := by
  constructor
  · intro passed made later error split goesOn replied halts
    have member : made ∈ visit.calls executionId store := by simp [split]
    obtain ⟨log, after, loaded, _⟩ := Visit.mem_calls member
    simp only [Visit.calls, loaded] at split
    have free := Workflow.calls_free rfl split goesOn
    have haltedAfter := MadeCall.halt_after free replied
    obtain ⟨halt, kept, same⟩ := Halt.ofError?_of_halts halts
    rcases Workflow.calls_split split with ⟨crashed, _⟩ | ⟨rest, _, rfl, ran, _⟩
    · simp [replied] at crashed
    · have halted : made.after.halt = some halt := haltedAfter.trans kept
      constructor
      · intro again member
        have replies := MadeCall.of_halted (Workflow.calls_halted halted member)
        rw [same] at replies
        exact replies
      · obtain ⟨outcome, ended, restRan, haltedEnd, _⟩ := rest.run_halted halted
        rcases visit.answer_cases executionId store with
          ⟨failure, failedAfter, failed, _⟩ |
            ⟨sameLog, sameAfter, ending, final, closing, loadedAgain, ranAgain, _, _, _,
              verdict⟩
        · simp [loaded] at failed
        · cases loaded.symm.trans loadedAgain
          rw [ran, restRan] at ranAgain
          cases ranAgain
          rw [verdict]
          exact PassEnd.verdict_ofHalt executionId (haltedEnd.trans kept.symm) halts
  · intro log after outcome final loaded ran goesOn
    simp only [Visit.calls, loaded] at goesOn
    have free := Workflow.run_free rfl goesOn ran
    rcases visit.answer_cases executionId store with
      ⟨failure, failedAfter, failed, _⟩ |
        ⟨sameLog, sameAfter, ending, ended, closing, loadedAgain, ranAgain, _, _, _, verdict⟩
    · simp [loaded] at failed
    · cases loaded.symm.trans loadedAgain
      cases ran.symm.trans ranAgain
      rw [verdict]
      exact PassEnd.verdict_ofReturn executionId free

/-- A visit whose workflow goes on after a wait that has not ended. -/
def Visit.ofSwallowedWait : Visit Unit Unit where
  clock := ⟨default⟩
  suppressReplayLogs := false
  workflow :=
    .wait "w" (.ofSeconds 60) fun _ =>
      .step "x" .standard ⟨fun _ => .ok .null, fun _ => .ok ()⟩ (fun _ => ⟨[], .value ()⟩)
        fun _ => .done (.ok ())

theorem swallowed_suspension_decides :
    ∃ made again, Visit.ofSwallowedWait.calls "run" .empty = [made, again] ∧
      made.reply = .returned (.error (.suspended ⟨60, 0⟩)) ∧
      again.reply = .returned (.error (.suspended ⟨60, 0⟩)) ∧
      (Visit.ofSwallowedWait.answer "run" .empty).verdict.OfHalt (.suspended ⟨60, 0⟩) := by
  obtain ⟨later, verdict⟩ :=
    (first_halting_error_decides Visit.ofSwallowedWait "run" .empty).1 [] _ _ _ rfl (by simp)
      rfl rfl
  exact ⟨_, _, rfl, rfl, (later _ List.mem_cons_self).1, verdict⟩

end Durable
