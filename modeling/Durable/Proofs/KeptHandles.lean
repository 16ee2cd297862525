import Durable.Proofs.Halting

/-!
# Handles that are kept

All handles of an invocation share its state, so a call can be made through any of them and
at any time, also when the workflow has returned.  A halting error lasts for all handles up
to the snapshot that ends the invocation.  The snapshot takes the reason of the halt with
it: what is called through a handle afterwards is carried out.
-/

namespace Durable

variable {V O : Type}

open Occurrence

/-- What is done through a handle of an invocation. -/
inductive HandleUse (V : Type) where
  | call (declaration : Declaration V)
  | log (level : LogLevel) (message : String)
  | observe
  | advance (duration : Duration)

namespace Invocation

/-- The invocation once a handle has been used. -/
def use (invocation : Invocation V) : HandleUse V → Invocation V
  | .call declaration => (MadeCall.mk invocation declaration).after
  | .log level message => invocation.logCall level message
  | .observe => invocation.emit (.observed invocation.observation)
  | .advance duration => invocation.advance duration

/-- The invocation once its handles have been used in turn. -/
def useAll (invocation : Invocation V) (uses : List (HandleUse V)) : Invocation V :=
  uses.foldl use invocation

variable {invocation : Invocation V} {halt : Halt}

theorem use_idle (halted : invocation.halt = some halt) (use : HandleUse V) :
    Idle invocation (invocation.use use) := by
  cases use with
  | call declaration =>
      have call : (MadeCall.mk invocation declaration).before.halt = some halt := halted
      exact (MadeCall.of_halted call).2
  | log level message => exact logCall_idle invocation level message
  | observe => exact emit_idle invocation _ rfl rfl
  | advance duration => exact advance_idle invocation duration

theorem useAll_idle (halted : invocation.halt = some halt) (uses : List (HandleUse V)) :
    Idle invocation (invocation.useAll uses) := by
  induction uses generalizing invocation with
  | nil => exact .refl invocation
  | cons use uses induction =>
      have first := use_idle halted use
      exact first.trans (induction (first.place.halt.trans halted))

end Invocation

namespace MadeCall

variable {made : MadeCall V}

theorem halted_after {error : DurableError} (replied : made.reply = .returned (.error error))
    (halts : error.halts = true) :
    ∃ halt, made.after.halt = some halt ∧ halt.toError = error := by
  cases found : made.before.halt with
  | none =>
      obtain ⟨halt, kept, same⟩ := Halt.ofError?_of_halts halts
      exact ⟨halt, (halt_after found replied).trans kept, same⟩
  | some halt =>
      obtain ⟨sameReply, idle⟩ := of_halted found
      rw [sameReply, Reply.returned.injEq, Except.error.injEq] at replied
      exact ⟨halt, idle.place.halt.trans found, replied⟩

theorem nextOrdinal_after (free : made.before.halt = none) :
    made.after.nextOrdinal = made.before.nextOrdinal + 1 := by
  cases declared : made.declaration with
  | step call =>
      obtain ⟨_, _, _, called, _⟩ := step_called free declared
      exact called.nextOrdinal
  | wait call =>
      obtain ⟨_, _, _, called, _⟩ := wait_called free declared
      exact called.nextOrdinal

end MadeCall

namespace Visit

/-- The invocation of a visit whose workflow has returned, once its snapshot was taken: kept
handles still belong to it. -/
def closed? (visit : Visit V O) (executionId : String) (store : Store) :
    Option (Invocation V) :=
  match OperationLog.load store executionId with
  | (.error _, _) => none
  | (.ok log, after) =>
    match visit.workflow.run (visit.begun executionId log after) with
    | (.crashed, _) => none
    | (.returned _, final) => some final.close.2

/-- Kept handles work on the store that the answer leaves, and find no halt. -/
theorem answer_closed {visit : Visit V O} {executionId : String} {store : Store}
    {closed : Invocation V} (ended : visit.closed? executionId store = some closed) :
    (visit.answer executionId store).store = closed.store ∧ closed.halt = none := by
  unfold closed? at ended
  split at ended
  · cases ended
  next log after loaded =>
    obtain ⟨ending, final, _, ran, _, _, left, _⟩ := visit.answer_of_loaded loaded
    rw [ran] at ended
    cases ending with
    | crashed => cases ended
    | returned outcome =>
        cases ended
        exact ⟨left, rfl⟩

end Visit

/-- A halt lasts for all handles until the snapshot is taken, and no longer.  When a call of
any invocation has returned a halting error, every call through any handle returns the same
error, runs no body, appends nothing and takes no ordinal, whatever was done through the
handles in between; and a snapshot reports the halt.  After the snapshot of a visit every
call through a handle that was kept is carried out on the store that the answer has left:
it takes an ordinal, whatever halted the visit. -/
theorem halt_lasts_until_snapshot :
    (∀ (made : MadeCall V) (error : DurableError) (uses : List (HandleUse V))
        (declaration : Declaration V),
        made.reply = .returned (.error error) → error.halts = true →
        let later : MadeCall V := ⟨made.after.useAll uses, declaration⟩
        later.reply = .returned (.error error) ∧
          Invocation.Idle made.after later.before ∧ Invocation.Idle later.before later.after ∧
          later.before.close.1.halt.map Halt.toError = some error) ∧
      ∀ (visit : Visit V O) (executionId : String) (store : Store) (closed : Invocation V)
        (declaration : Declaration V),
        visit.closed? executionId store = some closed →
        let late : MadeCall V := ⟨closed, declaration⟩
        (visit.answer executionId store).store = closed.store ∧
          late.after.nextOrdinal = closed.nextOrdinal + 1 := by
  constructor
  · intro made error uses declaration replied halts later
    obtain ⟨halt, halted, same⟩ := MadeCall.halted_after replied halts
    have between : Invocation.Idle made.after later.before :=
      Invocation.useAll_idle halted uses
    have lasting : later.before.halt = some halt := between.place.halt.trans halted
    obtain ⟨sameReply, idle⟩ := MadeCall.of_halted lasting
    refine ⟨?_, between, idle, ?_⟩
    · rw [sameReply, same]
    · rw [Invocation.close, lasting, Option.map_some, same]
  · intro visit executionId store closed declaration ended late
    obtain ⟨left, free⟩ := Visit.answer_closed ended
    have lateFree : late.before.halt = none := free
    exact ⟨left, MadeCall.nextOrdinal_after lateFree⟩

/-- A visit whose workflow keeps a handle and waits for a minute. -/
def Visit.ofKeptHandle : Visit Unit Unit where
  clock := ⟨default⟩
  suppressReplayLogs := false
  workflow := .wait "w" (.ofSeconds 60) fun outcome => .done outcome

/-- The call that waits. -/
def MadeCall.ofKeptHandle : MadeCall Unit :=
  ⟨Visit.ofKeptHandle.begun "run" ⟨"run", []⟩ { Store.empty with reads := 1 },
    .wait ⟨"w", .ofSeconds 60⟩⟩

/-- The step that is called through the handle. -/
def Declaration.ofKeptHandle : Declaration Unit :=
  .step ⟨"x", .standard, ⟨fun _ => .ok .null, fun _ => .ok ()⟩, fun _ => ⟨[], .value ()⟩⟩

theorem kept_handle_is_halted_while_the_workflow_runs :
    let later : MadeCall Unit :=
      ⟨MadeCall.ofKeptHandle.after.useAll [.log .info "going on"], .ofKeptHandle⟩
    later.reply = .returned (.error (.suspended ⟨60, 0⟩)) ∧
      Invocation.Idle later.before later.after ∧
      ∃ closed, Visit.ofKeptHandle.closed? "run" .empty = some closed ∧
        (MadeCall.mk closed .ofKeptHandle).after.nextOrdinal = closed.nextOrdinal + 1 := by
  intro later
  obtain ⟨lasts, ends⟩ := halt_lasts_until_snapshot (V := Unit) (O := Unit)
  obtain ⟨sameReply, _, idle, _⟩ := lasts MadeCall.ofKeptHandle (.suspended ⟨60, 0⟩)
    [.log .info "going on"] .ofKeptHandle rfl rfl
  exact ⟨sameReply, idle, _, rfl, (ends Visit.ofKeptHandle "run" .empty _ _ rfl).2⟩

/-- A wait has suspended the execution, and the visit has been answered so.  A step that is
then called through the kept handle runs its body, returns its value and is recorded behind
the timer that has not ended. -/
theorem kept_handle_records_behind_a_pending_wait :
    MadeCall.ofKeptHandle.reply = .returned (.error (.suspended ⟨60, 0⟩)) ∧
      (Visit.ofKeptHandle.answer "run" .empty).verdict.OfHalt (.suspended ⟨60, 0⟩) ∧
      ∃ closed, Visit.ofKeptHandle.closed? "run" .empty = some closed ∧
        let late : MadeCall Unit := ⟨closed, .ofKeptHandle⟩
        late.reply = .returned (.ok (some ())) ∧
          (bodies late.after.occurrences).length = 1 ∧
          late.after.store.medium.history "run" = .ok
            [.timer 0 "w" ⟨60, 0⟩, (Operation.step 1 "x").withState (.started 1),
              (Operation.step 1 "x").withState (.succeeded 1 .null)] :=
  ⟨rfl, ⟨_, rfl, rfl, rfl, rfl⟩, _, rfl, rfl, rfl, rfl⟩

end Durable
