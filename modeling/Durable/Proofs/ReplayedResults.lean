import Durable.Proofs.CallTraces
import Durable.Proofs.JsonText
import Durable.Proofs.LastingRecords
import Durable.Value

/-!
# Recorded results of typed steps

A step result is recorded in its JSON form, and later invocations read it back from there.
Every finite value comes back as it was.  A double that is not finite has no JSON form: it is
recorded as null like a success, and cannot be read as a double again.
-/

namespace Durable

variable {O : Type}

open Occurrence

namespace Value

/-- The values of each type of results that has a JSON form. -/
inductive HasType : Value → ResultType → Prop where
  | json (value : Json) : HasType (.json value) .json
  | text (value : String) : HasType (.text value) .text
  | word (value : Nat) (fits : value < Nat.pow 2 32) : HasType (.word value) .word
  | flag (value : Bool) : HasType (.flag value) .flag
  | unit : HasType .unit .unit
  | double (value : Float) : HasType (.double value) .double
  | optionalText (value : Option String) : HasType (.optionalText value) .optionalText

/-- The value is not one of the doubles that have no JSON form. -/
def Finite : Value → Prop
  | .double value => value.isFinite = true
  | _ => True

/-- The medium gives back the numbers and the brackets of the value as they are. -/
def KeptBy (medium : Medium) : Value → Prop
  | .json value => medium.Keeps value
  | .double value => medium.Keeps (.number (.double value))
  | _ => True

theorem kept_in_memory (records : List (String × Operation)) (value : Value) :
    value.KeptBy (.memory records) := by
  cases value <;> first | rfl | trivial

namespace HasType

variable {value : Value} {type : ResultType} {payload : Json}

theorem encodes (typed : value.HasType type) : ∃ payload, value.encode = .ok payload := by
  cases typed <;> exact ⟨_, rfl⟩

/-- A finite value is read back from its JSON form. -/
theorem decode_encode (typed : value.HasType type) (finite : value.Finite)
    (encoded : value.encode = .ok payload) : type.decode payload = .ok value := by
  cases typed with
  | json value => cases encoded; rfl
  | text value => cases encoded; rfl
  | word value fits =>
      cases encoded
      change (ite (value < Nat.pow 2 32) (Except.ok value) _).map Value.word = _
      rw [if_pos fits]
      rfl
  | flag value => cases encoded; rfl
  | unit => cases encoded; rfl
  | double value =>
      have form : doubleJson value = .number (.double value) := if_pos finite
      rw [encode, form] at encoded
      cases encoded
      rfl
  | optionalText value => cases encoded; cases value <;> rfl

theorem decode_unfinite (typed : value.HasType type) (unfinite : ¬value.Finite)
    (encoded : value.encode = .ok payload) :
    payload = .null ∧ type.decode payload = .error "invalid type: null, expected f64" := by
  cases typed with
  | double value =>
      have form : doubleJson value = .null := if_neg unfinite
      rw [encode, form] at encoded
      cases encoded
      exact ⟨rfl, rfl⟩
  | _ => exact absurd trivial unfinite

end HasType

end Value

theorem Medium.keeps_of_sound (medium : Medium) {value : Json} (sound : value.Sound)
    (shallow : value.depth ≤ Json.Machine.maxOpen) : medium.Keeps value := by
  cases medium with
  | memory records => rfl
  | table rows =>
      change Json.parse? value.render = some value
      rw [sound.parse?_render, if_pos shallow]

/-- Words, texts and the like are given back by every medium. -/
theorem Value.HasType.keeps {value : Value} {type : ResultType} {payload : Json}
    {medium : Medium} (typed : value.HasType type) (kept : value.KeptBy medium)
    (encoded : value.encode = .ok payload) : medium.Keeps payload := by
  cases typed with
  | json value => cases encoded; exact kept
  | text value =>
      cases encoded
      exact medium.keeps_of_sound (.string value) (Nat.zero_le _)
  | word value fits =>
      cases encoded
      have small : value < 4294967296 := fits
      have least : -(9223372036854775808 : Int) ≤ value := by omega
      have greatest : (value : Int) < 18446744073709551616 := by omega
      exact medium.keeps_of_sound (.number _ ⟨least, greatest⟩) (Nat.zero_le _)
  | flag value =>
      cases encoded
      exact medium.keeps_of_sound (.bool value) (Nat.zero_le _)
  | unit => cases encoded; exact medium.keeps_null
  | double value =>
      rw [encode, doubleJson] at encoded
      cases encoded
      split
      · exact kept
      · exact medium.keeps_null
  | optionalText value =>
      cases encoded
      cases value with
      | none => exact medium.keeps_null
      | some value => exact medium.keeps_of_sound (.string value) (Nat.zero_le _)

section Recorded

variable {V : Type} {call : StepCall V} {value : V} {payload : Json} {time : Instant}
  {ordinal : Nat} {semantics : StepSemantics} {context : StepContext} {replaying : Bool}

theorem StepCall.context_of_begun {invocation : Invocation V} {number : Nat}
    {rest : List (Occurrence V)} (idle : bodies rest = [])
    (begun : ⟨time, .bodyBegun ordinal semantics context replaying⟩ ∈
      bodies (call.opening invocation number ++ rest)) :
    context = call.context invocation number := by
  have opened : bodies (call.opening invocation number ++ rest) =
      [⟨invocation.now, .bodyBegun invocation.nextOrdinal call.config.semantics
        (call.context invocation number) false⟩] := by
    simp [StepCall.opening, marker_bodies, idle, Effect.isBody]
  rw [opened, List.mem_singleton] at begun
  cases begun
  rfl

/-- A step call whose body gives a value with a JSON form returns the value, and what it
appends last is the success with that form; unless the store fails. -/
theorem StepCourse.of_body_value {invocation : Invocation V} {reply : Reply V}
    {middle : List (Occurrence V)} (course : StepCourse invocation call reply middle)
    (begun : ⟨time, .bodyBegun ordinal semantics context replaying⟩ ∈ bodies middle)
    (ended : (call.body context).outcome = .value value)
    (encoded : call.codec.encode value = .ok payload) :
    (∃ error, invocation.store.faults ≠ .none ∧
        reply = .returned (.error (.checkpoint error))) ∨
      (reply = .returned (.ok value) ∧ ∃ record earlier,
        records middle = earlier ++ [record] ∧
        record.ordinal = invocation.nextOrdinal ∧ record.kind = .step ∧
        record.name = call.name ∧ record.status = .succeeded ∧ record.result = some payload) := by
  cases course with
  | duplicate first known => cases begun
  | mismatched operation fresh found other => cases begun
  | planned recorded fresh found same course =>
      generalize planned : StepPlan.ofRecord recorded call.config.semantics invocation.now =
        plan at course
      cases course with
      | replay operation => cases begun
      | fail error => cases begun
      | reported operation noted => cases begun
      | annotated operation unnoted => cases begun
      | unannotated operation unnoted error faulty => cases begun
      | attempted number unfinished notDecreasing course =>
          have fits := StepCall.base_fits fun operation here => same operation (found.symm.trans here)
          cases course with
          | unmarked error guarded faulty => cases begun
          | crashed chatter logs dies =>
              rw [StepCall.context_of_begun logs.bodies begun, dies] at ended
              cases ended
          | lost chatter logs reading update outcome closes error faulty =>
              exact .inl ⟨error, faulty, rfl⟩
          | closed chatter logs reading update outcome closes diagnostic =>
              have idle : bodies (chatter ++ [(⟨reading,
                  .appended ((call.base invocation).withState update)⟩ : Occurrence V),
                  ⟨reading, .diagnosed diagnostic⟩]) = [] := by
                simp [logs.bodies, Effect.isBody]
              rw [StepCall.context_of_begun idle begun] at ended
              simp only [StepCall.closing?, BodyOutcome.closing?, ended, encoded,
                Option.some.injEq, Prod.mk.injEq] at closes
              obtain ⟨rfl, rfl⟩ := closes
              refine .inr ⟨rfl, (call.base invocation).withState (.succeeded number payload),
                records (call.opening invocation number), ?_, fits.1, fits.2.1, fits.2.2, rfl, rfl⟩
              simp [logs.records, Effect.record?]

theorem MadeCall.of_body_value {made : MadeCall V} (free : made.before.halt = none)
    (declared : made.declaration = .step call)
    (begun : ⟨time, .bodyBegun ordinal semantics context replaying⟩ ∈ bodies made.emitted)
    (ended : (call.body context).outcome = .value value)
    (encoded : call.codec.encode value = .ok payload) :
    (∃ error, made.before.store.faults ≠ .none ∧
        made.reply = .returned (.error (.checkpoint error))) ∨
      (made.reply = .returned (.ok (some value)) ∧ ∃ record earlier,
        made.after.Retains made.before.log.executionId record record ∧
        records made.emitted = earlier ++ [record] ∧
        record.ordinal = made.before.nextOrdinal ∧ record.kind = .step ∧
        record.name = call.name ∧ record.status = .succeeded ∧
        record.result = some payload) := by
  obtain ⟨reply, middle, course, called, replied⟩ := MadeCall.step_called free declared
  have emitted := MadeCall.emitted_of_called called
  have returning := reply.returning_quiet call.name made.after
  have sameBodies : bodies made.emitted = bodies middle := by
    simp [emitted, returning.bodies, Effect.isBody]
  have sameRecords : records made.emitted = records middle := by
    simp [emitted, returning.records, Effect.record?]
  rw [sameBodies] at begun
  rw [sameRecords, replied]
  rcases course.of_body_value begun ended encoded with
    ⟨error, faulty, rfl⟩ | ⟨rfl, record, earlier, ends, facts⟩
  · exact .inl ⟨error, faulty, rfl⟩
  · have last := (returning.records_append middle).trans ends
    exact .inr ⟨rfl, record, earlier, called.retains rfl last, ends, facts⟩

end Recorded

theorem Medium.GivesBack.replay {V : Type} {medium : Medium} {written read : Operation}
    {payload : Json} (given : medium.GivesBack written read)
    (result : written.result = some payload) (keeps : medium.Keeps payload) (codec : Codec V) :
    read.replay codec = (codec.decode payload).mapError .serialization := by
  obtain ⟨back, readyAt, rfl, restored⟩ := given
  have same : back = some payload := by
    simpa [result, show medium.restore payload = some payload from keeps] using restored.symm
  simp only [Operation.replay, same]

/-- A call declares a step again: at the ordinal of an earlier call, as the first use of its
name in its own pass, and with the same type of results. -/
structure MadeCall.Repeats {V : Type} (again made : MadeCall V) : Prop where
  free : again.before.halt = none
  ordinal : again.before.nextOrdinal = made.before.nextOrdinal
  fresh : again.before.declaredAt? again.declaration.name = none
  agrees : made.declaration.Agrees again.declaration

/-- A call that repeats a step of which the store retains a success does nothing, and returns
what it decodes from the result that is given back. -/
theorem MadeCall.Repeats.recalls {V : Type} {made again : MadeCall V}
    (repeats : again.Repeats made) {call : StepCall V} (declared : made.declaration = .step call)
    {visit : Visit V O} {executionId : String} {store : Store}
    (member : again ∈ visit.calls executionId store) {record : Operation}
    (retains : store.medium.Retains executionId record)
    (ordinal : record.ordinal = made.before.nextOrdinal) (kind : record.kind = .step)
    (name : record.name = call.name) (succeeded : record.status = .succeeded) :
    ∃ read, store.medium.GivesBack record read ∧
      again.reply = .returned ((read.replay call.codec).map some) ∧
      records again.after.occurrences = records again.before.occurrences ∧
      bodies again.after.occurrences = bodies again.before.occurrences := by
  have terminal : record.isTerminal = true := Operation.isTerminal_of_status succeeded
  obtain ⟨read, given, found⟩ := Visit.calls_retain terminal retains member
  refine ⟨read, given, ?_⟩
  obtain ⟨free, here, fresh, agrees⟩ := repeats
  rw [declared] at agrees
  obtain ⟨sameKind, sameName, recalls⟩ := agrees.facts
  rw [ordinal, ← here] at found
  have told : again.declaration.outcomeIn? read = some ((read.replay call.codec).map some) := by
    rw [recalls]
    simp [Declaration.outcomeIn?, Operation.outcome?, given.status, succeeded]
  have facts : read.kind = again.declaration.kind ∧ read.name = again.declaration.name := by
    obtain ⟨result, readyAt, rfl, _⟩ := given
    exact ⟨kind.trans sameKind.symm, name.trans sameName.symm⟩
  have ended : read.isTerminal = true := by rwa [Operation.isTerminal, given.status]
  cases declaredAgain : again.declaration with
  | wait call =>
      rw [declaredAgain] at agrees
      exact agrees.elim
  | step repeated =>
      have settled : read.Settled fun _ => repeated.config.semantics := .inl ended
      refine again.of_settled free ?_ found settled fresh facts.1 facts.2 told
      intro other same
      rw [declaredAgain] at same
      cases same
      rfl

/-- Recorded results replay.  When the body of a typed step gives a value, the call returns the
value and appends a success with its JSON form last, unless the store fails.  Whatever is asked
of the store after that, a call that repeats the step in a later invocation does nothing and
returns the same value, if the value is finite and its numbers and brackets are given back by
the medium.  A double that is not finite never comes back: the call that repeats the step fails
to read it. -/
theorem recorded_result_replays {store : Store} {executionId : String} {visit : Visit Value O}
    {made : MadeCall Value} (member : made ∈ visit.calls executionId store)
    (free : made.before.halt = none) {call : StepCall Value}
    (declared : made.declaration = .step call) {type : ResultType}
    (codec : call.codec = type.codec) {time : Instant} {ordinal : Nat}
    {semantics : StepSemantics} {context : StepContext} {replaying : Bool}
    (begun : ⟨time, .bodyBegun ordinal semantics context replaying⟩ ∈ made.emitted)
    {value : Value} (typed : value.HasType type)
    (ended : (call.body context).outcome = .value value) :
    (∃ error, store.faults ≠ .none ∧ made.reply = .returned (.error (.checkpoint error))) ∨
      (made.reply = .returned (.ok (some value)) ∧ ∃ record payload earlier,
        value.encode = .ok payload ∧ records made.emitted = earlier ++ [record] ∧
        record.ordinal = made.before.nextOrdinal ∧ record.name = call.name ∧
        record.status = .succeeded ∧ record.result = some payload ∧
        ∀ (between : List (Request Value O)) (later : Visit Value O) (again : MadeCall Value),
          again ∈ later.calls executionId
              (Traffic.storeAfter (visit.answer executionId store).store between) →
          again.Repeats made →
          records again.after.occurrences = records again.before.occurrences ∧
            bodies again.after.occurrences = bodies again.before.occurrences ∧
            (value.Finite → value.KeptBy store.medium →
              again.reply = .returned (.ok (some value))) ∧
            (¬value.Finite → again.reply =
              .returned (.error (.serialization "invalid type: null, expected f64")))) := by
  obtain ⟨payload, encoded⟩ := typed.encodes
  have frame := Visit.calls_frame member
  have encodedHere : call.codec.encode value = .ok payload := by
    rw [codec]
    exact encoded
  rcases MadeCall.of_body_value free declared (List.mem_filter.mpr ⟨begun, rfl⟩) ended
      encodedHere with
    ⟨error, faulty, replied⟩ |
      ⟨replied, record, earlier, retains, ends, ordinal, kind, name, succeeded, result⟩
  · rw [frame.2] at faulty
    exact .inl ⟨error, faulty, replied⟩
  · refine .inr ⟨replied, record, payload, earlier, encoded, ends, ordinal, name, succeeded,
      result, ?_⟩
    intro between later again againMember repeats
    rw [frame.1] at retains
    have terminal : record.isTerminal = true := Operation.isTerminal_of_status succeeded
    have afterVisit := Visit.answer_retains_of_call terminal member (by simp [replied]) retains
    have afterAll := Traffic.storeAfter_retains terminal afterVisit between
    obtain ⟨read, given, repliedAgain, unwritten, idle⟩ :=
      repeats.recalls declared againMember afterAll ordinal kind name succeeded
    have sameMedium : (Traffic.storeAfter (visit.answer executionId store).store
        between).medium.restore = store.medium.restore := by
      rw [Traffic.storeAfter_restore, Visit.answer_medium, Medium.restore_appendAll]
    have recalled : store.medium.Keeps payload → again.reply =
        .returned (((type.decode payload).mapError .serialization).map some) := by
      intro keeps
      rw [Medium.Keeps, ← sameMedium] at keeps
      rw [repliedAgain, given.replay result keeps, codec]
      rfl
    refine ⟨unwritten, idle, ?_, ?_⟩
    · intro finite kept
      rw [recalled (typed.keeps kept encoded), typed.decode_encode finite encoded]
      rfl
    · intro unfinite
      obtain ⟨rfl, unread⟩ := typed.decode_unfinite unfinite encoded
      rw [recalled store.medium.keeps_null, unread]
      rfl

namespace Visit

/-- A visit with a workflow of one step of some type. -/
def ofResult (type : ResultType) (value : Value) : Visit Value Unit where
  clock := ⟨default⟩
  suppressReplayLogs := false
  workflow := .step "x" .standard type.codec (fun _ => ⟨[], .value value⟩) fun _ => .done (.ok ())

end Visit

/-- The call of such a visit to an empty store. -/
def MadeCall.ofResult (type : ResultType) (value : Value) : MadeCall Value where
  before := (Visit.ofResult type value).begun "run" (.ofRecords "run" []) (Store.empty.load "run").2
  declaration := .step ⟨"x", .standard, type.codec, fun _ => ⟨[], .value value⟩⟩

/-- A text comes back in the next invocation. -/
theorem recorded_text_replays :
    let visit := Visit.ofResult .text (.text "kept")
    let store := (visit.answer "run" .empty).store
    ∃ again ∈ visit.calls "run" store, again.before.halt = none ∧
      again.reply = .returned (.ok (some (.text "kept"))) ∧
      bodies again.after.occurrences = bodies again.before.occurrences := by
  intro visit store
  let made := MadeCall.ofResult .text (.text "kept")
  have member : made ∈ visit.calls "run" .empty := List.mem_cons_self
  have begun : ⟨default, .bodyBegun 0 .atMostOnce ⟨"run", operationId 0, "x", 1⟩ false⟩ ∈
      made.emitted := .tail _ (.tail _ (.head _))
  rcases recorded_result_replays member rfl rfl rfl begun (.text "kept") rfl with
    ⟨_, faulty, _⟩ | ⟨_, _, _, _, _, _, _, _, _, _, replays⟩
  · exact absurd rfl faulty
  · refine ⟨_, List.mem_cons_self, rfl, ?_⟩
    obtain ⟨_, idle, replied, _⟩ := replays [] visit _ List.mem_cons_self ⟨rfl, rfl, rfl, rfl, rfl⟩
    exact ⟨replied trivial (Value.kept_in_memory [] _), idle⟩

/-- A step that returns no number is recorded as a success, and the call that repeats it in the
next invocation fails to read the result. -/
theorem recorded_not_a_number_does_not_replay :
    let value := Value.double (0.0 / 0.0)
    let visit := Visit.ofResult .double value
    let made := MadeCall.ofResult .double value
    let store := (visit.answer "run" .empty).store
    made ∈ visit.calls "run" .empty ∧ made.reply = .returned (.ok (some value)) ∧
      (∃ record ∈ records made.emitted, record.status = .succeeded ∧
        record.result = some .null) ∧
      ∃ again ∈ visit.calls "run" store, again.Repeats made ∧
        again.reply = .returned (.error (.serialization "invalid type: null, expected f64")) := by
  intro value visit made store
  refine ⟨List.mem_cons_self, ?_, ?_, ?_⟩
  · rfl
  · exact ⟨_, .tail _ (.head _), rfl, rfl⟩
  · refine ⟨_, List.mem_cons_self, ⟨rfl, rfl, rfl, rfl, rfl⟩, ?_⟩
    rfl

end Durable
