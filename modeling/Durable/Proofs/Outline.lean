import Durable.Proofs.LogPosition

/-!
# Outlines

The outline of a deterministic workflow says which call comes next, given the outcomes of
the earlier ones.  It leaves open what the bodies do, which retries are granted and how
long a wait lasts.  An execution leaves records along its outline: each of them closes its
operation, and only the last one can be left open.
-/

namespace Durable

variable {V O : Type}

/-- The calls of a deterministic workflow: the next one, or the end, depends on the outcomes
of the earlier ones only. -/
inductive Outline (V : Type) where
  | done
  | step (name : String) (semantics : StepSemantics) (codec : Codec V)
      (next : Except DurableError V → Outline V)
  | wait (name : String) (next : Outline V)

namespace Workflow

/-- As long as it is not halted, the workflow declares the calls of the outline; what it
observes makes no difference. -/
inductive Realizes : Workflow V O → Outline V → Prop where
  | done (outcome : Except DurableError O) : Realizes (.done outcome) .done
  | step {name : String} {config : StepConfig} {codec : Codec V} {body : StepBody V}
      {next : Except DurableError V → Workflow V O} {following : Except DurableError V → Outline V}
      (realizes : ∀ outcome, Invocation.haltOf? outcome = none →
        Realizes (next outcome) (following outcome)) :
      Realizes (.step name config codec body next) (.step name config.semantics codec following)
  | wait {name : String} {duration : Duration} {next : Except DurableError Unit → Workflow V O}
      {following : Outline V} (realizes : Realizes (next (.ok ())) following) :
      Realizes (.wait name duration next) (.wait name following)
  | log {level : LogLevel} {message : String} {next : Workflow V O} {outline : Outline V}
      (realizes : Realizes next outline) : Realizes (.log level message next) outline
  | observe {next : Observation → Workflow V O} {outline : Outline V}
      (realizes : ∀ observation, Realizes (next observation) outline) :
      Realizes (.observe next) outline
  | advance {duration : Duration} {next : Workflow V O} {outline : Outline V}
      (realizes : Realizes next outline) : Realizes (.advance duration next) outline

end Workflow

namespace Outline

/-- The record closes the first call of the outline, and tells an outcome with which the
workflow goes on. -/
inductive Closes : Outline V → Operation → Outline V → Prop where
  | step {name : String} {semantics : StepSemantics} {codec : Codec V}
      {next : Except DurableError V → Outline V} {record : Operation}
      {outcome : Except DurableError V} (kind : record.kind = .step) (named : record.name = name)
      (told : record.outcome? codec = some outcome)
      (goesOn : Invocation.haltOf? outcome = none)
      (guarded : record.status = .started → semantics = .atMostOnce) :
      Closes (.step name semantics codec next) record (next outcome)
  | wait {name : String} {next : Outline V} {record : Operation}
      (kind : record.kind = .timer) (named : record.name = name)
      (ended : record.status = .succeeded) : Closes (.wait name next) record next

/-- The record leaves the first call of the outline open: it waits for a retry or for its
time, or it marks an attempt whose end is not known. -/
inductive LeftOpen : Outline V → Operation → Prop where
  | retrying {name : String} {semantics : StepSemantics} {codec : Codec V}
      {next : Except DurableError V → Outline V} {record : Operation} {wake : Instant}
      (kind : record.kind = .step) (named : record.name = name) (waits : record.Waits wake) :
      LeftOpen (.step name semantics codec next) record
  | begun {name : String} {semantics : StepSemantics} {codec : Codec V}
      {next : Except DurableError V → Outline V} {record : Operation}
      (kind : record.kind = .step) (named : record.name = name)
      (started : record.status = .started) (unnoted : record.error = none)
      (guarded : semantics = .atMostOnce) :
      LeftOpen (.step name semantics codec next) record
  | running {name : String} {next : Outline V} {record : Operation} {wake : Instant}
      (kind : record.kind = .timer) (named : record.name = name) (waits : record.Waits wake) :
      LeftOpen (.wait name next) record

/-- The records that an execution has left along the rest of its outline, behind the
operations that it has passed. -/
inductive Trails : Outline V → List Operation → List Operation → Prop where
  | ahead (outline : Outline V) (done : List Operation) : Trails outline done []
  | closed {outline following : Outline V} {done rest : List Operation} {record : Operation}
      (fresh : Plan.declaredAt? done record.name = none) (past : record.Past)
      (closes : outline.Closes record following)
      (trails : Trails following (done ++ [record]) rest) : Trails outline done (record :: rest)
  | opened {outline : Outline V} {done : List Operation} {record : Operation}
      (fresh : Plan.declaredAt? done record.name = none) (leftOpen : outline.LeftOpen record) :
      Trails outline done [record]

theorem Trails.fits_step {name : String} {semantics : StepSemantics} {codec : Codec V}
    {next : Except DurableError V → Outline V} {done rest : List Operation}
    (trails : (Outline.step name semantics codec next).Trails done rest) :
    ∀ record, rest.head? = some record → record.kind = .step ∧ record.name = name := by
  intro record found
  cases trails with
  | ahead => cases found
  | closed fresh past closes trails =>
      cases found
      cases closes with
      | step kind named told goesOn guarded => exact ⟨kind, named⟩
  | opened fresh leftOpen =>
      cases found
      cases leftOpen with
      | retrying kind named waits => exact ⟨kind, named⟩
      | begun kind named started unnoted guarded => exact ⟨kind, named⟩

theorem Trails.fits_wait {name : String} {next : Outline V} {done rest : List Operation}
    (trails : (Outline.wait name next).Trails done rest) :
    ∀ record, rest.head? = some record → record.kind = .timer ∧ record.name = name := by
  intro record found
  cases trails with
  | ahead => cases found
  | closed fresh past closes trails =>
      cases found
      cases closes with
      | wait kind named ended => exact ⟨kind, named⟩
  | opened fresh leftOpen =>
      cases found
      cases leftOpen with
      | running kind named waits => exact ⟨kind, named⟩

theorem Trails.fresh {outline : Outline V} {done rest : List Operation} {record : Operation}
    (trails : outline.Trails done (record :: rest)) :
    Plan.declaredAt? done record.name = none := by
  cases trails with
  | closed fresh past closes trails => exact fresh
  | opened fresh leftOpen => exact fresh

theorem Trails.closes {outline : Outline V} {done rest : List Operation} {record : Operation}
    (trails : outline.Trails done (record :: rest)) (more : rest ≠ []) :
    ∃ following, Plan.declaredAt? done record.name = none ∧ outline.Closes record following ∧
      following.Trails (done ++ [record]) rest := by
  cases trails with
  | closed fresh past closes trails => exact ⟨_, fresh, closes, trails⟩
  | opened fresh leftOpen => exact absurd rfl more

theorem Closes.settled {name : String} {semantics : StepSemantics} {codec : Codec V}
    {next : Except DurableError V → Outline V} {following : Outline V} {record : Operation}
    (closes : (Outline.step name semantics codec next).Closes record following) :
    record.Settled fun _ => semantics := by
  cases closes with
  | step kind named told goesOn guarded =>
      cases status : record.status with
      | succeeded => exact .inl (Operation.isTerminal_of_status status)
      | failed => exact .inl (Operation.isTerminal_of_status status)
      | pending =>
          simp only [Operation.outcome?, status] at told
          cases told
      | started =>
          refine .inr ⟨status, ?_, guarded status⟩
          intro unnoted
          simp [Operation.outcome?, status, unnoted] at told

end Outline

/-- What the operations behind a position are at the end of a pass, by what halted it. -/
inductive Remainder : List Operation → Option Halt → Prop where
  | whole {operations : List Operation} (past : ∀ operation ∈ operations, operation.Past) :
      Remainder operations none
  | refused {operations : List Operation} (past : ∀ operation ∈ operations, operation.Past)
      (error : DurableError) : Remainder operations (some (.fatal error))
  | suspended {front : List Operation} {last : Operation} {wake : Instant}
      (past : ∀ operation ∈ front, operation.Past) (waits : last.Waits wake) :
      Remainder (front ++ [last]) (some (.suspended wake))
  | aborted (operations : List Operation) (error : StoreError) :
      Remainder operations (some (.store error))

theorem Remainder.of_waits {last : Operation} {wake : Instant} (waits : last.Waits wake) :
    Remainder [last] (some (.suspended wake)) :=
  @suspended [] last wake (List.forall_mem_nil _) waits

theorem Remainder.cons {operations : List Operation} {halt : Option Halt} {record : Operation}
    (remainder : Remainder operations halt) (past : record.Past) :
    Remainder (record :: operations) halt := by
  cases remainder with
  | whole rest => exact .whole (List.forall_mem_cons.mpr ⟨past, rest⟩)
  | refused rest error => exact .refused (List.forall_mem_cons.mpr ⟨past, rest⟩) error
  | @suspended front last wake rest waits =>
      rw [← List.cons_append]
      exact .suspended (List.forall_mem_cons.mpr ⟨past, rest⟩) waits
  | aborted operations error => exact .aborted _ error

end Durable
