import Durable.Clock
import Durable.Diagnostic
import Durable.OperationLog

/-!
# Invocations

The state of one pass through a workflow: the log, the store and the clock that
it works on, the ordinal of the next declaration, the names declared so far, and
the error that halted it, if any.  Everything that happens is kept in order,
with the clock reading at which it happened.
-/

namespace Durable

/-- What workflow code can see of its invocation. -/
structure Observation where
  executionId : String
  now : Instant
  replaying : Bool
  operation : Option OperationScope
  deriving DecidableEq, Repr

/-- Something that happened during an invocation.  `V` is the type of step
values. -/
inductive Effect (V : Type) where
  | declared (ordinal : Nat) (kind : OperationKind) (name : String)
  | bodyBegun (ordinal : Nat) (semantics : StepSemantics) (context : StepContext)
      (replaying : Bool)
  | stepReturned (name : String) (outcome : Except DurableError V) (replaying : Bool)
  | waitReturned (name : String) (outcome : Except DurableError Unit) (replaying : Bool)
  | observed (observation : Observation)
  | logged (entry : LogEntry)
  | appended (operation : Operation)
  | appendFailed (operation : Operation) (error : StoreError)
  | diagnosed (diagnostic : Diagnostic)

namespace Effect

variable {V : Type}

def logEntry? : Effect V → Option LogEntry
  | .logged entry => some entry
  | _ => none

def diagnostic? : Effect V → Option Diagnostic
  | .diagnosed diagnostic => some diagnostic
  | _ => none

end Effect

/-- An effect at a clock reading. -/
structure Occurrence (V : Type) where
  reading : Instant
  effect : Effect V

namespace Occurrence

variable {V : Type}

/-- The forwarded log calls among some occurrences. -/
def logEntries (occurrences : List (Occurrence V)) : List LogEntry :=
  occurrences.filterMap fun occurrence => occurrence.effect.logEntry?

def diagnostics (occurrences : List (Occurrence V)) : List Diagnostic :=
  occurrences.filterMap fun occurrence => occurrence.effect.diagnostic?

end Occurrence

/-- Why an invocation makes no further progress. -/
inductive Halt where
  | suspended (wake : Instant)
  | fatal (error : DurableError)
  | store (error : StoreError)
  deriving DecidableEq, Repr

namespace Halt

def toError : Halt → DurableError
  | .suspended wake => .suspended wake
  | .fatal error => error
  | .store error => .checkpoint error

/-- The errors that halt an invocation. -/
def ofError? (error : DurableError) : Option Halt :=
  match error with
  | .suspended wake => some (.suspended wake)
  | .checkpoint error => some (.store error)
  | other => if other.isFatal then some (.fatal other) else none

end Halt

structure Invocation (V : Type) where
  log : OperationLog
  store : Store
  clock : Clock
  logger : Logger
  halt : Option Halt
  nextOrdinal : Nat
  names : List (String × Nat)
  occurrences : List (Occurrence V)

namespace Invocation

variable {V : Type}

/-- An invocation before its first declaration.  It replays when there is a
record of the first ordinal. -/
def start (log : OperationLog) (store : Store) (clock : Clock) (suppress : Bool) :
    Invocation V :=
  { log := log
    store := store
    clock := clock
    logger := .ofExecution log.executionId suppress (log.contains 0)
    halt := none
    nextOrdinal := 0
    names := []
    occurrences := [] }

def executionId (invocation : Invocation V) : String :=
  invocation.log.executionId

def now (invocation : Invocation V) : Instant :=
  invocation.clock.now

/-- Are recorded operations being visited again? -/
def isReplaying (invocation : Invocation V) : Bool :=
  invocation.logger.replaying

def emit (invocation : Invocation V) (effect : Effect V) : Invocation V :=
  { invocation with occurrences := invocation.occurrences ++ [⟨invocation.now, effect⟩] }

def diagnose (invocation : Invocation V) (diagnostic : Diagnostic) : Invocation V :=
  invocation.emit (.diagnosed diagnostic)

def withReplaying (invocation : Invocation V) (replaying : Bool) : Invocation V :=
  { invocation with logger := invocation.logger.withReplaying replaying }

def advance (invocation : Invocation V) (duration : Duration) : Invocation V :=
  { invocation with clock := invocation.clock.advanceBy duration }

/-- A log call of workflow code or of a body. -/
def logCall (invocation : Invocation V) (level : LogLevel) (message : String) : Invocation V :=
  match invocation.logger.log? level message with
  | none => invocation
  | some entry => invocation.emit (.logged entry)

def observation (invocation : Invocation V) : Observation :=
  ⟨invocation.executionId, invocation.now, invocation.isReplaying, invocation.logger.current?⟩

/-- The ordinal at which a name was declared first. -/
def declaredAt? (invocation : Invocation V) (name : String) : Option Nat :=
  (invocation.names.find? (·.1 == name)).map Prod.snd

/-- The record that a declaration finds at its ordinal.  A name can be declared
once, and a record has to be of the declared kind and name. -/
def findRecord (invocation : Invocation V) (kind : OperationKind) (name : String) :
    Except DurableError (Option Operation) :=
  match invocation.declaredAt? name with
  | some first => .error (.duplicateOperationName name first)
  | none =>
    match invocation.log.lookup? invocation.nextOrdinal with
    | none => .ok none
    | some operation =>
      if operation.kind = kind ∧ operation.name = name then .ok (some operation)
      else
        .error (.replayMismatch invocation.nextOrdinal operation.kind operation.name kind name)

/-- Consume the next ordinal for an operation. -/
def declare (invocation : Invocation V) (kind : OperationKind) (name : String) : Invocation V :=
  { invocation.emit (.declared invocation.nextOrdinal kind name) with
    nextOrdinal := invocation.nextOrdinal + 1
    names := match invocation.declaredAt? name with
      | some _ => invocation.names
      | none => invocation.names ++ [(name, invocation.nextOrdinal)] }

/-- Carry out a write that the log has admitted. -/
def write (invocation : Invocation V) (admitted : Except StoreError Operation) :
    Except StoreError Operation × Invocation V :=
  match admitted with
  | .error error => (.error error, invocation)
  | .ok operation =>
    let written := invocation.log.commit invocation.store operation
    let invocation := { invocation with log := written.log, store := written.store }
    match written.outcome with
    | .error error => (.error error, invocation.emit (.appendFailed operation error))
    | .ok operation => (.ok operation, invocation.emit (.appended operation))

/-- Record a new operation. -/
def record (invocation : Invocation V) (operation : Operation) :
    Except StoreError Operation × Invocation V :=
  invocation.write (invocation.log.admitRecord operation)

/-- Move a recorded operation to its next state. -/
def update (invocation : Invocation V) (ordinal : Nat) (update : OperationUpdate) :
    Except StoreError Operation × Invocation V :=
  invocation.write (invocation.log.admitUpdate ordinal update)

/-- Write the state of an operation, which is made from the template when it has
no record yet. -/
def put (invocation : Invocation V) (template : Operation) (update : OperationUpdate) :
    Except StoreError Operation × Invocation V :=
  if invocation.log.contains template.ordinal then invocation.update template.ordinal update
  else
    match OperationLog.nextState template update with
    | .error error => (.error error, invocation)
    | .ok operation => invocation.record operation

/-- Keep the first error that halts the invocation. -/
def noteHalt (invocation : Invocation V) (outcome : Except DurableError α) : Invocation V :=
  match invocation.halt, outcome with
  | none, .error error => { invocation with halt := Halt.ofError? error }
  | _, _ => invocation

/-- After a call: the invocation replays as long as there is a record of the
next ordinal. -/
def refresh (invocation : Invocation V) : Invocation V :=
  invocation.withReplaying (invocation.log.contains invocation.nextOrdinal)

def settle (invocation : Invocation V) (outcome : Except DurableError α) : Invocation V :=
  invocation.refresh.noteHalt outcome

end Invocation

/-- What is known of an invocation at its end. -/
structure Snapshot where
  halt : Option Halt
  operations : List Operation
  nextReadyAt : Option Instant

namespace Invocation

variable {V : Type}

/-- Take the snapshot of an invocation that has ended; the reason of its halt
goes with it. -/
def close (invocation : Invocation V) : Snapshot × Invocation V :=
  (⟨invocation.halt, invocation.log.operations, invocation.log.nextReadyTime?⟩,
   { invocation with halt := none })

end Invocation

end Durable
