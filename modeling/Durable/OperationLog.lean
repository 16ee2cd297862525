import Durable.Store

/-!
# Operation logs

The latest record of every ordinal of one execution, in ascending order of
ordinals.  A change is first checked against the log, then appended to the
store, and enters the log only when the store has taken it.
-/

namespace Durable

structure OperationLog where
  executionId : String
  operations : List Operation
  deriving Repr, Inhabited

namespace OperationLog

/-- Put a record in the place of its ordinal; an earlier record of the ordinal
is replaced. -/
def insertOperation (operation : Operation) : List Operation → List Operation
  | [] => [operation]
  | other :: rest =>
    if operation.ordinal < other.ordinal then operation :: other :: rest
    else if operation.ordinal = other.ordinal then operation :: rest
    else other :: insertOperation operation rest

def insert (log : OperationLog) (operation : Operation) : OperationLog :=
  { log with operations := insertOperation operation log.operations }

def ofRecords (executionId : String) (records : List Operation) : OperationLog :=
  records.foldl insert ⟨executionId, []⟩

def load (store : Store) (executionId : String) : Except StoreError OperationLog × Store :=
  let (records, store) := store.load executionId
  (records.map (ofRecords executionId), store)

/-- The record of an ordinal. -/
def lookup? (log : OperationLog) (ordinal : Nat) : Option Operation :=
  log.operations.find? (·.ordinal == ordinal)

def contains (log : OperationLog) (ordinal : Nat) : Bool :=
  (log.lookup? ordinal).isSome

/-- The first operation of a name. -/
def findByName? (log : OperationLog) (name : String) : Option Operation :=
  log.operations.find? (·.name == name)

def size (log : OperationLog) : Nat :=
  log.operations.length

def nextReadyTime? (log : OperationLog) : Option Instant :=
  History.nextReadyTime? log.operations

/-- A new operation needs an ordinal without a record. -/
def admitRecord (log : OperationLog) (operation : Operation) : Except StoreError Operation :=
  match log.lookup? operation.ordinal with
  | some existing =>
    .error (.conflict operation.ordinal
      ("operation '" ++ existing.name ++ "' is already recorded at this ordinal"))
  | none => .ok operation

/-- The next state of an operation, as a change to be written. -/
def nextState (operation : Operation) (update : OperationUpdate) : Except StoreError Operation :=
  (operation.apply update).mapError (StoreError.ofRefusal operation.ordinal)

/-- An update needs a record of the ordinal, and has to be a possible next state. -/
def admitUpdate (log : OperationLog) (ordinal : Nat) (update : OperationUpdate) :
    Except StoreError Operation :=
  match log.lookup? ordinal with
  | none => .error (.conflict ordinal "no operation recorded at this ordinal")
  | some current => nextState current update

/-- What became of a change: the record that was written, and the log and the
store afterwards. -/
structure Written where
  outcome : Except StoreError Operation
  log : OperationLog
  store : Store

/-- Append a record that was admitted, and keep it in the log. -/
def commit (log : OperationLog) (store : Store) (operation : Operation) : Written :=
  match store.append log.executionId operation with
  | (.error error, store) => ⟨.error error, log, store⟩
  | (.ok _, store) => ⟨.ok operation, log.insert operation, store⟩

def commitAdmitted (log : OperationLog) (store : Store) :
    Except StoreError Operation → Written
  | .error error => ⟨.error error, log, store⟩
  | .ok operation => log.commit store operation

/-- Record a new operation. -/
def record (log : OperationLog) (store : Store) (operation : Operation) : Written :=
  log.commitAdmitted store (log.admitRecord operation)

/-- Move a recorded operation to its next state. -/
def update (log : OperationLog) (store : Store) (ordinal : Nat) (update : OperationUpdate) :
    Written :=
  log.commitAdmitted store (log.admitUpdate ordinal update)

end OperationLog

end Durable
