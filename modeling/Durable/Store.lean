import Durable.Store.Table

/-!
# Checkpoint stores

An append-only list of operation records, each under its execution.  The memory
of a process keeps records as they are; a table keeps them as rows, from which
they have to be read back.  A fault plan makes single appends and reads fail; a
failing call changes nothing but the count of calls.
-/

namespace Durable

/-- Which appends and which reads fail, each counted from one. -/
structure FaultPlan where
  append : Nat → Option StoreError
  read : Nat → Option StoreError

namespace FaultPlan

def none : FaultPlan :=
  ⟨fun _ => .none, fun _ => .none⟩

/-- The listed calls fail with one error. -/
def listed (appends reads : List Nat) (error : StoreError) : FaultPlan where
  append count := if appends.contains count then some error else .none
  read count := if reads.contains count then some error else .none

end FaultPlan

/-- What keeps the records, in append order. -/
inductive Medium where
  | memory (records : List (String × Operation))
  | table (table : Table)
  deriving Repr

namespace Medium

def append (executionId : String) (operation : Operation) : Medium → Medium
  | memory records => memory (records ++ [(executionId, operation)])
  | table rows => table (rows.append executionId operation)

/-- The records of an execution in append order. -/
def history (executionId : String) : Medium → Except StoreError (List Operation)
  | memory records => .ok ((records.filter (·.1 == executionId)).map Prod.snd)
  | table rows => (rows.history executionId).mapError RowError.toStoreError

/-- The executions that have a record, in ascending order. -/
def executions : Medium → List String
  | memory records => Names.sorted (records.map Prod.fst)
  | table rows => rows.executions

/-- Drop every record of an execution. -/
def clear (executionId : String) : Medium → Medium
  | memory records => memory (records.filter (·.1 != executionId))
  | table rows => table (rows.clear executionId)

end Medium

structure Store where
  medium : Medium
  faults : FaultPlan
  appends : Nat
  reads : Nat

namespace Store

def ofMedium (medium : Medium) (faults : FaultPlan) : Store :=
  ⟨medium, faults, 0, 0⟩

/-- An empty store in memory. -/
def empty : Store :=
  ofMedium (.memory []) .none

/-- A store over a table. -/
def ofTable (table : Table) : Store :=
  ofMedium (.table table) .none

def append (store : Store) (executionId : String) (operation : Operation) :
    Except StoreError Unit × Store :=
  let counted := { store with appends := store.appends + 1 }
  match store.faults.append counted.appends with
  | some error => (.error error, counted)
  | none => (.ok (), { counted with medium := store.medium.append executionId operation })

def history (store : Store) (executionId : String) :
    Except StoreError (List Operation) × Store :=
  let counted := { store with reads := store.reads + 1 }
  match store.faults.read counted.reads with
  | some error => (.error error, counted)
  | none => (store.medium.history executionId, counted)

/-- The latest state of every operation, in the order of first appearance. -/
def load (store : Store) (executionId : String) :
    Except StoreError (List Operation) × Store :=
  let (history, store) := store.history executionId
  (history.map History.latestStates, store)

def executions (store : Store) : List String :=
  store.medium.executions

def clear (store : Store) (executionId : String) : Store :=
  { store with medium := store.medium.clear executionId }

end Store

end Durable
