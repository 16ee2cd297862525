import Durable.History
import Durable.Store.Names
import Durable.Store.Row

/-!
# Operation tables

Rows in the order in which they were inserted.  Reading rows back can fail, and
the first failure that is found decides the error: an unreadable time in any row
of the execution, and after that the first row that does not convert.
-/

namespace Durable

/-- Rows in insertion order. -/
structure Table where
  rows : List (Row String)
  deriving DecidableEq, Repr

namespace Table

def empty : Table := ⟨[]⟩

def append (table : Table) (executionId : String) (operation : Operation) : Table :=
  ⟨table.rows ++ [Row.ofOperation executionId operation]⟩

def rowsOf (table : Table) (executionId : String) : List (Row String) :=
  table.rows.filter (·.executionId == executionId)

def history (table : Table) (executionId : String) : Except RowError (List Operation) :=
  match (table.rowsOf executionId).mapM Row.readTime? with
  | none => .error .unreadableTime
  | some rows => rows.mapM Row.toOperation

def load (table : Table) (executionId : String) : Except RowError (List Operation) :=
  (table.history executionId).map History.latestStates

/-- The executions that have a row, in ascending order. -/
def executions (table : Table) : List String :=
  Names.sorted (table.rows.map Row.executionId)

/-- Drop every row of an execution. -/
def clear (table : Table) (executionId : String) : Table :=
  ⟨table.rows.filter (·.executionId != executionId)⟩

/-- Submit rows one after the other.  The first one that is refused stops with
its index. -/
def ofSubmitted (isChecked : Bool) (rows : List SubmittedRow) : Except Nat Table :=
  go 0 [] rows
where
  go (index : Nat) (admitted : List (Row String)) : List SubmittedRow → Except Nat Table
    | [] => .ok ⟨admitted.reverse⟩
    | row :: rest =>
      match row.admit? isChecked with
      | none => .error index
      | some row => go (index + 1) (row :: admitted) rest

end Table

end Durable
