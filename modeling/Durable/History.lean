import Durable.Operation

/-!
# Histories

A history lists the records of an execution in the order in which they were
appended.  Folding it keeps the latest record of every ordinal, in the order in
which the ordinals first appeared.
-/

namespace Durable

namespace History

/-- Put a record in the place of the earlier one of its ordinal, or at the end. -/
def record (states : List Operation) (operation : Operation) : List Operation :=
  match states with
  | [] => [operation]
  | state :: rest =>
    if state.ordinal = operation.ordinal then operation :: rest
    else state :: record rest operation

def latestStates (history : List Operation) : List Operation :=
  history.foldl record []

/-- The earlier of two instants, where either may be missing. -/
def earlier? : Option Instant → Option Instant → Option Instant
  | none, b => b
  | a, none => a
  | some a, some b => some (a.min b)

/-- The instant at which an operation that is not terminal wants attention. -/
def wakeTime? (operation : Operation) : Option Instant :=
  if operation.isTerminal then none else operation.readyAt

/-- The earliest ready time among the operations that are not terminal. -/
def nextReadyTime? (operations : List Operation) : Option Instant :=
  operations.foldr (fun operation rest => earlier? (wakeTime? operation) rest) none

end History

end Durable
