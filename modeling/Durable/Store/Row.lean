import Durable.Error
import Durable.Json.Text
import Durable.Time.Printer
import Durable.Time.Reader

/-!
# Rows

Records as rows with columns of text and integers.  Writing a record gives a
row; a row can be read back in two stages, first its time and then the rest.
-/

namespace Durable

/-- A row whose ready times are of some type: text as stored, instants once they
have been read. -/
structure Row (time : Type) where
  executionId : String
  ordinal : Int
  operationId : String
  name : String
  kind : String
  status : String
  attempt : Int
  result : Option String
  errorType : Option String
  errorMessage : Option String
  readyAt : Option time
  deriving DecidableEq, Repr

/-- A row as it is submitted; required columns may still be missing. -/
structure SubmittedRow where
  executionId : String
  ordinal : Option Int
  operationId : Option String
  name : Option String
  kind : Option String
  status : Option String
  attempt : Option Int
  result : Option String
  errorType : Option String
  errorMessage : Option String
  readyAt : Option String
  deriving DecidableEq, Repr

namespace SubmittedRow

/-- The row with all required columns. -/
def complete? (row : SubmittedRow) : Option (Row String) := do
  let ordinal ← row.ordinal
  let operationId ← row.operationId
  let name ← row.name
  let kind ← row.kind
  let status ← row.status
  let attempt ← row.attempt
  some { executionId := row.executionId, ordinal := ordinal, operationId := operationId,
         name := name, kind := kind, status := status, attempt := attempt, result := row.result,
         errorType := row.errorType, errorMessage := row.errorMessage, readyAt := row.readyAt }

/-- A checked table takes only rows with known kinds and statuses. -/
def admit? (isChecked : Bool) (row : SubmittedRow) : Option (Row String) :=
  match row.complete? with
  | none => none
  | some row =>
    if isChecked ∧ ((OperationKind.ofText? row.kind).isNone
        ∨ (OperationStatus.ofText? row.status).isNone) then none
    else some row

end SubmittedRow

/-- Why rows could not be read back. -/
inductive RowError where
  | unreadableTime
  | malformedResult
  | badOrdinal (value : Int)
  | unknownKind (text : String)
  | unknownStatus (text : String)
  | badAttempt (value : Int)
  deriving DecidableEq, Repr

namespace RowError

def toStoreError : RowError → StoreError
  | .unreadableTime => .database "query" "a ready time cannot be read"
  | .malformedResult => .serialization "a result is not JSON text"
  | .badOrdinal value => .serialization ("bad ordinal " ++ toString value)
  | .unknownKind text => .unknownKind text
  | .unknownStatus text => .unknownStatus text
  | .badAttempt value => .serialization ("bad attempt " ++ toString value)

/-- The wording of the first two errors belongs to the database and to the
reader of JSON text. -/
def hasOwnWording : RowError → Bool
  | .unreadableTime | .malformedResult => false
  | _ => true

end RowError

/-- A number that can be an ordinal or an attempt. -/
def counter? : Int → Option Nat
  | .ofNat value => if value < counterBound then some value else none
  | .negSucc _ => none

namespace Row

/-- The row of a record; instants are written with a numeric zone. -/
def ofOperation (executionId : String) (operation : Operation) : Row String :=
  { executionId := executionId
    ordinal := operation.ordinal
    operationId := operation.id
    name := operation.name
    kind := operation.kind.text
    status := operation.status.text
    attempt := operation.attempt
    result := operation.result.map Json.render
    errorType := operation.error.map ErrorObject.errorType
    errorMessage := operation.error.map ErrorObject.message
    readyAt := operation.readyAt.map (Instant.stamp · "+00:00") }

/-- The row with its time read. -/
def readTime? (row : Row String) : Option (Row Instant) :=
  let withTime (readyAt : Option Instant) : Row Instant :=
    { row with readyAt := readyAt }
  match row.readyAt with
  | none => some (withTime none)
  | some text => (Instant.ofLoose? text).map fun t => withTime (some t)

def readResult? : Option String → Except RowError (Option Json)
  | none => .ok none
  | some text =>
    match Json.parse? text with
    | none => .error .malformedResult
    | some value => .ok (some value)

/-- A row has an error when it has an error type; a missing message is empty. -/
def readError? (errorType errorMessage : Option String) : Option ErrorObject :=
  errorType.map fun errorType => ⟨errorType, errorMessage.getD ""⟩

/-- What is there, or an error. -/
def require (value : Option α) (error : RowError) : Except RowError α :=
  match value with
  | none => .error error
  | some value => .ok value

def toOperation (row : Row Instant) : Except RowError Operation := do
  let result ← readResult? row.result
  let ordinal ← require (counter? row.ordinal) (.badOrdinal row.ordinal)
  let kind ← require (OperationKind.ofText? row.kind) (.unknownKind row.kind)
  let status ← require (OperationStatus.ofText? row.status) (.unknownStatus row.status)
  let attempt ← require (counter? row.attempt) (.badAttempt row.attempt)
  return { id := row.operationId, ordinal := ordinal, name := row.name, kind := kind,
           status := status, attempt := attempt, result := result,
           error := readError? row.errorType row.errorMessage, readyAt := row.readyAt }

end Row

end Durable
