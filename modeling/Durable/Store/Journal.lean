import Durable.Store.Table

/-!
# Journals

The rows of a table as lines of text, one JSON object for each row.
-/

namespace Durable

namespace Journal

def entry (row : Row String) : Json :=
  .ofMembers
    [("execution_id", .string row.executionId),
     ("ordinal", .integer row.ordinal),
     ("operation_id", .string row.operationId),
     ("name", .string row.name),
     ("kind", .string row.kind),
     ("status", .string row.status),
     ("attempt", .integer row.attempt),
     ("result", .ofOption .string row.result),
     ("error_type", .ofOption .string row.errorType),
     ("error_message", .ofOption .string row.errorMessage),
     ("ready_at", .ofOption .string row.readyAt)]

def line (row : Row String) : String :=
  (entry row).render

/-- The row of an entry, as it is submitted to a table. -/
def submitted (value : Json) : SubmittedRow :=
  let text (key : String) := (value.field? key).bind Json.text?
  let number (key : String) := (value.field? key).bind Json.integer?
  { executionId := value.textAt "execution_id"
    ordinal := number "ordinal"
    operationId := text "operation_id"
    name := text "name"
    kind := text "kind"
    status := text "status"
    attempt := number "attempt"
    result := text "result"
    errorType := text "error_type"
    errorMessage := text "error_message"
    readyAt := text "ready_at" }

def ofLine? (line : String) : Option (Row String) :=
  ((Json.parse? line).map submitted).bind (·.admit? true)

/-- The table that lines describe; none when a line cannot be read. -/
def tableOfLines? (lines : List String) : Option Table :=
  (lines.mapM ofLine?).map Table.mk

end Journal

end Durable
