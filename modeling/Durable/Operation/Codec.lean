import Durable.Operation
import Durable.Time.Printer
import Durable.Time.Reader

/-!
# The JSON form of operations

An object of nine members.  Absent parts are written as null; a null or missing
member is read as absent, and unknown members are passed over.  A record may
also be given as the list of its members in order, and a name of a kind or
status as an object that maps it to null.
-/

namespace Durable

/-- A name without a payload. -/
def Json.name? : Json → Option String
  | .string name => some name
  | .object [(name, .null)] => some name
  | _ => none

/-- The members of a record under the given names, from an object or, in their
order, from a list. -/
def Json.record? (names : List String) : Json → Option (String → Json)
  | .object members => some fun name => (Json.lookup name members).getD .null
  | .array elements =>
    if elements.length = names.length then
      some fun name => (Json.lookup name (names.zip elements)).getD .null
    else none
  | _ => none

/-- An optional part: null is absent, anything else has to be readable. -/
def Json.optional? (read : Json → Option α) : Json → Option (Option α)
  | .null => some none
  | value => (read value).map some

namespace ErrorObject

def toJson (error : ErrorObject) : Json :=
  .ofMembers [("error_type", .string error.errorType), ("message", .string error.message)]

def ofJson? (value : Json) : Option ErrorObject := do
  let member ← value.record? ["error_type", "message"]
  let errorType ← (member "error_type").text?
  let message ← (member "message").text?
  some ⟨errorType, message⟩

/-- The error object of parts that may be missing; a missing part is empty. -/
def ofParts (value : Json) : ErrorObject :=
  ⟨value.textAt "error_type", value.textAt "message"⟩

/-- The error object of a member, which may be missing as a whole. -/
def ofMember (key : String) (value : Json) : ErrorObject :=
  ofParts ((value.field? key).getD .null)

end ErrorObject

namespace Instant

def toJson (t : Instant) : Json :=
  .string t.text

def ofJson? (value : Json) : Option Instant :=
  value.text?.bind ofText?

end Instant

namespace OperationKind

def ofJson? (value : Json) : Option OperationKind :=
  value.name?.bind ofText?

end OperationKind

namespace OperationStatus

def ofJson? (value : Json) : Option OperationStatus :=
  value.name?.bind ofText?

end OperationStatus

namespace ExecutionStatus

def ofJson? (value : Json) : Option ExecutionStatus :=
  value.name?.bind ofText?

end ExecutionStatus

namespace Operation

def memberNames : List String :=
  ["id", "ordinal", "name", "kind", "status", "attempt", "result", "error", "ready_at"]

def toJson (operation : Operation) : Json :=
  .ofMembers
    [("id", .string operation.id),
     ("ordinal", .natural operation.ordinal),
     ("name", .string operation.name),
     ("kind", .string operation.kind.text),
     ("status", .string operation.status.text),
     ("attempt", .natural operation.attempt),
     ("result", operation.result.getD .null),
     ("error", .ofOption ErrorObject.toJson operation.error),
     ("ready_at", .ofOption Instant.toJson operation.readyAt)]

def ofJson? (value : Json) : Option Operation := do
  let member ← value.record? memberNames
  let id ← (member "id").text?
  let ordinal ← (member "ordinal").naturalBelow? counterBound
  let name ← (member "name").text?
  let kind ← OperationKind.ofJson? (member "kind")
  let status ← OperationStatus.ofJson? (member "status")
  let attempt ← (member "attempt").naturalBelow? counterBound
  let result ← (member "result").optional? some
  let error ← (member "error").optional? ErrorObject.ofJson?
  let readyAt ← (member "ready_at").optional? Instant.ofJson?
  some ⟨id, ordinal, name, kind, status, attempt, result, error, readyAt⟩

end Operation

namespace OperationUpdate

/-- An update as its parts.  A result that is missing is absent, and one that is
null is present. -/
def ofParts? (value : Json) : Option OperationUpdate := do
  let status ← OperationStatus.ofText? (value.textAt "status")
  let error := (value.field? "error").map ErrorObject.ofParts
  let readyAt ← ((value.member? "ready_at").getD .null).optional? Instant.ofJson?
  some ⟨status, value.naturalAt "attempt", value.member? "result", error, readyAt⟩

/-- An update as the change that it makes, or as its parts. -/
def ofJson? (value : Json) : Option OperationUpdate :=
  let attempt := value.naturalAt "attempt"
  match value.textAt "make" with
  | "started" => some (started attempt)
  | "succeeded" => some (succeeded attempt ((value.member? "result").getD .null))
  | "failed" => some (failed attempt (.ofMember "error" value))
  | "retry_scheduled" =>
    ((value.field? "ready_at").bind Instant.ofJson?).map (retryScheduled attempt)
  | _ => ofParts? value

end OperationUpdate

end Durable
