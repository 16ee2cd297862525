import Durable.Operation.Codec
import Durable.Script

/-!
# Traces

What the invocation of a script shows: the bodies that began, the outcomes that
its calls returned, and its observations, in order.
-/

namespace Durable

namespace OperationScope

def toJson (scope : OperationScope) : Json :=
  .ofMembers [("operation_id", .string scope.operationId),
    ("operation_name", .string scope.operationName), ("attempt", .natural scope.attempt)]

end OperationScope

namespace LogEntry

def toJson (entry : LogEntry) : Json :=
  .ofMembers [("level", .string entry.level.text), ("message", .string entry.message),
    ("execution_id", .string entry.executionId),
    ("operation", .ofOption OperationScope.toJson entry.operation)]

end LogEntry

namespace Trace

/-- The outcome of a call under the name of the call. -/
def ofOutcome (call name : String) (shown : α → Json) (outcome : Except DurableError α)
    (replaying : Bool) : Json :=
  let result := match outcome with
    | .ok value => ("ok", shown value)
    | .error error => ("err", ErrorObject.toJson ⟨error.errorType, error.message⟩)
  .ofMembers [(call, .string name), result, ("replaying", .bool replaying)]

def ofObservation (observation : Observation) : Json :=
  .ofMembers [("observe", .string observation.executionId), ("now", observation.now.toJson),
    ("replaying", .bool observation.replaying),
    ("operation", .ofOption OperationScope.toJson observation.operation)]

def ofBody (context : StepContext) (replaying : Bool) : Json :=
  .ofMembers [("body", .string context.name), ("attempt", .natural context.attempt),
    ("operation_id", .string context.operationId),
    ("execution_id", .string context.executionId), ("replaying", .bool replaying)]

/-- The entry of an effect; declarations, writes, log calls and diagnostics have
none. -/
def entry? : Effect Value → Option Json
  | .bodyBegun _ _ context replaying => some (ofBody context replaying)
  | .stepReturned name outcome replaying =>
    some (ofOutcome "step" name Value.shown outcome replaying)
  | .waitReturned name outcome replaying =>
    some (ofOutcome "wait" name (fun _ => .null) outcome replaying)
  | .observed observation => some (ofObservation observation)
  | _ => none

def ofOccurrences (occurrences : List (Occurrence Value)) : List Json :=
  occurrences.filterMap fun occurrence => entry? occurrence.effect

end Trace

end Durable
