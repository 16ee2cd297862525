import Durable.Error
import Durable.Operation.Codec

/-!
# Errors as JSON objects

An object names the variant of an error and carries its parts.
-/

namespace Durable

namespace StoreError

def ofJson? (value : Json) : Option StoreError :=
  let details := value.textAt "details"
  match value.textAt "variant" with
  | "Database" => some (.database (value.textAt "operation") details)
  | "Serialization" => some (.serialization details)
  | "Conflict" => some (.conflict (value.naturalAt "ordinal") details)
  | _ => none

end StoreError

namespace DurableError

def ofJson? (value : Json) : Option DurableError :=
  let name := value.textAt "name"
  let ordinal := value.naturalAt "ordinal"
  match value.textAt "variant" with
  | "StepFailed" => some (.stepFailed name (.ofMember "error" value))
  | "StepInterrupted" => some (.stepInterrupted name (value.naturalAt "attempt"))
  | "Suspended" => ((value.field? "until").bind Instant.ofJson?).map .suspended
  | "ReplayMismatch" => do
    let recordedKind ← OperationKind.ofText? (value.textAt "recorded_kind")
    let declaredKind ← OperationKind.ofText? (value.textAt "declared_kind")
    some (.replayMismatch ordinal recordedKind (value.textAt "recorded_name") declaredKind
      (value.textAt "declared_name"))
  | "DuplicateOperationName" => some (.duplicateOperationName name ordinal)
  | "InvalidOperationState" => some (.invalidOperationState name (value.textAt "details"))
  | "Serialization" => some (.serialization (value.textAt "details"))
  | "Checkpoint" => ((value.field? "store").bind StoreError.ofJson?).map .checkpoint
  | "Workflow" => some (.workflow (.ofMember "error" value))
  | _ => none

end DurableError

end Durable
