import Durable.Config
import Durable.Execution
import Durable.Value

/-!
# Orders

A workflow that fulfils an order: reserve stock, charge a card with retries,
wait for a review, and ship.  A host invokes it until it is done.
-/

namespace Durable

structure Order where
  id : String
  sku : String
  quantity : Nat
  deriving DecidableEq, Repr, Inhabited

structure Receipt where
  orderId : String
  amountCents : Nat
  deriving DecidableEq, Repr, Inhabited

namespace Receipt

def toJson (receipt : Receipt) : Json :=
  .ofMembers [("order_id", .string receipt.orderId),
    ("amount_cents", .natural receipt.amountCents)]

def expectation : String := "struct Receipt"

def readAmount (found : Json) : Except String Nat :=
  match found with
  | .number (.integer (.ofNat value)) => .ok value
  | .number (.integer (.negSucc _)) => .error (found.outOfRange "u64")
  | other => .error (other.mismatch "u64")

/-- A member that a receipt needs. -/
def required (name : String) (value : Option α) : Except String α :=
  match value with
  | none => .error ("missing field `" ++ name ++ "`")
  | some value => .ok value

/-- Read a member, if it is there. -/
def readMember (read : Json → Except String α) (found : Option Json) :
    Except String (Option α) :=
  match found with
  | none => .ok none
  | some value => (read value).map some

/-- A receipt from the members of an object, which are read in the order of their
names, or from a list of its two parts. -/
def ofJson (found : Json) : Except String Receipt :=
  match found with
  | .object members => do
    let amountCents ← readMember readAmount (Json.lookup "amount_cents" members)
    let orderId ← readMember ResultType.readText (Json.lookup "order_id" members)
    let orderId ← required "order_id" orderId
    let amountCents ← required "amount_cents" amountCents
    return ⟨orderId, amountCents⟩
  | .array [] => .error ("invalid length 0, expected " ++ expectation ++ " with 2 elements")
  | .array [orderId] => do
    let _ ← ResultType.readText orderId
    .error ("invalid length 1, expected " ++ expectation ++ " with 2 elements")
  | .array (orderId :: amountCents :: rest) => do
    let orderId ← ResultType.readText orderId
    let amountCents ← readAmount amountCents
    if rest.isEmpty then return ⟨orderId, amountCents⟩
    else .error ("invalid length " ++ toString (rest.length + 2)
      ++ ", expected fewer elements in array")
  | other => .error (other.mismatch expectation)

end Receipt

/-- The results of the steps of an order. -/
inductive OrderValue where
  | text (value : String)
  | receipt (value : Receipt)
  deriving DecidableEq, Repr, Inhabited

namespace OrderValue

def encode : OrderValue → Except String Json
  | .text value => .ok (.string value)
  | .receipt value => .ok value.toJson

def textCodec : Codec OrderValue :=
  ⟨encode, fun found => (ResultType.readText found).map .text⟩

def receiptCodec : Codec OrderValue :=
  ⟨encode, fun found => (Receipt.ofJson found).map .receipt⟩

def asText : OrderValue → String
  | .text value => value
  | .receipt _ => ""

def asReceipt : OrderValue → Receipt
  | .receipt value => value
  | .text _ => ⟨"", 0⟩

end OrderValue

namespace Order

/-- The order that an execution is about. -/
def ofExecution (executionId : String) : Order :=
  ⟨executionId, "SKU-RED-MUG", 2⟩

def unitPriceCents : Nat := 1999

def chargeBackoff : ExponentialBackoff :=
  { ExponentialBackoff.ofInitial 4 (.ofSeconds 1) with
    maxDelay := .ofSeconds 4, jitter := .none, nonRetryable := ["CardDeclined"] }

/-- The charge is made at most once for each attempt. -/
def chargeConfig (sampler : Sampler) : StepConfig :=
  { StepConfig.standard with retry := (RetryStrategy.exponential chargeBackoff).delay? sampler }

def reserveBody (order : Order) : StepBody OrderValue := fun _ =>
  ⟨[.log .info "reserving stock"],
   .value (.text ("rsv-" ++ order.sku ++ "-" ++ toString order.quantity))⟩

/-- The payment gateway does not answer the first attempt. -/
def chargeBody (order : Order) : StepBody OrderValue := fun context =>
  ⟨[.log .info ("charging, attempt " ++ toString context.attempt)],
   if context.attempt < 2 then
     .failure ⟨"GatewayTimeout", "payment gateway timed out"⟩
   else .value (.receipt ⟨order.id, order.quantity * unitPriceCents⟩)⟩

def shipBody (order : Order) : StepBody OrderValue := fun _ =>
  ⟨[], .value (.text ("trk-" ++ order.id))⟩

def reviewTime : Duration := .ofSeconds 3

def summary (receipt : Receipt) (reservation tracking : String) : String :=
  receipt.orderId ++ " charged " ++ toString receipt.amountCents ++ " cents, reservation "
    ++ reservation ++ ", tracking " ++ tracking

/-- Go on with the value of a step, or end with its error. -/
def andThen {α : Type} (next : α → Workflow OrderValue String) :
    Except DurableError α → Workflow OrderValue String
  | .error error => .done (.error error)
  | .ok value => next value

def workflow (order : Order) (sampler : Sampler) : Workflow OrderValue String :=
  .log .info ("processing order " ++ order.id ++ " (" ++ toString order.quantity ++ " x "
    ++ order.sku ++ ")") <|
  .step "reserve-stock" .standard OrderValue.textCodec order.reserveBody <|
    andThen fun reservation =>
  .step "charge-card" (chargeConfig sampler) OrderValue.receiptCodec order.chargeBody <|
    andThen fun receipt =>
  .wait "fraud-review-window" reviewTime <| andThen fun _ =>
  .step "ship" .standard OrderValue.textCodec order.shipBody <| andThen fun tracking =>
  .log .info "order complete" <|
  .done (.ok (summary receipt.asReceipt reservation.asText tracking.asText))

end Order

end Durable
