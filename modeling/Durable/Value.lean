import Durable.Invocation.Step
import Durable.Json.Number
import Durable.Text.Quoted

/-!
# Step values

The types that a step result can have, how a value is written as JSON, and how
JSON is read back as a value of a type.  Reading fails with a text that names
what was found and what was expected.
-/

namespace Durable

inductive ResultType where
  | json
  | text
  | word
  | flag
  | unit
  | double
  | optionalText
  | bytesMap
  deriving DecidableEq, Repr, Inhabited

inductive Value where
  | json (value : Json)
  | text (value : String)
  | word (value : Nat)
  | flag (value : Bool)
  | unit
  | double (value : Float)
  | optionalText (value : Option String)
  | bytesMap (keys : List Nat)
  deriving Repr, Inhabited

namespace ResultType

def ofText? : String → Option ResultType
  | "json" => some .json
  | "string" => some .text
  | "u32" => some .word
  | "bool" => some .flag
  | "unit" => some .unit
  | "f64" => some .double
  | "opt_string" => some .optionalText
  | "bytes_map" => some .bytesMap
  | _ => none

/-- What a reader of the type says that it expects. -/
def expectation : ResultType → String
  | .json => "any value"
  | .text | .optionalText => "a string"
  | .word => "u32"
  | .flag => "a boolean"
  | .unit => "unit"
  | .double => "f64"
  | .bytesMap => "a map"

end ResultType

namespace Json

/-- A double as a message shows it: as JSON text, or the name of a number that is
not finite. -/
def doubleText (value : Float) : String :=
  if value.isFinite then (JsonNumber.double value).text
  else if value.isNaN then "NaN"
  else if value < 0 then "-inf"
  else "inf"

def marked (kind text : String) : String :=
  kind ++ " `" ++ text ++ "`"

/-- What a message says was found. -/
def describe : Json → String
  | .null => "null"
  | .bool value => marked "boolean" (if value then "true" else "false")
  | .number (.integer value) => marked "integer" (toString value)
  | .number (.double value) => marked "floating point" (doubleText value)
  | .string value => "string " ++ Text.quoted value
  | .array _ => "sequence"
  | .object _ => "map"

def mismatch (found : Json) (expectation : String) : String :=
  "invalid type: " ++ found.describe ++ ", expected " ++ expectation

def outOfRange (found : Json) (expectation : String) : String :=
  "invalid value: " ++ found.describe ++ ", expected " ++ expectation

end Json

namespace Value

/-- The JSON form of a double; a number that is not finite has none and is
written as null. -/
def doubleJson (value : Float) : Json :=
  if value.isFinite then .number (.double value) else .null

/-- The JSON form of a value.  A map needs keys that are texts. -/
def encode : Value → Except String Json
  | .json value => .ok value
  | .text value => .ok (.string value)
  | .word value => .ok (.natural value)
  | .flag value => .ok (.bool value)
  | .unit => .ok .null
  | .double value => .ok (doubleJson value)
  | .optionalText value => .ok (.ofOption .string value)
  | .bytesMap [] => .ok (.object [])
  | .bytesMap (_ :: _) => .error "key must be a string"

/-- A value as a report shows it. -/
def shown : Value → Json
  | .json value => value
  | .text value => .string value
  | .word value => .natural value
  | .flag value => .bool value
  | .unit => .null
  | .double value =>
    if value.isFinite then .number (.double value) else .string (Json.doubleText value)
  | .optionalText value => .ofOption .string value
  | .bytesMap keys => .natural keys.length

end Value

namespace ResultType

def readText (found : Json) : Except String String :=
  match found with
  | .string value => .ok value
  | other => .error (other.mismatch (expectation .text))

def readWord (found : Json) : Except String Nat :=
  match found with
  | .number (.integer (.ofNat value)) =>
    if value < Nat.pow 2 32 then .ok value else .error (found.outOfRange (expectation .word))
  | .number (.integer (.negSucc _)) => .error (found.outOfRange (expectation .word))
  | other => .error (other.mismatch (expectation .word))

def readFlag (found : Json) : Except String Bool :=
  match found with
  | .bool value => .ok value
  | other => .error (other.mismatch (expectation .flag))

def readUnit (found : Json) : Except String Unit :=
  match found with
  | .null => .ok ()
  | other => .error (other.mismatch (expectation .unit))

/-- Integers are read as the nearest double. -/
def readDouble (found : Json) : Except String Float :=
  match found with
  | .number (.double value) => .ok value
  | .number (.integer value) => .ok (Float.ofInt value)
  | other => .error (other.mismatch (expectation .double))

def readOptionalText (found : Json) : Except String (Option String) :=
  match found with
  | .null => .ok none
  | other => (readText other).map some

/-- The keys of a map are sequences of bytes, which no JSON text is. -/
def readBytesMap (found : Json) : Except String (List Nat) :=
  match found with
  | .object [] => .ok []
  | .object ((key, _) :: _) => .error ((Json.string key).mismatch "a sequence")
  | other => .error (other.mismatch (expectation .bytesMap))

def decode (type : ResultType) (found : Json) : Except String Value :=
  match type with
  | .json => .ok (.json found)
  | .text => (readText found).map .text
  | .word => (readWord found).map .word
  | .flag => (readFlag found).map .flag
  | .unit => (readUnit found).map fun _ => .unit
  | .double => (readDouble found).map .double
  | .optionalText => (readOptionalText found).map .optionalText
  | .bytesMap => (readBytesMap found).map .bytesMap

def codec (type : ResultType) : Codec Value :=
  ⟨Value.encode, type.decode⟩

end ResultType

namespace Operation

/-- The result of a record as a value of a type; none when there is no result. -/
def resultAs (operation : Operation) (type : ResultType) : Except StoreError (Option Value) :=
  match operation.result with
  | none => .ok none
  | some result => ((type.decode result).mapError .serialization).map some

end Operation

end Durable
