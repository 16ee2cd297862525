import Durable.Error.Codec
import Durable.Retry.Codec
import Durable.Script

/-!
# Scripts as JSON

A script is a list of objects, each of which names what it does.
-/

namespace Durable

/-- What a reader of scripts has to be told: the draws of retry strategies, and
the errors that are named by their source. -/
structure ScriptReader where
  sampler : Sampler
  nativeError : Json → ErrorObject

namespace LogLevel

/-- The level of a text; an unknown one is informational. -/
def ofText (text : String) : LogLevel :=
  (ofText? text).getD .info

end LogLevel

namespace ResultType

/-- The value of a type that JSON stands for.  A part that is missing is zero,
empty or absent. -/
def ofJson (type : ResultType) (value : Json) : Value :=
  match type with
  | .json => .json value
  | .text => .text (value.text?.getD "")
  | .word => .word ((value.integer?.map Int.toNat).getD 0)
  | .flag => .flag (value.bool?.getD false)
  | .unit => .unit
  | .double => .double (value.double?.getD 0.0)
  | .optionalText => .optionalText value.text?
  | .bytesMap =>
    .bytesMap ((value.elements?.getD []).filterMap fun key => key.integer?.map Int.toNat)

end ResultType

namespace ScriptedAttempt

def logOfJson? : Json → Option (LogLevel × String)
  | .array [.string level, .string message] => some (.ofText level, message)
  | _ => none

def endingOfJson (reader : ScriptReader) (type : ResultType) (value : Json) : ScriptedEnding :=
  if value.flagAt "crash" false then .crash
  else
    match value.field? "err", value.field? "err_from" with
    | some _, _ => .failNumbered (.ofMember "err" value)
    | none, some source => .fail (reader.nativeError source)
    | none, none => .value (type.ofJson ((value.member? "ok").getD .null))

def ofJson (reader : ScriptReader) (type : ResultType) (value : Json) : ScriptedAttempt where
  logs := (value.elementsAt "logs").filterMap logOfJson?
  pause := (value.field? "advance").bind Duration.ofJson?
  ending := endingOfJson reader type value

end ScriptedAttempt

namespace ScriptedStep

def ofJson (reader : ScriptReader) (value : Json) : ScriptedStep :=
  let type := (ResultType.ofText? (value.textAt "type")).getD .json
  { name := value.textAt "name"
    config := .ofJson reader.sampler value
    type := type
    attempts := (value.elementsAt "outcomes").map (.ofJson reader type) }

end ScriptedStep

namespace Rescue

def ofJson (value : Json) : Rescue :=
  match value.field? "on_error" with
  | none => .never
  | some handler =>
    match handler.field? "types" with
    | none => .always
    | some _ => .only (handler.textsAt "types")

end Rescue

namespace Script

/-- One statement before the rest of a script.  `statements` reads the
statements that rescue a call. -/
def ofStatement? (reader : ScriptReader) (statements : List Json → Option Script)
    (value : Json) (rest : Script) : Option Script := do
  let rescue := Rescue.ofJson value
  let recover ← statements (((value.field? "on_error").map (·.elementsAt "then")).getD [])
  match value.textAt "do" with
  | "step" => some (.step (.ofJson reader value) rescue recover rest)
  | "wait" => some (.wait (value.textAt "name") (.ofMember "for" value) rescue recover rest)
  | "log" => some (.log (.ofText (value.textAt "level")) (value.textAt "message") rest)
  | "observe" => some (.observe rest)
  | "advance" => some (.advance (.ofMember "for" value) rest)
  | "return" => some (.give ((value.member? "value").getD .null))
  | "raise" => do
    let error ← (value.field? "error").bind DurableError.ofJson?
    some (.raise error rescue recover rest)
  | _ => none

/-- Statements whose rescues are nested less than `depth` deep. -/
def ofStatements? (reader : ScriptReader) : Nat → List Json → Option Script
  | 0, _ => none
  | depth + 1, values =>
    values.foldr
      (fun value rest => rest.bind (ofStatement? reader (ofStatements? reader depth) value))
      (some .finish)

/-- Statements nested as deep as a JSON text can nest them. -/
def ofJson? (reader : ScriptReader) (value : Json) : Option Script :=
  ofStatements? reader 128 (value.elements?.getD [])

end Script

end Durable
