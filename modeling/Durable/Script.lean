import Durable.Value
import Durable.Workflow

/-!
# Scripts

Workflows given as data.  A script is a list of statements; the results of its
steps are collected in order, and are its output unless it returns a value of
its own.  A call that fails can be rescued, which means that other statements
run in its place before the script goes on.
-/

namespace Durable

/-- How the body of a scripted step ends. -/
inductive ScriptedEnding where
  | crash
  | failNumbered (error : ErrorObject)
  | fail (error : ErrorObject)
  | value (value : Value)

/-- What the body of a scripted step does in one attempt. -/
structure ScriptedAttempt where
  logs : List (LogLevel × String)
  pause : Option Duration
  ending : ScriptedEnding

structure ScriptedStep where
  name : String
  config : StepConfig
  type : ResultType
  attempts : List ScriptedAttempt

/-- The errors that a call is rescued from. -/
inductive Rescue where
  | never
  | always
  | only (errorTypes : List String)
  deriving DecidableEq, Repr

namespace Rescue

def covers (rescue : Rescue) (error : DurableError) : Bool :=
  match rescue with
  | .never => false
  | .always => true
  | .only errorTypes => errorTypes.contains error.errorType

end Rescue

/-- A statement and the statements after it.  Calls that can fail carry the
statements that rescue them. -/
inductive Script where
  | finish
  | step (call : ScriptedStep) (rescue : Rescue) (recover : Script) (rest : Script)
  | wait (name : String) (duration : Duration) (rescue : Rescue) (recover : Script)
      (rest : Script)
  | log (level : LogLevel) (message : String) (rest : Script)
  | observe (rest : Script)
  | advance (duration : Duration) (rest : Script)
  | give (value : Json)
  | raise (error : DurableError) (rescue : Rescue) (recover : Script) (rest : Script)

namespace ScriptedAttempt

/-- The mark in an error message that stands for the number of the attempt. -/
def attemptMark : List Char :=
  "\x7battempt\x7d".toList

/-- Put a text in the place of every mark. -/
def fillIn (mark text : List Char) : Nat → List Char → List Char
  | 0, rest => rest
  | _ + 1, [] => []
  | fuel + 1, c :: rest =>
    if mark.isPrefixOf (c :: rest) then
      text ++ fillIn mark text fuel ((c :: rest).drop mark.length)
    else c :: fillIn mark text fuel rest

def numbered (error : ErrorObject) (attempt : Nat) : ErrorObject :=
  let message := error.message.toList
  { error with
    message := String.ofList (fillIn attemptMark (toString attempt).toList message.length message) }

def actions (attempt : ScriptedAttempt) : List BodyAction :=
  attempt.logs.map (fun (level, message) => .log level message)
    ++ match attempt.pause with
      | none => []
      | some duration => [.advance duration]

def outcome (attempt : ScriptedAttempt) (context : StepContext) : BodyOutcome Value :=
  match attempt.ending with
  | .crash => .crash
  | .failNumbered error => .failure (numbered error context.attempt)
  | .fail error => .failure error
  | .value value => .value value

/-- An attempt without anything to do. -/
def idle : ScriptedAttempt :=
  ⟨[], none, .value (.json .null)⟩

end ScriptedAttempt

namespace ScriptedStep

/-- The attempt of a number; the last one stands for all that follow. -/
def attemptAt (step : ScriptedStep) (number : Nat) : ScriptedAttempt :=
  (step.attempts[min (number - 1) (step.attempts.length - 1)]?).getD .idle

def body (step : ScriptedStep) : StepBody Value :=
  fun context =>
    let attempt := step.attemptAt context.attempt
    ⟨attempt.actions, attempt.outcome context⟩

end ScriptedStep

namespace Script

/-- The workflow of a script, with the values collected so far and what follows
once the script has ended. -/
def compile (values : List Json) (next : List Json → Workflow Value Json) :
    Script → Workflow Value Json
  | .finish => next values
  | .step call rescue recover rest =>
    .step call.name call.config call.type.codec call.body fun
      | .ok value => rest.compile (values ++ [value.shown]) next
      | .error error =>
        if rescue.covers error then
          recover.compile values fun values => rest.compile values next
        else .done (.error error)
  | .wait name duration rescue recover rest =>
    .wait name duration fun
      | .ok _ => rest.compile values next
      | .error error =>
        if rescue.covers error then
          recover.compile values fun values => rest.compile values next
        else .done (.error error)
  | .log level message rest => .log level message (rest.compile values next)
  | .observe rest => .observe fun _ => rest.compile values next
  | .advance duration rest => .advance duration (rest.compile values next)
  | .give value => .done (.ok value)
  | .raise error rescue recover rest =>
    if rescue.covers error then
      recover.compile values fun values => rest.compile values next
    else .done (.error error)

/-- A script that ends by itself gives the list of its values. -/
def workflow (script : Script) : Workflow Value Json :=
  script.compile [] fun values => .done (.ok (.array values))

end Script

end Durable
