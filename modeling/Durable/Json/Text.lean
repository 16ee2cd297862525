import Durable.Json.Token

/-!
# JSON texts

Values are read by a machine that keeps one frame for every array or object
that is still open, and written as the list of their tokens.  At most `127`
frames may be open at once.
-/

namespace Durable

namespace Json

/-- An open array with its elements so far, latest first, or an open object
with its members so far and the key whose value is being read. -/
inductive Frame where
  | array (elements : List Json)
  | object (members : List (String × Json)) (key : String)
  deriving Repr, Inhabited

/-- What the machine accepts next. -/
inductive Awaiting where
  | value
  | valueOrClose
  | keyOrClose (members : List (String × Json))
  | key (members : List (String × Json))
  | colon
  | separator
  | nothing (result : Json)
  deriving Repr, Inhabited

structure Machine where
  frames : List Frame
  awaiting : Awaiting
  deriving Repr, Inhabited

namespace Machine

def start : Machine := ⟨[], .value⟩

def maxOpen : Nat := 127

/-- Hand a finished value to the innermost open frame. -/
def deliver (frames : List Frame) (value : Json) : Machine :=
  match frames with
  | [] => ⟨[], .nothing value⟩
  | .array elements :: outer => ⟨.array (value :: elements) :: outer, .separator⟩
  | .object members key :: outer =>
    ⟨.object (insertMember key value members) key :: outer, .separator⟩

def openFrame (frames : List Frame) (frame : Frame) (awaiting : Awaiting) :
    Option Machine :=
  if frames.length < maxOpen then some ⟨frame :: frames, awaiting⟩ else none

/-- Start or finish a value where one may stand. -/
def readValue (frames : List Frame) : JsonToken → Option Machine
  | .null => some (deliver frames .null)
  | .bool value => some (deliver frames (.bool value))
  | .number value => some (deliver frames (.number value))
  | .string value => some (deliver frames (.string value))
  | .openArray => openFrame frames (.array []) .valueOrClose
  | .openObject => openFrame frames (.object [] "") (.keyOrClose [])
  | _ => none

/-- Close the innermost frame. -/
def close (frames : List Frame) (token : JsonToken) : Option Machine :=
  match token, frames with
  | .closeArray, .array elements :: outer =>
    some (deliver outer (.array elements.reverse))
  | .closeObject, .object members _ :: outer => some (deliver outer (.object members))
  | _, _ => none

def readKey (frames : List Frame) (members : List (String × Json)) :
    JsonToken → Option Machine
  | .string key =>
    match frames with
    | .object _ _ :: outer => some ⟨.object members key :: outer, .colon⟩
    | _ => none
  | _ => none

def step (machine : Machine) (token : JsonToken) : Option Machine :=
  match machine.awaiting with
  | .value => readValue machine.frames token
  | .valueOrClose =>
    match token with
    | .closeArray => close machine.frames token
    | _ => readValue machine.frames token
  | .keyOrClose members =>
    match token with
    | .closeObject => close machine.frames token
    | _ => readKey machine.frames members token
  | .key members => readKey machine.frames members token
  | .colon =>
    match token with
    | .colon => some ⟨machine.frames, .value⟩
    | _ => none
  | .separator =>
    match token, machine.frames with
    | .comma, .array _ :: _ => some ⟨machine.frames, .value⟩
    | .comma, .object members _ :: _ => some ⟨machine.frames, .key members⟩
    | _, _ => close machine.frames token
  | .nothing _ => none

def run (machine : Machine) : List JsonToken → Option Machine
  | [] => some machine
  | token :: rest => (machine.step token).bind (run · rest)

def result? (machine : Machine) : Option Json :=
  match machine.awaiting with
  | .nothing value => some value
  | _ => none

end Machine

def ofTokens? (tokens : List JsonToken) : Option Json :=
  (Machine.start.run tokens).bind Machine.result?

/-- The value of a JSON text. -/
def parse? (text : String) : Option Json :=
  (JsonToken.scan? text).bind ofTokens?

/-- The tokens of a value, without blanks. -/
def tokens : Json → List JsonToken
  | .null => [.null]
  | .bool value => [.bool value]
  | .number value => [.number value]
  | .string value => [.string value]
  | .array elements => .openArray :: (elementTokens elements ++ [.closeArray])
  | .object members => .openObject :: (memberTokens members ++ [.closeObject])
where
  elementTokens : List Json → List JsonToken
    | [] => []
    | [value] => tokens value
    | value :: rest => tokens value ++ .comma :: elementTokens rest
  memberTokens : List (String × Json) → List JsonToken
    | [] => []
    | [(key, value)] => .string key :: .colon :: tokens value
    | (key, value) :: rest =>
      .string key :: .colon :: (tokens value ++ .comma :: memberTokens rest)

/-- The compact text of a value. -/
def render (value : Json) : String :=
  String.ofList (value.tokens.flatMap JsonToken.render)

end Json

end Durable
