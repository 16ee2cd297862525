/-!
# JSON values

A value tree.  Numbers keep apart integers of at most 64 bits and doubles, and
the members of an object are kept in ascending order of their keys, each key
once.
-/

namespace Durable

inductive JsonNumber where
  | integer (value : Int)
  | double (value : Float)
  deriving DecidableEq, Repr

inductive Json where
  | null
  | bool (value : Bool)
  | number (value : JsonNumber)
  | string (value : String)
  | array (elements : List Json)
  | object (members : List (String × Json))
  deriving Repr, Inhabited

namespace Json

def integer (value : Int) : Json :=
  .number (.integer value)

def natural (value : Nat) : Json :=
  .number (.integer value)

/-- Put a member in the place of its key; a member that has this key is replaced. -/
def insertMember (key : String) (value : Json) :
    List (String × Json) → List (String × Json)
  | [] => [(key, value)]
  | (other, kept) :: rest =>
    if key < other then (key, value) :: (other, kept) :: rest
    else if key = other then (key, value) :: rest
    else (other, kept) :: insertMember key value rest

/-- The object of the given members; of two members with one key the later stays. -/
def ofMembers (members : List (String × Json)) : Json :=
  .object (members.foldl (fun sorted member => insertMember member.1 member.2 sorted) [])

def lookup (key : String) : List (String × Json) → Option Json
  | [] => none
  | (other, value) :: rest => if key = other then some value else lookup key rest

/-- A member of an object; none for every other value. -/
def member? (key : String) : Json → Option Json
  | .object members => lookup key members
  | _ => none

/-- A member that is there and not null. -/
def field? (key : String) (value : Json) : Option Json :=
  match value.member? key with
  | none | some .null => none
  | some present => some present

/-- The object with one more member. -/
def withMember (object : Json) (key : String) (value : Json) : Json :=
  match object with
  | .object members => .object (insertMember key value members)
  | other => other

def text? : Json → Option String
  | .string value => some value
  | _ => none

def bool? : Json → Option Bool
  | .bool value => some value
  | _ => none

def integer? : Json → Option Int
  | .number (.integer value) => some value
  | _ => none

/-- An integer from zero up to a bound. -/
def naturalBelow? (bound : Nat) : Json → Option Nat
  | .number (.integer (.ofNat value)) => if value < bound then some value else none
  | _ => none

def elements? : Json → Option (List Json)
  | .array elements => some elements
  | _ => none

/-- The text of a member; empty when there is none. -/
def textAt (key : String) (value : Json) : String :=
  ((value.field? key).bind text?).getD ""

/-- The number of a member; zero when there is none. -/
def naturalAt (key : String) (value : Json) : Nat :=
  (((value.field? key).bind integer?).map Int.toNat).getD 0

/-- The elements of a member; none when there is no list. -/
def elementsAt (key : String) (value : Json) : List Json :=
  ((value.field? key).bind elements?).getD []

/-- The texts in the list of a member. -/
def textsAt (key : String) (value : Json) : List String :=
  (value.elementsAt key).filterMap text?

def flagAt (key : String) (default : Bool) (value : Json) : Bool :=
  ((value.field? key).bind bool?).getD default

/-- A number as a double, or the text of one that is not finite. -/
def double? : Json → Option Float
  | .number (.integer value) => some (Float.ofInt value)
  | .number (.double value) => some value
  | .string "NaN" => some (0.0 / 0.0)
  | .string "inf" => some (1.0 / 0.0)
  | .string "-inf" => some (-1.0 / 0.0)
  | _ => none

def ofOption (encode : α → Json) : Option α → Json
  | none => .null
  | some value => encode value

end Json

end Durable
