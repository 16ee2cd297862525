/-!
# Error objects

The reduced form of a failure that records keep: a discriminator and a message.
-/

namespace Durable

structure ErrorObject where
  errorType : String
  message : String
  deriving DecidableEq, Repr, Inhabited

namespace ErrorObject

def display (error : ErrorObject) : String :=
  error.errorType ++ ": " ++ error.message

/-- Does the error carry this discriminator? -/
def isOf (error : ErrorObject) (errorType : String) : Bool :=
  error.errorType == errorType

/-- The text after the last `::`, where `segment` holds what was read since. -/
def lastSegment (segment : List Char) : List Char → List Char
  | [] => segment.reverse
  | ':' :: ':' :: rest => lastSegment [] rest
  | c :: rest => lastSegment (c :: segment) rest

/-- The last segment of a qualified type name, without type arguments. -/
def shortTypeName (name : String) : String :=
  String.ofList (lastSegment [] (name.toList.takeWhile (· != '<')))

/-- The error object of a failure whose type has the given qualified name. -/
def ofType (typeName message : String) : ErrorObject :=
  ⟨shortTypeName typeName, message⟩

end ErrorObject

end Durable
