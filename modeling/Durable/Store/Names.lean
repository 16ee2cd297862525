/-!
# Sorted names

Names in ascending order, each once.
-/

namespace Durable

namespace Names

/-- Put a name into an ascending list, once. -/
def insert (name : String) : List String → List String
  | [] => [name]
  | other :: rest =>
    if name < other then name :: other :: rest
    else if name = other then other :: rest
    else other :: insert name rest

def sorted (names : List String) : List String :=
  names.foldr insert []

end Names

end Durable
