import Durable.Text.Percent

/-!
# File URIs

The text after the scheme `file:`: an authority, which may be empty or
`localhost`, a path, named values after a question mark, and a fragment, which
is passed over.  Every part is percent-decoded by itself, and a zero byte ends
its part.
-/

namespace Durable

structure FileUri where
  path : List UInt8
  parameters : List (List UInt8 × List UInt8)
  deriving DecidableEq, Repr

namespace FileUri

def scheme : List UInt8 := Text.bytes "file:"

/-- The bytes before the first zero byte. -/
def beforeZero (bytes : List UInt8) : List UInt8 :=
  bytes.takeWhile (· != 0)

def decodePart (raw : List UInt8) : List UInt8 :=
  beforeZero (Text.percentDecode raw)

/-- The parts of a text before and after the first separator. -/
def splitFirst (separator : UInt8) (text : List UInt8) : List UInt8 × List UInt8 :=
  (text.takeWhile (· != separator), (text.dropWhile (· != separator)).drop 1)

/-- The text after the authority, if the authority is admitted. -/
def afterAuthority? (text : List UInt8) : Option (List UInt8) :=
  let slash := Text.byte '/'
  if [slash, slash].isPrefixOf text then
    let rest := text.drop 2
    let authority := rest.takeWhile (· != slash)
    if authority.isEmpty ∨ authority = Text.bytes "localhost" then
      some (rest.dropWhile (· != slash))
    else none
  else some text

/-- The named values of a query; those with an empty name are left out. -/
def parametersOf (query : List UInt8) : List (List UInt8 × List UInt8) :=
  let ampersand := Text.byte '&'
  let raw := (query.splitBy fun a b => a != ampersand && b != ampersand).filter (· != [ampersand])
  let pairs := raw.map fun pair =>
    let (name, value) := splitFirst (Text.byte '=') pair
    (decodePart name, decodePart value)
  pairs.filter fun pair => !pair.1.isEmpty

/-- The parts of a URI after its scheme. -/
def ofBytes? (text : List UInt8) : Option FileUri := do
  let text ← afterAuthority? text
  let text := text.takeWhile (· != Text.byte '#')
  let (path, query) := splitFirst (Text.byte '?') text
  some ⟨decodePart path, parametersOf query⟩

/-- The first value of a name. -/
def parameter? (uri : FileUri) (name : String) : Option (List UInt8) :=
  (uri.parameters.find? (·.1 == Text.bytes name)).map Prod.snd

end FileUri

end Durable
