/-!
# Percent-encoded texts

A percent sign followed by two hexadecimal digits stands for one byte; any other
byte stands for itself.
-/

namespace Durable

namespace Text

/-- The UTF-8 form of a text. -/
def bytes (text : String) : List UInt8 :=
  text.toUTF8.toList

/-- The byte of an ASCII character. -/
def byte (c : Char) : UInt8 :=
  UInt8.ofNat c.toNat

def hexValue? (digit : UInt8) : Option UInt8 :=
  if byte '0' ≤ digit ∧ digit ≤ byte '9' then some (digit - byte '0')
  else if byte 'a' ≤ digit ∧ digit ≤ byte 'f' then some (digit - byte 'a' + 10)
  else if byte 'A' ≤ digit ∧ digit ≤ byte 'F' then some (digit - byte 'A' + 10)
  else none

/-- The byte that a percent sign and two hexadecimal digits stand for. -/
def percentByte? (sign high low : UInt8) : Option UInt8 :=
  if sign = byte '%' then do
    let high ← hexValue? high
    let low ← hexValue? low
    some (16 * high + low)
  else none

def percentDecode : List UInt8 → List UInt8
  | sign :: high :: low :: rest =>
    match percentByte? sign high low with
    | some decoded => decoded :: percentDecode rest
    | none => sign :: percentDecode (high :: low :: rest)
  | short => short

/-- The decoded text; none when its bytes are not valid UTF-8. -/
def percentDecode? (text : String) : Option String :=
  String.fromUTF8? (ByteArray.mk (percentDecode (bytes text)).toArray)

end Text

end Durable
