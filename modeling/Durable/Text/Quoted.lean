import Durable.Text.Printable

/-!
# Quoted texts

A text between double quotes with its unprintable characters escaped, as
diagnostic messages show it.
-/

namespace Durable

namespace Text

def hexDigits (n : Nat) : String :=
  String.ofList (Nat.toDigits 16 n)

/-- One character of a quoted text.  A character that cannot be shown by itself
is written by its code in lower-case hexadecimal digits. -/
def quotedChar (c : Char) : String :=
  if c = '"' then "\\\""
  else if c = '\\' then "\\\\"
  else if c = '\n' then "\\n"
  else if c = '\r' then "\\r"
  else if c = '\t' then "\\t"
  else if c = Char.ofNat 0 then "\\0"
  else if isPrintable c then String.singleton c
  else "\\u\x7b" ++ hexDigits c.toNat ++ "\x7d"

def quoted (text : String) : String :=
  "\"" ++ String.join (text.toList.map quotedChar) ++ "\""

end Text

end Durable
