/-!
# Blank characters

The characters with the Unicode property `White_Space`, and trimming by them.
-/

namespace Durable

namespace Text

/-- A character with the Unicode property `White_Space`. -/
def isBlank (c : Char) : Bool :=
  let code := c.toNat
  (0x09 ≤ code && code ≤ 0x0D) || code == 0x20 || code == 0x85 || code == 0xA0
    || code == 0x1680 || (0x2000 ≤ code && code ≤ 0x200A) || code == 0x2028
    || code == 0x2029 || code == 0x202F || code == 0x205F || code == 0x3000

def trimStart (text : List Char) : List Char :=
  text.dropWhile isBlank

def trimEnd (text : List Char) : List Char :=
  (text.reverse.dropWhile isBlank).reverse

/-- The text without its leading and trailing blanks. -/
def trim (text : String) : String :=
  String.ofList (trimEnd (trimStart text.toList))

/-- ASCII letters in lower case, every other character as it is. -/
def lowerAscii (text : String) : String :=
  text.map Char.toLower

end Text

end Durable
