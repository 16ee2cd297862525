import Durable.Json.Number

/-!
# JSON tokens

The lexical layer: punctuation, literals, numbers and strings, separated by
blanks.  Scanning and rendering of strings are given over lists of characters.
-/

namespace Durable

inductive JsonToken where
  | openArray
  | closeArray
  | openObject
  | closeObject
  | comma
  | colon
  | null
  | bool (value : Bool)
  | number (value : JsonNumber)
  | string (value : String)
  deriving DecidableEq, Repr

namespace JsonToken

def isSpace (c : Char) : Bool :=
  c == ' ' || c == '\n' || c == '\t' || c == '\r'

def isNumberChar (c : Char) : Bool :=
  JsonNumber.isDigit c || c == '-' || c == '+' || c == '.' || c == 'e' || c == 'E'

def hexValue? (c : Char) : Option Nat :=
  if '0' ≤ c ∧ c ≤ '9' then some (c.toNat - '0'.toNat)
  else if 'a' ≤ c ∧ c ≤ 'f' then some (c.toNat - 'a'.toNat + 10)
  else if 'A' ≤ c ∧ c ≤ 'F' then some (c.toNat - 'A'.toNat + 10)
  else none

/-- A code unit of four hexadecimal digits. -/
def unit? : List Char → Option (Nat × List Char)
  | a :: b :: c :: d :: rest => do
    let a ← hexValue? a
    let b ← hexValue? b
    let c ← hexValue? c
    let d ← hexValue? d
    some (((a * 16 + b) * 16 + c) * 16 + d, rest)
  | _ => none

/-- The character of one code unit, or of a pair of surrogates.  A surrogate
without its partner stands for no character. -/
def unicodeEscape? (text : List Char) : Option (Char × List Char) := do
  let (high, rest) ← unit? text
  if 0xD800 ≤ high ∧ high < 0xDC00 then
    match rest with
    | '\\' :: 'u' :: rest => do
      let (low, rest) ← unit? rest
      if 0xDC00 ≤ low ∧ low < 0xE000 then
        some (Char.ofNat (0x10000 + (high - 0xD800) * 0x400 + (low - 0xDC00)), rest)
      else none
    | _ => none
  else if 0xDC00 ≤ high ∧ high < 0xE000 then none
  else some (Char.ofNat high, rest)

/-- The character of an escape that is one letter or sign. -/
def simpleEscape? : Char → Option Char
  | '"' => some '"'
  | '\\' => some '\\'
  | '/' => some '/'
  | 'b' => some (Char.ofNat 8)
  | 'f' => some (Char.ofNat 12)
  | 'n' => some '\n'
  | 'r' => some '\r'
  | 't' => some '\t'
  | _ => none

/-- The characters up to the closing quote, and the text after it.  The
measure counts the characters that may still be read. -/
def scanString : Nat → List Char → Option (List Char × List Char)
  | 0, _ => none
  | _ + 1, [] => none
  | _ + 1, '"' :: rest => some ([], rest)
  | fuel + 1, '\\' :: 'u' :: rest => do
    let (c, rest) ← unicodeEscape? rest
    let (text, rest) ← scanString fuel rest
    some (c :: text, rest)
  | fuel + 1, '\\' :: escape :: rest => do
    let c ← simpleEscape? escape
    let (text, rest) ← scanString fuel rest
    some (c :: text, rest)
  | fuel + 1, c :: rest =>
    if c = '\\' ∨ c.toNat < 0x20 then none
    else do
      let (text, rest) ← scanString fuel rest
      some (c :: text, rest)

/-- The token at the head of a text that does not start with a blank.  The
measure exceeds the length of the text. -/
def scanOne (fuel : Nat) (text : List Char) : Option (JsonToken × List Char) :=
  match text with
  | '[' :: rest => some (.openArray, rest)
  | ']' :: rest => some (.closeArray, rest)
  | '{' :: rest => some (.openObject, rest)
  | '}' :: rest => some (.closeObject, rest)
  | ',' :: rest => some (.comma, rest)
  | ':' :: rest => some (.colon, rest)
  | 'n' :: 'u' :: 'l' :: 'l' :: rest => some (.null, rest)
  | 't' :: 'r' :: 'u' :: 'e' :: rest => some (.bool true, rest)
  | 'f' :: 'a' :: 'l' :: 's' :: 'e' :: rest => some (.bool false, rest)
  | '"' :: rest =>
    (scanString fuel rest).map fun (text, rest) =>
      (.string (String.ofList text), rest)
  | _ =>
    let (run, rest) := text.span isNumberChar
    (JsonNumber.ofText? run).map fun value => (.number value, rest)

/-- All tokens of a text.  Each one takes at least one character, so the length
of the text bounds their number. -/
def scanAll : Nat → List Char → Option (List JsonToken)
  | 0, _ => none
  | fuel + 1, text =>
    match text.dropWhile isSpace with
    | [] => some []
    | c :: rest => do
      let (token, rest) ← scanOne (fuel + 1) (c :: rest)
      let tokens ← scanAll fuel rest
      some (token :: tokens)

def scan? (text : String) : Option (List JsonToken) :=
  let text := text.toList
  scanAll (text.length + 1) text

/-- Two lower-case hexadecimal digits. -/
def hexPair (n : Nat) : List Char :=
  [Nat.digitChar (n / 16), Nat.digitChar (n % 16)]

/-- Quotes, backslashes and control characters are escaped, nothing else. -/
def escapeChar (c : Char) : List Char :=
  if c = '"' then ['\\', '"']
  else if c = '\\' then ['\\', '\\']
  else if c = '\n' then ['\\', 'n']
  else if c = '\r' then ['\\', 'r']
  else if c = '\t' then ['\\', 't']
  else if c.toNat = 8 then ['\\', 'b']
  else if c.toNat = 12 then ['\\', 'f']
  else if c.toNat < 0x20 then ['\\', 'u', '0', '0'] ++ hexPair c.toNat
  else [c]

def renderString (text : String) : List Char :=
  '"' :: (text.toList.flatMap escapeChar ++ ['"'])

def render : JsonToken → List Char
  | .openArray => ['[']
  | .closeArray => [']']
  | .openObject => ['{']
  | .closeObject => ['}']
  | .comma => [',']
  | .colon => [':']
  | .null => ['n', 'u', 'l', 'l']
  | .bool true => ['t', 'r', 'u', 'e']
  | .bool false => ['f', 'a', 'l', 's', 'e']
  | .number value => value.text.toList
  | .string value => renderString value

end JsonToken

end Durable
