import Durable.Decimal.Layout
import Durable.Decimal.Reading
import Durable.Json.Value

/-!
# JSON numbers as text

A text without fraction and exponent whose value has 64 bits is an integer;
every other number, and a zero with a minus sign, is a double.
-/

namespace Durable

namespace JsonNumber

/-- The parts of a number text: `-` `whole` `.` `fraction` `e` `power`. -/
structure Parts where
  negative : Bool
  whole : List Char
  fraction : Option (List Char)
  power : Option (Bool × List Char)
  deriving DecidableEq, Repr

def isDigit (c : Char) : Bool :=
  '0' ≤ c && c ≤ '9'

/-- A run of digits at the head of a text, at least one. -/
def spanDigits? (text : List Char) : Option (List Char × List Char) :=
  match text.span isDigit with
  | ([], _) => none
  | (digits, rest) => some (digits, rest)

def powerPart? (text : List Char) : Option (Option (Bool × List Char) × List Char) :=
  match text with
  | 'e' :: rest | 'E' :: rest =>
    let (negative, digits) := match rest with
      | '+' :: digits => (false, digits)
      | '-' :: digits => (true, digits)
      | digits => (false, digits)
    (spanDigits? digits).map fun (run, left) => (some (negative, run), left)
  | _ => some (none, text)

def fractionPart? (text : List Char) : Option (Option (List Char) × List Char) :=
  match text with
  | '.' :: rest => (spanDigits? rest).map fun (run, left) => (some run, left)
  | _ => some (none, text)

/-- A leading zero is the only digit of its part. -/
def wholePart? (text : List Char) : Option (List Char × List Char) :=
  match text with
  | '0' :: rest =>
    match rest with
    | [] => some (['0'], [])
    | c :: _ => if isDigit c then none else some (['0'], rest)
  | _ => spanDigits? text

def parts? (text : List Char) : Option Parts := do
  let (negative, text) := match text with
    | '-' :: rest => (true, rest)
    | _ => (false, text)
  let (whole, text) ← wholePart? text
  let (fraction, text) ← fractionPart? text
  let (power, text) ← powerPart? text
  if text.isEmpty then some ⟨negative, whole, fraction, power⟩ else none

def digitsValue (digits : List Char) : Nat :=
  digits.foldl (fun value c => value * 10 + Decimal.digitValue c) 0

def signed (negative : Bool) (x : Float) : Float :=
  if negative then -x else x

/-- The greatest power that is added up; a greater one overflows at once. -/
def powerBound : Nat := Nat.pow 2 31

def ofDecimal? (negative : Bool) (significand : Nat) (exponent : Int)
    (power : Option (Bool × List Char)) : Option JsonNumber :=
  let read (exponent : Int) :=
    (Decimal.scale? significand exponent).map fun x => double (signed negative x)
  match power with
  | none => read exponent
  | some (downward, digits) =>
    let size := digitsValue digits
    if powerBound ≤ size then
      if significand = 0 ∨ downward then some (double (signed negative 0.0)) else none
    else read (if downward then exponent - size else exponent + size)

def ofParts? (parts : Parts) : Option JsonNumber :=
  let (significand, left) := Decimal.takeDigits 0 parts.whole
  match parts.fraction, parts.power, left with
  | none, none, [] =>
    if !parts.negative then some (integer significand)
    else if significand = 0 ∨ Nat.pow 2 63 < significand then
      some (double (-(Float.ofNat significand)))
    else some (integer (-(significand : Int)))
  | none, power, left => ofDecimal? parts.negative significand left.length power
  | some fraction, power, left =>
    let (significand, unread) := Decimal.takeDigits significand fraction
    let taken : Int := (fraction.length : Int) - unread.length
    ofDecimal? parts.negative significand ((left.length : Int) - taken) power

def ofText? (text : List Char) : Option JsonNumber :=
  (parts? text).bind ofParts?

/-- Doubles below `10 ^ 16` and from `10 ^ -5` on are written positionally. -/
def window : Decimal.Window := ⟨-5, 16⟩

/-- A number that is not finite has no text of its own and is written as null. -/
def text : JsonNumber → String
  | .integer value => toString value
  | .double value =>
    match Decimal.Binary.ofFloat? value with
    | some binary => Decimal.render window binary
    | none => "null"

end JsonNumber

end Durable
