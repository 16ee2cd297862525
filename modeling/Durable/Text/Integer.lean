/-!
# Integer texts

Reading an optional sign and decimal digits into a bounded range.  The text is
read from the left, and the first character that is no digit or makes the
value leave the range decides the error.
-/

namespace Durable

namespace Text

/-- The integers from `least` to `greatest`; a minus sign is read only when
the range reaches below zero. -/
structure IntegerRange where
  least : Int
  greatest : Int
  deriving DecidableEq, Repr

namespace IntegerRange

def signed (bits : Nat) : IntegerRange :=
  ⟨-(Nat.pow 2 (bits - 1) : Int), Nat.pow 2 (bits - 1) - 1⟩

def unsigned (bits : Nat) : IntegerRange :=
  ⟨0, Nat.pow 2 bits - 1⟩

end IntegerRange

inductive IntegerError where
  | empty
  | invalidDigit
  | tooLarge
  | tooSmall
  deriving DecidableEq, Repr

namespace IntegerError

def message : IntegerError → String
  | .empty => "cannot parse integer from empty string"
  | .invalidDigit => "invalid digit found in string"
  | .tooLarge => "number too large to fit in target type"
  | .tooSmall => "number too small to fit in target type"

end IntegerError

def digit? (c : Char) : Option Nat :=
  if '0' ≤ c ∧ c ≤ '9' then some (c.toNat - '0'.toNat) else none

/-- Continue a value with further digits, away from zero. -/
def readDigits (range : IntegerRange) (negative : Bool) (value : Int) :
    List Char → Except IntegerError Int
  | [] => .ok value
  | c :: rest =>
    match digit? c with
    | none => .error .invalidDigit
    | some digit =>
      if negative then
        let next := value * 10 - digit
        if next < range.least then .error .tooSmall
        else readDigits range negative next rest
      else
        let next := value * 10 + digit
        if range.greatest < next then .error .tooLarge
        else readDigits range negative next rest

def readInteger (range : IntegerRange) (text : String) : Except IntegerError Int :=
  match text.toList with
  | [] => .error .empty
  | ['+'] | ['-'] => .error .invalidDigit
  | '+' :: digits => readDigits range false 0 digits
  | '-' :: digits =>
    if range.least < 0 then readDigits range true 0 digits
    else .error .invalidDigit
  | digits => readDigits range false 0 digits

end Text

end Durable
