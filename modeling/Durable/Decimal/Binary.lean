/-!
# Doubles as exact binary fractions

A finite double is `± significand · 2 ^ exponent`.  All decimal reading and
printing goes through this form and natural number arithmetic.
-/

namespace Durable

namespace Decimal

structure Binary where
  negative : Bool
  significand : Nat
  exponent : Int
  deriving DecidableEq, Repr

/-- The exact value of a finite double; none for infinities and NaN. -/
def Binary.ofFloat? (x : Float) : Option Binary :=
  let bits : Nat := x.toBits.toNat
  let negative : Bool := bits / Nat.pow 2 63 % 2 == 1
  let biased : Nat := bits / Nat.pow 2 52 % Nat.pow 2 11
  let fraction : Nat := bits % Nat.pow 2 52
  if biased = Nat.pow 2 11 - 1 then none
  else if biased = 0 then some ⟨negative, fraction, -1074⟩
  else some ⟨negative, Nat.pow 2 52 + fraction, (biased : Int) - 1075⟩

/-- The gap below a power of two is half the gap above it, except at the
bottom of the range. -/
def Binary.narrowBelow (value : Binary) : Bool :=
  value.significand == Nat.pow 2 52 && decide (-1074 < value.exponent)

/-- The quotient rounded to the nearest integer, a half to the even neighbour. -/
def roundHalfEven (numerator denominator : Nat) : Nat :=
  let quotient := numerator / denominator
  let remainder := numerator % denominator
  if 2 * remainder < denominator then quotient
  else if denominator < 2 * remainder then quotient + 1
  else if quotient % 2 = 0 then quotient else quotient + 1

/-- The magnitude times `factor`, rounded to the nearest integer. -/
def Binary.scaledRound (value : Binary) (factor : Nat) : Nat :=
  match value.exponent with
  | .ofNat shift => value.significand * Nat.pow 2 shift * factor
  | .negSucc shift => roundHalfEven (value.significand * factor) (Nat.pow 2 (shift + 1))

end Decimal

end Durable
