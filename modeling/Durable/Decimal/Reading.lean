/-!
# Reading decimals into doubles

A decimal text is first reduced to a significand of at most 64 bits and a power
of ten; digits that no longer fit the significand only move the power.  The
double is the rounded significand, multiplied or divided by a rounded power.
-/

namespace Durable

namespace Decimal

def digitValue (c : Char) : Nat :=
  c.toNat - '0'.toNat

def significandBound : Nat := Nat.pow 2 64

/-- Take digits into a significand while it stays below the bound, and return
the digits that were left. -/
def takeDigits (significand : Nat) : List Char → Nat × List Char
  | [] => (significand, [])
  | c :: rest =>
    let next := significand * 10 + digitValue c
    if next < significandBound then takeDigits next rest
    else (significand, c :: rest)

/-- A rounded power of ten. -/
def powerOfTen (n : Nat) : Float :=
  Float.ofScientific 1 false n

/-- Divide by a power of ten, in steps of the largest finite one. -/
def divideByPower (x : Float) (n : Nat) : Float :=
  if n ≤ 308 then x / powerOfTen n
  else if x == 0.0 then x
  else divideByPower (x / powerOfTen 308) (n - 308)
termination_by n

/-- `significand · 10 ^ exponent` as a double; none when it is too large. -/
def scale? (significand : Nat) (exponent : Int) : Option Float :=
  let x := Float.ofNat significand
  match exponent with
  | .negSucc n => some (divideByPower x (n + 1))
  | .ofNat n =>
    if n ≤ 308 then
      let y := x * powerOfTen n
      if y.isInf then none else some y
    else if x == 0.0 then some x
    else none

end Decimal

end Durable
