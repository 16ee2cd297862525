import Durable.Decimal.Binary

/-!
# Shortest decimals

The fewest decimal digits that single a double out among all doubles, and of
several such decimals the one nearest to it.
-/

namespace Durable

namespace Decimal

/-- The decimal `digits · 10 ^ exponent`. -/
structure Scaled where
  digits : Nat
  exponent : Int
  deriving DecidableEq, Repr

/-- A fraction of natural numbers. -/
structure Ratio where
  numerator : Nat
  denominator : Nat

namespace Ratio

/-- Multiply by a power of ten. -/
def timesTen (ratio : Ratio) : Int → Ratio
  | .ofNat n => ⟨ratio.numerator * Nat.pow 10 n, ratio.denominator⟩
  | .negSucc n => ⟨ratio.numerator, ratio.denominator * Nat.pow 10 (n + 1)⟩

def floor (ratio : Ratio) : Nat :=
  ratio.numerator / ratio.denominator

/-- How many zeros follow the decimal point of a positive ratio below one. -/
def leadingZeros (ratio : Ratio) : Nat → Nat
  | 0 => 0
  | fuel + 1 =>
    if ratio.denominator ≤ ratio.numerator * 10 then 0
    else leadingZeros ⟨ratio.numerator * 10, ratio.denominator⟩ fuel + 1

/-- The power of ten just above a positive ratio: `10 ^ (p - 1) ≤ ratio < 10 ^ p`. -/
def magnitude (ratio : Ratio) : Int :=
  if ratio.denominator ≤ ratio.numerator then
    ((Nat.toDigits 10 ratio.floor).length : Int)
  else -(ratio.leadingZeros 400 : Int)

end Ratio

/-- The reals that round to a double, and the double itself, all in quarters of
the unit of its last place. -/
structure Interval where
  lower : Nat
  value : Nat
  upper : Nat
  closed : Bool

namespace Interval

def ofBinary (binary : Binary) : Interval :=
  let value := 4 * binary.significand
  { lower := value - (if binary.narrowBelow then 1 else 2)
    value := value
    upper := value + 2
    closed := binary.significand % 2 == 0 }

/-- Does a number of quarters, given as a ratio, round to the double? -/
def contains (interval : Interval) (point : Ratio) : Bool :=
  if interval.closed then
    interval.lower * point.denominator ≤ point.numerator
      && point.numerator ≤ interval.upper * point.denominator
  else
    interval.lower * point.denominator < point.numerator
      && point.numerator < interval.upper * point.denominator

end Interval

/-- Quarters of the last place's unit, as a ratio of ones. -/
def quarters (exponent : Int) (count : Nat) : Ratio :=
  match exponent - 2 with
  | .ofNat shift => ⟨count * Nat.pow 2 shift, 1⟩
  | .negSucc shift => ⟨count, Nat.pow 2 (shift + 1)⟩

/-- Ones as a ratio of quarters of the last place's unit. -/
def inQuarters (exponent : Int) (point : Ratio) : Ratio :=
  match exponent - 2 with
  | .ofNat shift => ⟨point.numerator, point.denominator * Nat.pow 2 shift⟩
  | .negSucc shift => ⟨point.numerator * Nat.pow 2 (shift + 1), point.denominator⟩

/-- The neighbour of the value on the decimal grid of step `10 ^ step` that
rounds to the double, the nearer one if both do. -/
def onGrid (binary : Binary) (step : Int) : Option Nat :=
  let interval := Interval.ofBinary binary
  let below := ((quarters binary.exponent interval.value).timesTen (-step)).floor
  let point (count : Nat) := inQuarters binary.exponent ((⟨count, 1⟩ : Ratio).timesTen step)
  let hit (count : Nat) := interval.contains (point count)
  let lowPoint := point below
  let highPoint := point (below + 1)
  let lowGap := interval.value * lowPoint.denominator - lowPoint.numerator
  let highGap := highPoint.numerator - interval.value * highPoint.denominator
  match hit below, hit (below + 1) with
  | true, true =>
    let low := lowGap * highPoint.denominator
    let high := highGap * lowPoint.denominator
    if low < high then some below
    else if high < low then some (below + 1)
    else some (if below % 2 = 0 then below else below + 1)
  | true, false => some below
  | false, true => some (below + 1)
  | false, false => none

/-- Drop trailing zeros of the digits. -/
def normalise (digits : Nat) (exponent : Int) : Nat → Scaled
  | 0 => ⟨digits, exponent⟩
  | fuel + 1 =>
    if digits % 10 = 0 then normalise (digits / 10) (exponent + 1) fuel
    else ⟨digits, exponent⟩

/-- Try grids with `count`, `count + 1`, … digits; seventeen always suffice. -/
def searchGrids (binary : Binary) (magnitude : Int) (count : Nat) : Nat → Scaled
  | 0 => ⟨0, 0⟩
  | fuel + 1 =>
    let step := magnitude - count
    match onGrid binary step with
    | some digits => if digits = 0 then searchGrids binary magnitude (count + 1) fuel
        else normalise digits step 20
    | none => searchGrids binary magnitude (count + 1) fuel

/-- The shortest decimal of a magnitude; zero has the single digit `0`. -/
def shortest (binary : Binary) : Scaled :=
  if binary.significand = 0 then ⟨0, 0⟩
  else
    let magnitude := (quarters binary.exponent (4 * binary.significand)).magnitude
    searchGrids binary magnitude 1 18

end Decimal

end Durable
