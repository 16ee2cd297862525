import Durable.Decimal.Shortest

/-!
# Decimal layouts

How a finite double is written from its shortest digits: positionally inside a
window of magnitudes, and with an exponent outside of it.
-/

namespace Durable

namespace Decimal

def digitText (n : Nat) : String :=
  String.ofList (Nat.toDigits 10 n)

def zeros (n : Nat) : String :=
  String.ofList (List.replicate n '0')

/-- Digits with a decimal point after the first `whole` of them, padded with
zeros on the side that needs them. -/
def placePoint (digits : String) (whole : Int) : String :=
  let count : Int := digits.length
  if whole ≤ 0 then "0." ++ zeros (-whole).toNat ++ digits
  else if whole < count then
    (String.ofList (digits.toList.take whole.toNat)) ++ "."
      ++ (String.ofList (digits.toList.drop whole.toNat))
  else digits ++ zeros (whole - count).toNat ++ ".0"

/-- An exponent always shows its sign. -/
def signedExponent (exponent : Int) : String :=
  if exponent < 0 then toString exponent else "+" ++ toString exponent

/-- One digit before the point, the others after it, and a decimal exponent. -/
def scientific (digits : String) (whole : Int) : String :=
  let mantissa := match digits.toList with
    | [] => ""
    | [d] => String.singleton d
    | d :: rest => String.singleton d ++ "." ++ String.ofList rest
  mantissa ++ "e" ++ signedExponent (whole - 1)

/-- A window of magnitudes that are written without an exponent: those with
more than `least` and at most `greatest` digits before the point. -/
structure Window where
  least : Int
  greatest : Int

def sign (negative : Bool) : String :=
  if negative then "-" else ""

/-- Positional inside the window, with an exponent outside of it. -/
def render (window : Window) (binary : Binary) : String :=
  let decimal := shortest binary
  let digits := digitText decimal.digits
  if decimal.digits = 0 then sign binary.negative ++ "0.0"
  else
    let whole : Int := digits.length + decimal.exponent
    sign binary.negative ++
      (if window.least < whole ∧ whole ≤ window.greatest then placePoint digits whole
       else scientific digits whole)

end Decimal

end Durable
