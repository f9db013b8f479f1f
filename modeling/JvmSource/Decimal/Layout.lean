import JvmSource.Decimal.Shortest
import JvmSource.Text.Number

/-!
# Decimals as text

A decimal is written positionally while its leading digit is not too far from the point, and with an
exponent beyond that. Positional text always has a digit after the point.

The two bounds are parameters (`Layout`), because they belong to the language that the text is
written in and not to the number. Zeros at the end of the digits are dropped before anything else,
so the text depends only on the number and not on how its digits were found. Zero itself is written
with one digit on each side of the point. What is not finite has a name instead of digits.
-/

namespace JvmSource

namespace Decimal

/-- The range of exponents of the leading digit that are written positionally, both ends
included. -/
structure Layout where
  least : Int
  greatest : Int
  deriving DecidableEq

namespace Layout

/-- The digits `0.digits * 10 ^ point`, written without an exponent: zeros fill the gap between the
digits and the point on either side. -/
def positional (digits : List Char) (point : Int) : List Char :=
  if point ≤ 0 then '0' :: '.' :: (List.replicate (-point).toNat '0' ++ digits)
  else if digits.length ≤ point.toNat then
    digits ++ List.replicate (point.toNat - digits.length) '0' ++ ['.', '0']
  else digits.take point.toNat ++ '.' :: digits.drop point.toNat

/-- The digits `0.digits * 10 ^ point`, written with the leading digit before the point and an
exponent without a plus sign; a single digit has no point. -/
def scientific (digits : List Char) (point : Int) : List Char :=
  let fraction := digits.drop 1
  digits.take 1 ++ (if fraction = [] then [] else '.' :: fraction)
    ++ 'e' :: (Text.integer (point - 1)).toList

/-- The text of `digits * 10 ^ exponent`; zeros at the end of the digits are not written. -/
def write (layout : Layout) (digits : Nat) (exponent : Int) : List Char :=
  if digits = 0 then ['0', '.', '0']
  else
    let all := Nat.toDigits 10 digits
    let significant := (all.reverse.dropWhile (· = '0')).reverse
    let point := all.length + exponent
    if layout.least ≤ point - 1 ∧ point - 1 ≤ layout.greatest then positional significant point
    else scientific significant point

/-- The text of a floating-point number by its shortest decimal. The sign is written in front, also
that of a zero. -/
def writeReading (layout : Layout) : Reading → String
  | .nan => "NaN"
  | .infinite negative => if negative then "-Infinity" else "Infinity"
  | .finite negative value =>
    let (digits, exponent) := if value.significand = 0 then (0, 0) else value.shortest
    let text := layout.write digits exponent
    String.ofList (if negative then '-' :: text else text)

end Layout

end Decimal

end JvmSource
