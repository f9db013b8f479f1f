/-!
# The shortest decimal of a binary number

A finite double is `significand * 2 ^ exponent`, and stands for an interval of rationals: all that
are nearer to it than to its neighbours, the ends included exactly when the significand is even.
`Binary.shortest` finds a decimal in that interval with the fewest digits: on the grids of 1, 2, …
digits it tests the two neighbours of the number; the first grid with a hit wins, of two hits the
nearer one, and of two equally near the larger.

All of it is exact arithmetic on natural numbers. An interval is kept as three numerators over one
denominator (`Span`), so that its ends, which lie halfway between doubles, are numbers of the same
kind as the double itself. The lower end is nearer where the next lower double is only half as far
away (`Binary.isBinadeStart`). Powers of two and ten with a negative exponent go to the other side
of a comparison.

Seventeen digits always suffice for a double. If none of the grids up to that many digits has a hit,
the decimal that equals the number is taken, so the search always gives something.
-/

namespace JvmSource

namespace Decimal

/-- A power of two, with a natural number for its exponent. -/
def twoTo (n : Nat) : Nat :=
  Nat.pow 2 n

/-- A power of ten, with a natural number for its exponent. -/
def tenTo (n : Nat) : Nat :=
  Nat.pow 10 n

/-- The significand and the exponent of a finite number that is not negative. The sign is kept
apart. -/
structure Binary where
  significand : Nat
  exponent : Int
  deriving DecidableEq

namespace Binary

/-- The least exponent of a double. -/
def leastExponent : Int := -1074

/-- The same number with the significand of a double, for a number that has one. A significand of a
double has 53 binary digits unless the exponent is the least one. -/
def widen (x : Binary) : Binary :=
  if x.significand = 0 then x
  else
    let shift := 52 - x.significand.log2
    { significand := x.significand * twoTo shift, exponent := x.exponent - shift }

/-- Whether the next lower double is only half as far away as the next higher one. -/
def isBinadeStart (x : Binary) : Bool :=
  x.significand == twoTo 52 && decide (leastExponent < x.exponent)

end Binary

/-- What the bits of a floating-point number stand for. All bits with the greatest exponent and a
fraction are the one `nan`. -/
inductive Reading where
  | nan
  | infinite (negative : Bool)
  | finite (negative : Bool) (value : Binary)
  deriving DecidableEq

namespace Reading

/-- Reads a number whose exponent and fraction fields are `exponentBits` and `fractionBits` wide. An
exponent field of zero stands for the least exponent, without the leading digit that is not
stored. -/
def ofBits (exponentBits fractionBits bits : Nat) : Reading :=
  let fraction := bits % twoTo fractionBits
  let exponent := bits / twoTo fractionBits % twoTo exponentBits
  let negative := bits / twoTo (fractionBits + exponentBits) % 2 == 1
  let least : Int := 2 - twoTo (exponentBits - 1) - fractionBits
  if exponent = twoTo exponentBits - 1 then
    if fraction = 0 then infinite negative else nan
  else if exponent = 0 then finite negative { significand := fraction, exponent := least }
  else finite negative
    { significand := twoTo fractionBits + fraction, exponent := least + (exponent - 1) }

/-- Reads the bits of a double. -/
def ofDouble (bits : UInt64) : Reading :=
  ofBits 11 52 bits.toNat

/-- Reads the bits of a single-precision number, as the double of the same value. -/
def ofSingle (bits : UInt32) : Reading :=
  match ofBits 8 23 bits.toNat with
  | finite negative value => finite negative value.widen
  | reading => reading

end Reading

/-- A positive rational between the ends of the interval that is read as it; all three are
numerators over one denominator. -/
structure Span where
  low : Nat
  value : Nat
  high : Nat
  denominator : Nat
  /-- Whether the ends belong to the interval. -/
  closed : Bool
  deriving DecidableEq

/-- The interval of rationals that are read as the double `x`. -/
def Binary.span (x : Binary) : Span :=
  let scale := twoTo x.exponent.toNat
  { low := (4 * x.significand - if x.isBinadeStart then 1 else 2) * scale
    value := 4 * x.significand * scale
    high := (4 * x.significand + 2) * scale
    denominator := 4 * twoTo (-x.exponent).toNat
    closed := x.significand % 2 == 0 }

namespace Span

/-- Whether `digits * 10 ^ exponent` lies in the interval; its ends count if it is closed. -/
def contains (s : Span) (digits : Nat) (exponent : Int) : Bool :=
  let candidate := digits * tenTo exponent.toNat * s.denominator
  let unit := tenTo (-exponent).toNat
  if s.closed then decide (s.low * unit ≤ candidate) && decide (candidate ≤ s.high * unit)
  else decide (s.low * unit < candidate) && decide (candidate < s.high * unit)

/-- The least `k` with the value below `10 ^ k`, found from the numbers of decimal digits. -/
def magnitude (s : Span) : Int :=
  let k : Int := (Nat.toDigits 10 s.value).length - (Nat.toDigits 10 s.denominator).length
  if s.value * tenTo (-k).toNat < s.denominator * tenTo k.toNat then k else k + 1

/-- The number of whole units of `10 ^ exponent` in the value. -/
def floor (s : Span) (exponent : Int) : Nat :=
  s.value * tenTo (-exponent).toNat / (s.denominator * tenTo exponent.toNat)

/-- Whether the value is nearer to `digits * 10 ^ exponent` than to the grid point above it. -/
def isNearerBelow (s : Span) (digits : Nat) (exponent : Int) : Bool :=
  decide (2 * s.value * tenTo (-exponent).toNat
    < (2 * digits + 1) * tenTo exponent.toNat * s.denominator)

/-- The grid point of `10 ^ exponent` that reads back, if one of the two neighbours does. Of two
that do, it is the nearer one, and the larger one if neither is nearer. -/
def onGrid? (s : Span) (exponent : Int) : Option Nat :=
  let below := s.floor exponent
  match s.contains below exponent, s.contains (below + 1) exponent with
  | true, true => if s.isNearerBelow below exponent then some below else some (below + 1)
  | true, false => some below
  | false, true => some (below + 1)
  | false, false => none

end Span

/-- The digits and the exponent of the decimal that equals `x`. -/
def Binary.exact (x : Binary) : Nat × Int :=
  if x.exponent < 0 then (x.significand * Nat.pow 5 (-x.exponent).toNat, x.exponent)
  else (x.significand * twoTo x.exponent.toNat, 0)

/-- The digits and the exponent of the shortest decimal that is read as `x`. The grids are tried
from one digit up. -/
def Binary.shortest (x : Binary) : Nat × Int :=
  let s := x.span
  let k := s.magnitude
  let grid (n : Nat) : Option (Nat × Int) :=
    let exponent := k - (n + 1)
    (s.onGrid? exponent).map fun digits => (digits, exponent)
  ((List.range 17).findSome? grid).getD x.exact

end Decimal

end JvmSource
