/-!
# Integers as text

The spellings of integers that the other modules print: plain decimals, decimals that always carry a
sign, and lower-case hexadecimal padded to a width.

Plain decimals are offsets, indices, slots and labels. An integer that may be negative is written
with a minus sign where it is one; the jumps of a switch are relative, and carry a sign in any case.
Hexadecimal digits occur only in escapes and in the message about an unknown opcode.
-/

namespace JvmSource

namespace Text

/-- The decimal digits of a natural number, without leading zeros; zero is the one digit `0`. -/
def decimal (n : Nat) : String :=
  String.ofList (Nat.toDigits 10 n)

/-- An integer in decimal, with a minus sign when it is negative. There is no bound on the integer,
so the least value of a machine word needs no case of its own. -/
def integer (n : Int) : String :=
  if n < 0 then "-" ++ decimal n.natAbs else decimal n.natAbs

/-- An integer in decimal that always carries its sign; zero counts as positive. -/
def signedInteger (n : Int) : String :=
  if n < 0 then "-" ++ decimal n.natAbs else "+" ++ decimal n.natAbs

/-- A character list extended on the left with `fill` to at least `width` characters; a longer one
stays as it is. -/
def padLeft (fill : Char) (width : Nat) (cs : List Char) : List Char :=
  List.replicate (width - cs.length) fill ++ cs

/-- The hexadecimal digits of `n`, lower case, in at least `width` places. -/
def hexDigits (width n : Nat) : List Char :=
  padLeft '0' width (Nat.toDigits 16 n)

end Text

end JvmSource
