import JvmSource.Text.Number

/-!
# String literals

A string constant is written between double quotes. Inside, the quote, the backslash, line feed,
carriage return and tab have escapes of one letter; every other character below the space is written
as a backslash, the letter `u` and four hexadecimal digits; all else stands for itself.

Two things depend on this. A literal holds no line feed, so the text of an instruction that pushes
it stays on one line; and the quote that ends a literal is the first one that is not part of an
escape, so literals can be told apart from what follows them. Characters are Unicode scalar values:
a lone surrogate cannot occur in a constant that has been read.
-/

namespace JvmSource

namespace Text

namespace Quoted

/-- How one character is written inside a literal. The characters with a letter of their own come
first; the others below the space are written by their code points. -/
def escape (c : Char) : List Char :=
  if c = '"' then ['\\', '"']
  else if c = '\\' then ['\\', '\\']
  else if c = '\n' then ['\\', 'n']
  else if c = '\r' then ['\\', 'r']
  else if c = '\t' then ['\\', 't']
  else if c.toNat < 0x20 then '\\' :: 'u' :: hexDigits 4 c.toNat
  else [c]

/-- The text between the quotes of a literal. Each character is written on its own, whatever stands
beside it. -/
def escapeAll (cs : List Char) : List Char :=
  cs.flatMap escape

@[simp] theorem escapeAll_nil : escapeAll [] = [] := rfl

@[simp] theorem escapeAll_cons (c : Char) (cs : List Char) :
    escapeAll (c :: cs) = escape c ++ escapeAll cs := rfl

end Quoted

/-- The string literal that stands for `s`: the escaped characters between two double quotes. -/
def quote (s : String) : String :=
  String.ofList ('"' :: (Quoted.escapeAll s.toList ++ ['"']))

end Text

end JvmSource
