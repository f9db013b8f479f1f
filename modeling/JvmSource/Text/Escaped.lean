import JvmSource.Text.Hidden
import JvmSource.Text.Number

/-!
# Text shown in messages

A text that a message cites is put between double quotes with everything a terminal would not show
made visible: the quote, the backslash and the common controls by name, other hidden characters by
their code point in braces. An apostrophe needs no escape.

Messages cite descriptors only, and only those that cannot be read. Such a text can hold anything,
so the table of hidden characters (`Text.isHidden`) covers all of Unicode. The escapes are not those
of string literals (`Text.quote`): there the code point has four digits and no braces, and only
characters below the space are written by it.
-/

namespace JvmSource

namespace Text

namespace Escaped

/-- How one character of a cited text is shown. The cases are tried in this order, so zero and the
controls with a name are not written by their code points. -/
def escape (c : Char) : List Char :=
  if c = '"' then ['\\', '"']
  else if c = '\\' then ['\\', '\\']
  else if c = '\n' then ['\\', 'n']
  else if c = '\r' then ['\\', 'r']
  else if c = '\t' then ['\\', 't']
  else if c.toNat = 0 then ['\\', '0']
  else if isHidden c then '\\' :: 'u' :: '\x7b' :: (hexDigits 1 c.toNat ++ ['\x7d'])
  else [c]

end Escaped

/-- A text as a message cites it, between double quotes. -/
def cited (s : String) : String :=
  String.ofList ('"' :: (s.toList.flatMap Escaped.escape ++ ['"']))

end Text

end JvmSource
