/-!
# Replacement and repetition

Replacing the first occurrence of a phrase, replacing characters, and repeating a text.

The first replacement knows nothing of words or quotes: it takes the first place at which the
characters of the phrase stand behind each other, wherever that is in the text. What follows from
this for the jumps that are rewritten in the lines of a block is said where they are rewritten.
-/

namespace JvmSource

namespace Text

/-- Replaces the first place where `phrase` occurs, and nothing when it occurs nowhere. The empty
phrase occurs at the very front. -/
def replaceFirstIn (phrase replacement : List Char) : List Char → List Char
  | [] => if phrase = [] then replacement else []
  | c :: cs =>
    if phrase.isPrefixOf (c :: cs) then replacement ++ (c :: cs).drop phrase.length
    else c :: replaceFirstIn phrase replacement cs

/-- `text` with the first occurrence of `phrase` replaced. -/
def replaceFirst (text phrase replacement : String) : String :=
  String.ofList (replaceFirstIn phrase.toList replacement.toList text.toList)

/-- `text` with every character that satisfies `p` replaced by a phrase, which may have any number
of characters. -/
def replaceChars (p : Char → Bool) (replacement text : String) : String :=
  String.ofList (text.toList.flatMap fun c => if p c then replacement.toList else [c])

/-- Whether `text` holds the character `c`. -/
def holds (c : Char) (text : String) : Bool :=
  text.toList.contains c

/-- A text repeated `n` times. -/
def repeated (n : Nat) (text : String) : String :=
  String.ofList (List.replicate n text.toList).flatten

end Text

end JvmSource
