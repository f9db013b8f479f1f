/-!
# Lines

Cutting a text into lines. A line ends with a line feed, or with a carriage return and a line feed;
the last line may have no end.

A carriage return alone ends nothing: it belongs to the line in which it stands. So the carriage
return in front of a line feed is dropped together with it, while one at the end of an unfinished
last line stays. An empty text has no lines, and an end at the very end of a text does not start
another line.
-/

namespace JvmSource

namespace Text

/-- Drops one carriage return at the end of a line; a line may have more of them, and keeps the
others. -/
def dropReturn (line : List Char) : List Char :=
  if line.getLast? = some '\r' then line.dropLast else line

/-- The lines of a text, where `current` holds the characters read of the first line, the last one
first. A line feed ends a line and takes a carriage return before it along; an unfinished last line
counts when it is not empty, and keeps its carriage return. -/
def linesFrom (current : List Char) : List Char → List (List Char)
  | [] => if current = [] then [] else [current.reverse]
  | c :: cs =>
    if c = '\n' then dropReturn current.reverse :: linesFrom [] cs
    else linesFrom (c :: current) cs

/-- The lines of a text, without their ends. Whether the last one had an end makes no difference. -/
def lines (text : String) : List String :=
  (linesFrom [] text.toList).map String.ofList

end Text

end JvmSource
