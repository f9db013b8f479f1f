import JvmSource.Eval.Evaluate
import JvmSource.Structure.Scope

/-!
# Method bodies

The items of a method as indented text between braces. Labelled scopes and loops open and close on
rows of their own and indent what is in them; a handler begins with a comment that names what it
catches. The depth of a row is not stored with it: it follows from the rows before.

In front of each item stand the closings of the labelled scopes that end there and the openings of
those that begin there, the outermost first. The item itself gives the lines of a block, the opening
or the closing of a loop, or the `break` that leaves a loop behind its branch back. So the rows of a
method (`Outline.rows`) are those of its items in order, with rows that only open and close scopes
between them.

Rows become text last. Each stands on a line of its own behind as many indents as its depth says,
and a row that consists of several lines, such as that of a switch, has all of them at the same
depth.
-/

namespace JvmSource

/-- A row of a body. What a scope is for shows only in the text that opens it. -/
inductive Row where
  | line (text : String)
  /-- Opens a scope: the rows behind it stand one level deeper. -/
  | enter (text : String)
  /-- Closes a scope, one level further out than the rows before it. -/
  | leave
  deriving DecidableEq

namespace Row

/-- The rows of the scopes that close before item `k`: one for each of them. -/
def closing (scopes : List Scope) (k : Nat) : List Row :=
  List.replicate (scopes.countP (·.closeAt == k)) .leave

/-- The scopes that open before item `k`, from the outside in: those that end later come first. -/
def scopesOpening (scopes : List Scope) (k : Nat) : List Scope :=
  (scopes.filter (·.openAt == k)).mergeSort fun a b => decide (b.key ≤ a.key)

/-- The text of the row that opens a scope; loops are opened by their item. -/
def openingText? (scope : Scope) : Option String :=
  match scope.kind with
  | .label label => some (label.text ++ ": \x7b")
  | .loop .. => none

/-- The rows of the scopes that open before item `k`, one for each labelled scope. -/
def opening (scopes : List Scope) (k : Nat) : List Row :=
  ((scopesOpening scopes k).filterMap openingText?).map .enter

/-- The texts of some rows with their depths, the first of which stands at `depth`. The row that
closes a scope stands at the depth of the one that opened it. -/
def layout : (depth : Nat) → List Row → List (Nat × String)
  | _, [] => []
  | depth, .line text :: rest => (depth, text) :: layout depth rest
  | depth, .enter text :: rest => (depth, text) :: layout (depth + 1) rest
  | depth, .leave :: rest => (depth - 1, "\x7d") :: layout (depth - 1) rest

end Row

namespace Outline

/-- The rows of a block: the comment of a handler, and the lines that hold something. -/
def blockRows (options : Options) (block : Block) (lines : List (Option String)) : List Row :=
  let comment := block.caught.toList.map fun type =>
    "// " ++ block.label.text ++ ": catch (" ++ type ++ " exception)"
  (comment ++ renderLines options block.start lines).map .line

/-- The rows of an item. Those of a loop need its label. -/
def itemRows (o : Outline) (options : Options) (lines : List (List (Option String))) :
    Item → Result (List Row)
  | .block number block => .ok (blockRows options block (lines.getD number []))
  | .loopOpen _ loop => do return [.enter ((← o.loopLabel loop).text ++ ": while(true) \x7b")]
  | .loopClose .. => .ok [.leave]
  | .loopExit _ loop => do return [.line ("break " ++ (← o.loopLabel loop).text ++ ";")]

/-- The rows of some items, the first of which is item `k`, with the given labelled scopes. -/
def rowsFrom (o : Outline) (options : Options) (lines : List (List (Option String)))
    (scopes : List Scope) : (k : Nat) → List Item → Result (List Row)
  | _, [] => .ok []
  | k, item :: rest => do
    let rows ← o.itemRows options lines item
    return Row.closing scopes k ++ Row.opening scopes k ++ rows
      ++ (← rowsFrom o options lines scopes (k + 1) rest)

/-- A row as text behind its line feed. A line feed in the row is followed by the same indent. -/
def rowText (indent : String) (depth : Nat) (text : String) : String :=
  let lineStart := "\n" ++ Text.repeated depth indent
  lineStart ++ Text.replaceChars (· == '\n') lineStart text

/-- The rows of a method, given the lines of each of its blocks, in the order of the blocks. -/
def rows (o : Outline) (options : Options) (lines : List (List (Option String))) :
    Result (List Row) := do
  let items ← o.items
  let nesting ← o.nest items
  o.rowsFrom options (nesting.rewriteLines items lines) nesting.closed 0 items

/-- The body of a method, given the lines of each of its blocks. The rows begin one level deep. -/
def body (o : Outline) (options : Options) (lines : List (List (Option String))) :
    Result String := do
  let rows ← o.rows options lines
  let texts := (Row.layout 1 rows).map fun (depth, text) => rowText options.indent depth text
  return "\x7b" ++ String.join texts ++ "\n\x7d"

end Outline

end JvmSource
