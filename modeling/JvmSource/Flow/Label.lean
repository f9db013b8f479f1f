import JvmSource.Text.Number

/-!
# Labels

A label names an instruction that starts a block: a number and a kind, which shows in its text.

The numbers are counted from 1 in the order of the code, and no two labels of a method share theirs.
So a label is known from its number alone; the kind only says what stands there, an exception
handler or another block. The label of a loop is that of the instruction at which the loop starts,
with the kind changed (`Label.asLoop`), so a loop and the block at its start have labels with one
number and different texts.
-/

namespace JvmSource

/-- What a label stands at. Only labels of blocks are kept in a graph; those of loops are made from
them. -/
inductive LabelKind where
  | branch
  | handler
  | loop
  deriving DecidableEq

/-- A named place in a method, by its number and what stands there. -/
structure Label where
  id : Nat
  kind : LabelKind
  deriving DecidableEq

namespace Label

/-- The same label as the name of a loop. Jumps to the top of a loop are written with it. -/
def asLoop (label : Label) : Label :=
  { label with kind := .loop }

/-- The text of a label. Jumps to a block cite it, and so does the scope that such a jump leaves. -/
def text (label : Label) : String :=
  match label.kind with
  | .branch => "L" ++ Text.decimal label.id
  | .handler => "CATCH_L" ++ Text.decimal label.id
  | .loop => "LOOP_L" ++ Text.decimal label.id

end Label

end JvmSource
