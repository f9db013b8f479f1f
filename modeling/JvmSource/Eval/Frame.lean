import JvmSource.Flow.Graph
import JvmSource.Text.Number
import JvmSource.Value

/-!
# Frames

The state of the evaluation of one block, and the ways in which an instruction changes it: it takes
operands off the stack, pushes values, sets lines, uses up object names, and may flush the stack.
What it does with the operands is given as an `Effect`, which does not mention the values below.

A block has one line for each of its instructions, empty at first. An instruction sets its own line
as a rule. It sets another one in two cases: an array that gets a name is declared on the line at
which it was made, and a constructor call takes the line of the new object along. When the stack is
flushed, each value on it is written on the line of the instruction that pushed it, behind what
stands there already. So the number of lines never changes, and their positions are those of the
instructions.

An effect is applied in this order: the values left on the stack are flushed, if they are to be,
then the lines are set, and then the results are pushed. A line that is set may overwrite what the
flush has written there.

What an instruction may refer to besides the stack is its `Site`: the instructions around it, the
pool, and the graph, in which a branch looks its target up once more (`Site.targetLabel`).
-/

namespace JvmSource

/-- What the evaluation of a method's blocks refers to. It is the same for all blocks of a
method. -/
structure Context where
  /-- The dotted name of the class. -/
  owner : String
  pool : Pool
  graph : Graph
  /-- Whether missing operands are replaced by placeholders. -/
  recover : Bool

/-- The state of the evaluation of one block. The local variables are kept beside it, because they
outlive a failure. -/
structure Frame where
  /-- The operand stack, the top first. -/
  stack : List Value
  /-- The line of each instruction of the block, if it has one. -/
  lines : List (Option String)
  /-- The number of object names used so far in the method. -/
  objects : Nat
  deriving DecidableEq

/-- Where an action takes place: in which block, and at which instruction of it. -/
structure Site where
  context : Context
  /-- The instructions of the block. -/
  body : List Instruction
  /-- The position of the instruction in the block. -/
  position : Nat
  instr : Instruction

/-- What an action does. The default does nothing at all. -/
structure Effect where
  /-- The values it pushes, the new top first. -/
  results : List Value := []
  /-- The lines it sets, in order, by their position in the block. -/
  writes : List (Nat × Option String) := []
  /-- The number of object names it uses up. -/
  objects : Nat := 0
  /-- Whether every value left on the stack is written out. -/
  flushes : Bool := false
  deriving DecidableEq

namespace Frame

/-- Adds a text to a line, behind a separator if the line holds something already. A position behind
the last line adds nothing. -/
def appendLine (lines : List (Option String)) (position : Nat) (text separator : String) :
    List (Option String) :=
  lines.modify position fun
    | some line => some (line ++ separator ++ text)
    | none => some text

/-- Writes each value as a statement on the line of the instruction that pushed it, the top of the
stack first. -/
def flush (lines : List (Option String)) (values : List Value) : List (Option String) :=
  values.foldl (fun lines v => appendLine lines v.origin (v.text ++ ";") " /* Same line */ ") lines

@[simp] theorem length_appendLine (lines : List (Option String)) (position : Nat)
    (text separator : String) :
    (appendLine lines position text separator).length = lines.length := by
  simp [appendLine]

@[simp] theorem length_flush (lines : List (Option String)) (values : List Value) :
    (flush lines values).length = lines.length := by
  unfold flush
  induction values generalizing lines with
  | nil => rfl
  | cons v values ih => rw [List.foldl_cons, ih, length_appendLine]

/-- The frame after an effect, where `rest` is the stack below the operands. Flushing leaves nothing
of it. -/
def apply (frame : Frame) (rest : List Value) (effect : Effect) : Frame :=
  let lines := if effect.flushes then flush frame.lines rest else frame.lines
  { stack := effect.results ++ (if effect.flushes then [] else rest)
    lines := effect.writes.foldl (fun lines write => lines.set write.1 write.2) lines
    objects := frame.objects + effect.objects }

/-- An effect sets lines and adds none. -/
theorem length_lines_apply (frame : Frame) (rest : List Value) (effect : Effect) :
    (frame.apply rest effect).lines.length = frame.lines.length := by
  have hset (writes : List (Nat × Option String)) (lines : List (Option String)) :
      (writes.foldl (fun lines write => lines.set write.1 write.2) lines).length
        = lines.length := by
    induction writes generalizing lines with
    | nil => rfl
    | cons w writes ih => rw [List.foldl_cons, ih, List.length_set]
  simp only [apply, hset]
  split <;> simp

/-- The name of the next new object. Names are numbered through the whole method. -/
def objectName (frame : Frame) : String :=
  "obj" ++ Text.decimal frame.objects

end Frame

namespace Site

/-- The effect of writing the line of the instruction, and nothing else. -/
def write (site : Site) (line : String) : Effect :=
  { writes := [(site.position, some line)] }

/-- The effect of pushing an expression. It comes from the instruction of the site. -/
def push (site : Site) (text type : String) : Effect :=
  { results := [Value.ofCode site.position text type] }

/-- The label of the instruction's branch target, which is resolved once more. A target without a
label is not found. -/
def targetLabel (site : Site) : Result Label := do
  let target ← requireTarget site.context.graph.code site.instr
  match site.context.graph.label? target with
  | some label => return label
  | none => .error (.branchTargetNotFound site.instr.index (site.instr.branchTarget?.getD (-1)))

/-- The error for a use of the instruction that has no source form, with its mnemonic and offset. -/
def misuse {α : Type} (site : Site) (misuse : Misuse) : Result α :=
  .error (.unsupportedUse site.instr.mnemonic site.instr.offset misuse)

/-- What the instruction at a position of the block does, such as the one that pushed a value. -/
def operationAt? (site : Site) (position : Nat) : Option Operation :=
  (site.body[position]?).map (·.operation)

end Site

end JvmSource
