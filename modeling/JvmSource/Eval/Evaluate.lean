import JvmSource.Eval.Effect
import JvmSource.Flow.Block
import JvmSource.Options

/-!
# Evaluating a block

A block is evaluated from an empty stack, or from the caught exception if it is a handler. Each
instruction takes its operands off the stack, and its effect is applied to what is left. With
recovery on, an instruction that finds too few operands is tried again with one more placeholder on
the stack; as many tries as it has operands are enough. What a block leaves on the stack is noted in
comments. The local variables and the count of object names go on from block to block.

One step does three things, each of which may fail (`Site.step`): the instruction is resolved, its
operands are taken, and the action is performed. The local variables stand beside the result of a
step and not inside of it, because a variable that is bound stays bound when a later part of the
step fails, or a later instruction of the block. Object names are used up only by a block that does
not fail.

A placeholder is put on top of the stack. The operands that are there then come to lie below it, and
the placeholder is the first operand. It is a variable of type `Object`, so it can be passed for
anything.

A line of a block belongs to an instruction, and most instructions have none. Only lines that hold
something are shown, each with the index of its instruction.
-/

namespace JvmSource

/-- What goes on from block to block of a method: its variables, and how many objects it has
named. -/
structure MethodState where
  locals : Locals
  /-- The number of object names used so far. -/
  objects : Nat
  deriving DecidableEq

/-! ### Operands -/

/-- Takes the wanted operands off a stack, the top first. Each is checked as it is taken, so a
constant that is no boolean comes before a stack that is too short. -/
def takeOperands (offset : Nat) :
    List (Option String) → List Value → Result (List Value × List Value)
  | [], stack => .ok ([], stack)
  | _ :: _, [] => .error (.stackUnderflow offset)
  | want :: wants, value :: stack => do
    let _ ← booleanText? (want.getD "") value
    let (operands, rest) ← takeOperands offset wants stack
    return (value :: operands, rest)

/-- Operands are the front of the stack, one for each that is wanted. -/
theorem eq_append_of_takeOperands {offset : Nat} {wants : List (Option String)}
    {stack operands rest : List Value}
    (h : takeOperands offset wants stack = .ok (operands, rest)) :
    stack = operands ++ rest ∧ operands.length = wants.length := by
  induction wants generalizing stack operands with
  | nil =>
    simp only [takeOperands, Except.ok.injEq, Prod.mk.injEq] at h
    simp [← h.1, ← h.2]
  | cons want wants ih =>
    cases stack with
    | nil => simp [takeOperands] at h
    | cons value stack =>
      rw [takeOperands] at h
      cases hb : booleanText? (want.getD "") value with
      | error e => simp [hb, bind, Except.bind] at h
      | ok text =>
        cases ht : takeOperands offset wants stack with
        | error e => simp [hb, ht, bind, Except.bind] at h
        | ok taken =>
          simp only [hb, ht, bind, Except.bind, pure, Except.pure, Except.ok.injEq,
            Prod.mk.injEq] at h
          obtain ⟨rfl, rfl⟩ := h
          obtain ⟨rfl, hl⟩ := ih ht
          simp [hl]

/-- The value that stands for an operand that is not there, at the position of the instruction. -/
def placeholder (position : Nat) : Value :=
  Value.ofVariable position "MISSING_STACK_OBJECT" "Object"

/-- Takes operands off a stack; when there are too few, tries again with one more placeholder on
top, at most `tries` times. -/
def takeRecovering (position offset : Nat) (wants : List (Option String)) :
    (tries : Nat) → List Value → Result (List Value × List Value)
  | 0, stack => takeOperands offset wants stack
  | tries + 1, stack =>
    match takeOperands offset wants stack with
    | .error (.stackUnderflow _) =>
      takeRecovering position offset wants tries (placeholder position :: stack)
    | result => result

namespace Site

/-- The operands of an action at its site, and the stack below them. With recovery on, an action may
be tried once more for each operand that it wants. -/
def operands (site : Site) (action : Action) (stack : List Value) :
    Result (List Value × List Value) :=
  if site.context.recover then
    takeRecovering site.position site.instr.offset action.wants action.demand stack
  else takeOperands site.instr.offset action.wants stack

/-- Evaluates one instruction. The variables are those after it, even if it fails. -/
def step (site : Site) (locals : Locals) (frame : Frame) : Locals × Result Frame :=
  match Action.resolve site.context.pool site.instr with
  | .error e => (locals, .error e)
  | .ok action =>
    match site.operands action frame.stack with
    | .error e => (locals, .error e)
    | .ok (operands, rest) =>
      match action.perform site frame locals operands with
      | (locals, .error e) => (locals, .error e)
      | (locals, .ok effect) => (locals, .ok (frame.apply rest effect))

end Site

namespace Context

/-- Evaluates the instructions of a block from a position on. The first one that fails ends the
block. -/
def runFrom (ctx : Context) (body : List Instruction) :
    (position : Nat) → List Instruction → Locals → Frame → Locals × Result Frame
  | _, [], locals, frame => (locals, .ok frame)
  | position, instr :: rest, locals, frame =>
    match Site.step { context := ctx, body, position, instr } locals frame with
    | (locals, .error e) => (locals, .error e)
    | (locals, .ok frame) => runFrom ctx body (position + 1) rest locals frame

/-- The frame in which a block begins: a handler finds the exception on the stack. -/
def entryFrame (block : Block) (size objects : Nat) : Frame :=
  { stack := (block.caught.map (Value.ofVariable 0 "exception" ·)).toList
    lines := List.replicate size none
    objects }

/-- The values that a block leaves behind. A throw at its end leaves the exception on the stack,
which does not count. -/
def leftovers (body : List Instruction) (stack : List Value) : List Value :=
  if (body.getLast?).any (·.operation == .throw) then stack.dropLast else stack

/-- Notes a value that a block leaves behind, on the line of the instruction that pushed it. The
note is a comment, so it must stay on one line. -/
def noteLeftover (lines : List (Option String)) (v : Value) : List (Option String) :=
  let text := Text.replaceChars (fun c => c == '\r' || c == '\n') "~NEWLINE" v.text
  Frame.appendLine lines v.origin ("// UNHANDLED STACK OBJECT: " ++ text) " "

/-- Evaluates a block: one line or none for each of its instructions. When it fails, the variables
stay as they are at that point, and no object name is used up. -/
def evaluate (ctx : Context) (block : Block) (state : MethodState) :
    MethodState × Result (List (Option String)) :=
  let body := block.body ctx.graph.code
  match ctx.runFrom body 0 body state.locals (entryFrame block body.length state.objects) with
  | (locals, .error e) => ({ state with locals }, .error e)
  | (locals, .ok frame) =>
    ({ locals, objects := frame.objects },
      .ok ((leftovers body frame.stack).foldl noteLeftover frame.lines))

end Context

/-- The lines of a block that hold something, each behind the index of its instruction if the
options ask for it. -/
def renderLines (options : Options) (start : Nat) (lines : List (Option String)) : List String :=
  (lines.zipIdx start).filterMap fun (line, index) =>
    line.map fun text =>
      if options.showIndices then
        "/*" ++ String.ofList (Text.padLeft ' ' 3 (Nat.toDigits 10 index)) ++ " */ " ++ text
      else text

end JvmSource
