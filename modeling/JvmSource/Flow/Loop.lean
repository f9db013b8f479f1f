import JvmSource.Flow.Graph

/-!
# Loops

Every branch back closes a loop that starts at its target. The method is searched from its end; the
instructions from the start of a loop's condition to its last branch are not searched again, so a
condition made of several branches belongs to one loop.

A loop that is entered by a jump over its body to a condition at its end is a `while` loop. All
others are entered at the top; their condition is the last block of the loop, extended downwards
over blocks that end in a branch back to the start.

For each loop the search works out its parts in this order, and the first part that cannot be found
is its failure:

* the exit (`Graph.findExit`): right behind the loop if its last branch may fall through, and the
  nearest target behind it otherwise;
* the form (`Graph.findForm`): where the condition begins, and how the loop is entered;
* whether another loop starts at the same place already;
* whether a branch in front of the condition goes into its middle (`Graph.checkCondition`).

All of these ask for the targets of branches, and resolve them again from the code
(`requireTarget`). A target that is not there would be an error of the search, too.
-/

namespace JvmSource

/-- How a loop is entered. This decides at which of its parts a turn begins. -/
inductive LoopKind where
  /-- By a jump to its condition, which stands behind the body. -/
  | whileLoop
  /-- At the top of its body. -/
  | doWhile
  deriving DecidableEq

/-- A loop, from `start` to `last`, its branch back. All positions count instructions. -/
structure Loop where
  start : Nat
  /-- Where the condition begins. -/
  condition : Nat
  last : Nat
  /-- Where control goes when the loop is left. -/
  exit : Nat
  kind : LoopKind
  deriving DecidableEq

/-- The index at which each turn of the loop begins: the condition of a `while` loop, and the start
of any other. -/
def Loop.head (loop : Loop) : Nat :=
  match loop.kind with
  | .whileLoop => loop.condition
  | .doWhile => loop.start

/-- Whether the instruction is a branch that does not jump ahead. A branch to itself is one. -/
def Instruction.jumpsBack (instr : Instruction) : Bool :=
  instr.branchOffset?.any (· ≤ 0)

namespace Graph

/-- Whether the instruction at an index always jumps. -/
def jumpsAt (g : Graph) (index : Nat) : Bool :=
  (g.code[index]?).any (·.operation.isJump)

/-- The branches from `start` up to, but not including, `stop`, in order. -/
def branchesBetween (g : Graph) (start stop : Nat) : List Instruction :=
  ((g.code.take stop).drop start).filter (·.operation.isBranch)

/-- Where control goes from a loop: behind it if its last branch may fall through, and otherwise to
the nearest place behind it that a branch of the loop jumps to. A loop that nothing leaves has
none. -/
def findExit (g : Graph) (start last : Nat) : Result Nat :=
  if g.jumpsAt last then do
    let targets ← (g.branchesBetween start last).mapM (requireTarget g.code)
    match (targets.filter (last < ·)).min? with
    | some exit => return exit
    | none => .error (.loopExitNotFound start last)
  else .ok (last + 1)

/-- Where a jump right before the loop enters its middle. A jump to its start, or past it, does not
count. -/
def findEntrance (g : Graph) (start last : Nat) : Result (Option Nat) :=
  match start with
  | 0 => .ok none
  | before + 1 =>
    match g.code[before]? with
    | none => .ok none
    | some instr =>
      if instr.operation.isJump then do
        let target ← requireTarget g.code instr
        return if start < target ∧ target ≤ last then some target else none
      else .ok none

/-- Whether the block in front of the bound `stop` ends in a branch to `start`. -/
def returnsTo (g : Graph) (start stop : Nat) : Result Bool :=
  match g.code[stop - 1]? with
  | none => .ok false
  | some instr =>
    if instr.operation.isBranch then do
      return (← requireTarget g.code instr) == start
    else .ok false

/-- The bounds of a loop, each with the bound behind it. The bound at its last branch is left
out. -/
def spansInside (g : Graph) (start last : Nat) : List (Nat × Nat) :=
  (g.indices.zip g.indices.tail).filter fun (index, _) =>
    decide (start ≤ index) && decide (index < last)

/-- The start of the condition of a loop that is entered at its top: the first bound of the loop
whose block ends in a branch back to the start, or else its last bound. The bounds are gone through
from the last one down. -/
def findCondition (g : Graph) (start last : Nat) : Result Nat :=
  match (g.spansInside start last).reverse with
  | [] => .ok start
  | (index, _) :: above =>
    above.foldlM (fun condition (index, next) => do
      return if ← g.returnsTo start next then index else condition) index

/-- Where the condition of a loop begins, and how the loop is entered. Only a loop that is not
entered in its middle has its condition searched for. -/
def findForm (g : Graph) (start last : Nat) : Result (Nat × LoopKind) := do
  match ← g.findEntrance start last with
  | some entry => return (entry, .whileLoop)
  | none => return (← g.findCondition start last, .doWhile)

/-- Refuses a loop with a branch in front of its condition that goes into the condition. A branch to
the first instruction of the condition is no fault. -/
def checkCondition (g : Graph) (start condition last : Nat) : Result Unit :=
  (g.branchesBetween start condition).forM fun instr => do
    let target ← requireTarget g.code instr
    if condition < target ∧ target ≤ last then
      .error (.ambiguousCondition instr.index target)
    else return ()

/-- The loop from `start` to `last`, given the starts of the loops behind it, of which it must be
none. -/
def findLoop (g : Graph) (starts : List Nat) (start last : Nat) : Result Loop := do
  let exit ← g.findExit start last
  let (condition, kind) ← g.findForm start last
  if starts.contains start then .error (.duplicateLoopStart start last)
  else do
    g.checkCondition start condition last
    return { start, condition, last, exit, kind }

/-- The loops that branches below index `n` close, those at or behind `resume` left out, given the
starts of the loops found before. The recursion is on the index, from the end of the method down. -/
def findLoops (g : Graph) : (n resume : Nat) → (starts : List Nat) → Result (List Loop)
  | 0, _, _ => .ok []
  | last + 1, resume, starts =>
    match (g.code[last]?).filter fun instr => instr.jumpsBack && decide (last < resume) with
    | none => findLoops g last resume starts
    | some instr => do
      let start ← requireTarget g.code instr
      let loop ← g.findLoop starts start last
      return loop :: (← findLoops g last loop.condition (start :: starts))

/-- The loops of a method, those that end last first. The first loop that cannot be made fails them
all. -/
def loops (g : Graph) : Result (List Loop) :=
  g.findLoops g.code.length g.code.length []

end Graph

end JvmSource
