import JvmSource.Flow.Graph

/-!
# Blocks

A block is a run of instructions between two neighbouring bounds: control enters at its first
instruction and leaves at its last. Its successors are the target of its last instruction, if that
is a branch, and the next block, unless its last instruction ends the flow.

The blocks of a method lie behind each other without gaps, since the bounds run from the first
instruction to the end. What follows a block is worked out from its last instruction alone: its
target is resolved once more, and the next block follows unless the flow ends. The last block of a
method has no next one, so it must end the flow; a method that runs off its end is refused by
`Graph.successors`. The successors are kept as indices and, for what is written, as labels.

A handler is a block like any other, with the types it catches beside it. Normal flow never enters
it, so it is no successor of any block. It is kept all the same, as is the first block; any other
block is kept only if some block leads to it.
-/

namespace JvmSource

/-- A straight run of instructions, from `start` up to, but not including, `stop`. -/
structure Block where
  start : Nat
  stop : Nat
  label : Label
  /-- The labels of the successors. -/
  exits : List Label
  /-- The indices that control may go to from the block. -/
  successors : List Nat
  /-- The caught types, if the block is an exception handler. -/
  caught : Option String
  deriving DecidableEq

namespace Block

/-- The index of the last instruction, which decides where control goes. -/
def last (block : Block) : Nat :=
  block.stop - 1

/-- Whether the block is an exception handler. -/
def isHandler (block : Block) : Bool :=
  block.caught.isSome

/-- The instructions of the block. There is at least one in every block of a method. -/
def body (block : Block) (code : List Instruction) : List Instruction :=
  (code.drop block.start).take (block.stop - block.start)

end Block

namespace Graph

/-- The distinct types caught by the handler at an index, in the order of the regions. An index that
is no handler catches nothing. -/
def caughtAt (g : Graph) (index : Nat) : Option String :=
  match ((g.regions.filter (·.handler == index)).map (·.type)).eraseDups with
  | [] => none
  | types => some (" | ".intercalate types)

/-- The indices that control may go to from a block that ends in `last` right before `stop`: the
target of a branch comes first, then the next block. A branch to the next block has only one
successor. -/
def successors (g : Graph) (last : Instruction) (stop : Nat) : Result (List Nat) := do
  let jumps := (← resolveTarget g.code last).toList
  if last.operation.endsFlow then return jumps
  else if stop = g.code.length then .error (.missingTerminator last.index)
  else return if jumps.contains stop then jumps else jumps ++ [stop]

/-- The label of an index, for the block that ends at `last`. An index without a label is behind the
end of the method. -/
def exitLabel (g : Graph) (last index : Nat) : Result Label :=
  match g.label? index with
  | some label => .ok label
  | none => .error (.missingTerminator last)

/-- The block from `start` up to `stop`. Its label is that of its first instruction. -/
def blockBetween (g : Graph) (start stop : Nat) : Result Block := do
  let label ← g.exitLabel start start
  match g.code[stop - 1]? with
  | none => .error (.missingTerminator start)
  | some last => do
    let successors ← g.successors last stop
    let exits ← successors.mapM (g.exitLabel last.index)
    return { start, stop, label, exits, successors, caught := g.caughtAt start }

/-- The pairs of neighbouring bounds with an instruction of the method between them. -/
def spans (g : Graph) : List (Nat × Nat) :=
  ((g.indices.zip g.indices.tail).map fun (start, stop) => (start, min stop g.code.length)).filter
    fun (start, stop) => decide (start < stop)

/-- The blocks of a method, in order. The first block that cannot be made fails all of them. -/
def blocks (g : Graph) : Result (List Block) :=
  g.spans.mapM fun (start, stop) => g.blockBetween start stop

end Graph

/-- Whether each block is kept: the first one, handlers, and those that some block leads to. A block
that is not kept may itself lead to others. -/
def keptBlocks (blocks : List Block) : List Bool :=
  let reached := blocks.flatMap (·.successors)
  blocks.zipIdx.map fun (block, position) =>
    position == 0 || block.isHandler || reached.contains block.start

end JvmSource
