import JvmSource.Flow.Block
import JvmSource.Flow.Loop

/-!
# The order of a method's parts

A method's text is a sequence of items: its blocks, and the opening, the exit and the closing of
each loop. Blocks come in source order, except that a loop begins with its head: the part from the
head to the branch back comes first, then the part before the head. A loop whose branch back may
fall through is left behind that branch. Blocks that are not kept do not appear.

The items of a range of instructions are worked out by recursion (`Outline.emit`). If a loop starts
at the first instruction of the range, it is opened, and the range falls into three: the part from
the head of the loop to its branch back, the part from its start to the head, and what lies behind
the loop. Otherwise the block there is an item, and the range goes on behind it. A loop is opened
once, so the loops that have not been opened go from each part to the next. A loop that runs past
the end of the range it starts in cannot be nested, which is the one way in which putting the parts
of a method in order fails.

The recursion ends because every step makes the range shorter or opens a loop. Opening a loop may
lead to a longer range than the one it is found in. So each loop that is left is counted with a
weight (`Loop.weight`) that is greater than the length of all ranges its opening leads to.
-/

namespace JvmSource

/-- What the body of a method is made of: its graph, and the blocks and loops found in it. -/
structure Outline where
  graph : Graph
  blocks : List Block
  loops : List Loop
  deriving DecidableEq

/-- One item of a method's text. Blocks and loops come with their number in the outline. -/
inductive Item where
  | block (number : Nat) (block : Block)
  | loopOpen (number : Nat) (loop : Loop)
  /-- The exit from a loop whose condition has failed. -/
  | loopExit (number : Nat) (loop : Loop)
  | loopClose (number : Nat) (loop : Loop)
  deriving DecidableEq

/-- The position of the last element of a list that satisfies `p`, counted from 0. -/
def lastPosition? {α : Type} (p : α → Bool) (xs : List α) : Option Nat :=
  ((xs.zipIdx.filter fun (x, _) => p x).getLast?).map Prod.snd

/-- The error for a loop that cannot be nested. It cites the loop by its branch back. -/
def Loop.unstructured {α : Type} (loop : Loop) : Result α :=
  .error (.unstructuredBranch loop.last loop.start)

/-- Takes the first loop that starts at an index out of a list of numbered loops. The others stay as
they are. -/
def takeLoop? (index : Nat) : List (Nat × Loop) → Option ((Nat × Loop) × List (Nat × Loop))
  | [] => none
  | first :: rest =>
    if first.2.start = index then some (first, rest)
    else (takeLoop? index rest).map fun (found, rest) => (found, first :: rest)

/-- More than the length of any range that the opening of the loop leads to. These ranges begin at
its head, at its start, and behind its branch back. -/
def Loop.weight (loop : Loop) : Nat :=
  loop.start + loop.head + loop.last + 1

/-- What some loops weigh together. Loops that are left out weigh nothing. -/
def totalWeight : List (Nat × Loop) → Nat
  | [] => 0
  | (_, loop) :: loops => loop.weight + totalWeight loops

/-- The loop that is taken starts at the index. -/
theorem start_of_takeLoop? {index : Nat} {loops rest : List (Nat × Loop)} {found : Nat × Loop}
    (h : takeLoop? index loops = some (found, rest)) : found.2.start = index := by
  induction loops generalizing rest with
  | nil => simp [takeLoop?] at h
  | cons first loops ih =>
    rw [takeLoop?] at h
    split at h
    · next hstart =>
      simp only [Option.some.injEq, Prod.mk.injEq] at h
      rw [← h.1, hstart]
    · obtain ⟨⟨_, rest'⟩, h', h⟩ := Option.map_eq_some_iff.1 h
      simp only [Prod.mk.injEq] at h
      obtain ⟨rfl, rfl⟩ := h
      exact ih h'

/-- A loop that is taken out of a list takes its weight along. -/
theorem totalWeight_of_takeLoop? {index : Nat} {loops rest : List (Nat × Loop)}
    {found : Nat × Loop} (h : takeLoop? index loops = some (found, rest)) :
    totalWeight rest + found.2.weight = totalWeight loops := by
  induction loops generalizing rest with
  | nil => simp [takeLoop?] at h
  | cons first loops ih =>
    rw [takeLoop?] at h
    split at h
    · simp only [Option.some.injEq, Prod.mk.injEq] at h
      rw [← h.1, ← h.2, totalWeight, Nat.add_comm]
    · obtain ⟨⟨_, rest'⟩, h', h⟩ := Option.map_eq_some_iff.1 h
      simp only [Prod.mk.injEq] at h
      obtain ⟨rfl, rfl⟩ := h
      rw [totalWeight, totalWeight, ← ih h', Nat.add_assoc]

/-- The items of a range, and the loops that it leaves for later: they weigh no more than `bound`.
The bound is what the recursion of `Outline.emit` rests on. -/
structure Emitted (bound : Nat) where
  items : List Item
  pending : List (Nat × Loop)
  weight_pending_le : totalWeight pending ≤ bound

namespace Outline

/-- The number of the block that starts at an index; the last one, if there are several. -/
def blockAt? (o : Outline) (index : Nat) : Option (Nat × Block) := do
  let number ← lastPosition? (fun b : Block => b.start == index) o.blocks
  let block ← o.blocks[number]?
  return (number, block)

/-- The exit of a loop, if its branch back may fall through. A loop that jumps back always is left
elsewhere. -/
def exitItems (o : Outline) (number : Nat) (loop : Loop) : List Item :=
  if o.graph.jumpsAt loop.last then [] else [.loopExit number loop]

/-- The items from `index` up to, but not including, `stop`, where `pending` are the loops that have
not been opened yet. `kept` says which blocks appear. -/
def emit (o : Outline) (kept : List Bool) (pending : List (Nat × Loop)) (index stop : Nat) :
    Result (Emitted (totalWeight pending)) :=
  if hstop : index < stop then
    match hloop : takeLoop? index pending with
    | some ((number, loop), rest) =>
      if stop ≤ loop.last then loop.unstructured
      else do
        let front ← o.emit kept rest loop.head (loop.last + 1)
        let back ← o.emit kept front.pending loop.start loop.head
        let behind ← o.emit kept back.pending (loop.last + 1) stop
        return {
          items := .loopOpen number loop :: front.items ++ o.exitItems number loop ++ back.items
            ++ .loopClose number loop :: behind.items
          pending := behind.pending
          weight_pending_le := by
            have := totalWeight_of_takeLoop? hloop
            have := front.weight_pending_le
            have := back.weight_pending_le
            have := behind.weight_pending_le
            omega }
    | none =>
      match o.blockAt? index with
      | none => .error (.missingTerminator index)
      | some (number, block) =>
        if hblock : index < block.stop then do
          let behind ← o.emit kept pending block.stop stop
          let items := if kept.getD number false then [.block number block] else []
          return {
            items := items ++ behind.items
            pending := behind.pending
            weight_pending_le := behind.weight_pending_le }
        else .error (.missingTerminator index)
  else return { items := [], pending, weight_pending_le := Nat.le_refl _ }
termination_by totalWeight pending + (stop - index)
decreasing_by
  · have hweight := totalWeight_of_takeLoop? hloop
    simp only [Loop.weight] at hweight
    omega
  · have hweight := totalWeight_of_takeLoop? hloop
    have := front.weight_pending_le
    simp only [Loop.weight] at hweight
    omega
  · have hweight := totalWeight_of_takeLoop? hloop
    have hstart : loop.start = index := start_of_takeLoop? hloop
    have := front.weight_pending_le
    have := back.weight_pending_le
    simp only [Loop.weight] at hweight
    omega
  · omega

/-- The loops of an outline with their numbers, in the order in which they were found. -/
def numberedLoops (o : Outline) : List (Nat × Loop) :=
  o.loops.zipIdx.map fun (loop, number) => (number, loop)

/-- The items of a method, in the order of its text: those of the range of all its instructions. -/
def items (o : Outline) : Result (List Item) := do
  return (← o.emit (keptBlocks o.blocks) o.numberedLoops 0 o.graph.code.length).items

end Outline

end JvmSource
