import JvmSource.Flow.Label
import JvmSource.Flow.Region

/-!
# The flow graph of a method

The instructions of a method with everything that decides where blocks begin:

* the edges, from each branch to the instruction it jumps to;
* the bounds, the indices at which a block begins or the method ends, each with its causes;
* the labels, numbered from 1 in the order of the bounds, one for each bound inside the method.

Building the graph fails when a branch jumps to no instruction. A graph is valid when nothing behind
a return or a throw is out of reach of everything else, and when no handler is entered by normal
flow.

The edges are for what is asked of the graph as a whole: its bounds, and why they are bounds. The
passes behind the graph (blocks, loops, scopes, the lines of jumps) do not read them. Each resolves
the target of a branch from the code again, by `resolveTarget` or, where there must be one, by
`requireTarget`, and has an error for a target that is not there. That such an error never comes up
in a graph that has been built is not assumed here; it is a theorem about these passes.

An index is a bound for a reason that can be named: the method starts or ends there, a region or a
handler does, a branch jumps there, or stands right in front of it. The causes are listed in this
order, and the branches by their position, so equal graphs have equal bounds, in whatever order
their regions were given.
-/

namespace JvmSource

/-- A branch, by its own index and that of the instruction it jumps to. A branch has one edge, and
other instructions have none. -/
@[ext]
structure Edge where
  source : Nat
  target : Nat
  deriving DecidableEq

/-- Why a block begins at an index, or the method ends there. An index may have several causes. -/
inductive Cause where
  | methodStart
  | methodEnd
  | regionStart
  | regionEnd
  | handler
  /-- The branch at `source` jumps here. -/
  | target (source : Nat)
  /-- The branch at `source` stands right before. -/
  | afterBranch (source : Nat)
  deriving DecidableEq

/-- An index at which a block begins, or the method ends, with everything that makes it one. -/
structure Bound where
  index : Nat
  /-- In the order of the constructors; branches by their index. -/
  causes : List Cause
  deriving DecidableEq

/-- The first branch that jumps to the bound, in the order of the code. -/
def Bound.branchedFrom? (bound : Bound) : Option Nat :=
  bound.causes.findSome? fun
    | .target source => some source
    | _ => none

/-- The instructions of a method with their edges, regions, bounds and labels. Nothing in the type
keeps these in step; `Graph.build` does. -/
structure Graph where
  code : List Instruction
  edges : List Edge
  regions : List Region
  bounds : List Bound
  labels : List (Nat × Label)
  deriving DecidableEq

/-! ### Building -/

/-- The instruction a branch jumps to; nothing for other instructions. It is an error if no
instruction starts at the offset that a branch jumps to. -/
def resolveTarget (code : List Instruction) (instr : Instruction) : Result (Option Nat) :=
  match instr.branchTarget? with
  | none => .ok none
  | some target =>
    match indexAt? code target with
    | some index => .ok (some index)
    | none => .error (.branchTargetNotFound instr.index target)

/-- The instruction that a branch jumps to. Asking for it is an error where there is none, and so is
asking an instruction that does not branch. -/
def requireTarget (code : List Instruction) (instr : Instruction) : Result Nat := do
  match ← resolveTarget code instr with
  | some index => return index
  | none => .error (.branchTargetNotFound instr.index (instr.branchTarget?.getD (-1)))

/-- The edges of the branches among some instructions of `code`, in order. The first branch without
a target fails all of them. -/
def edgesAmong (code : List Instruction) : List Instruction → Result (List Edge)
  | [] => .ok []
  | instr :: rest => do
    match ← resolveTarget code instr with
    | some target => return { source := instr.index, target } :: (← edgesAmong code rest)
    | none => edgesAmong code rest

/-- Inserts an index into an ascending list, if it is not there yet. The list stays ascending. -/
def insertIndex (i : Nat) : List Nat → List Nat
  | [] => [i]
  | j :: rest =>
    if i < j then i :: j :: rest
    else if i = j then j :: rest
    else j :: insertIndex i rest

theorem mem_insertIndex {i k : Nat} {is : List Nat} :
    k ∈ insertIndex i is ↔ k = i ∨ k ∈ is := by
  induction is with
  | nil => simp [insertIndex]
  | cons j rest ih => grind [insertIndex]

/-- The indices of a list in ascending order, each once: those of the list and no others. -/
def ascending (is : List Nat) : List Nat :=
  is.foldr insertIndex []

theorem mem_ascending {k : Nat} {is : List Nat} : k ∈ ascending is ↔ k ∈ is := by
  induction is with
  | nil => simp [ascending]
  | cons i is ih =>
    rw [ascending, List.foldr_cons, mem_insertIndex, ← ascending, ih, List.mem_cons]

/-- Inserting keeps a list strictly ascending. -/
theorem pairwise_insertIndex {i : Nat} {is : List Nat} (h : is.Pairwise (· < ·)) :
    (insertIndex i is).Pairwise (· < ·) := by
  induction is with
  | nil => simp [insertIndex]
  | cons j rest ih =>
    obtain ⟨hj, hrest⟩ := List.pairwise_cons.1 h
    rw [insertIndex]
    split
    · next hij =>
      refine List.pairwise_cons.2 ⟨fun k hk => ?_, h⟩
      rcases List.mem_cons.1 hk with rfl | hk
      · exact hij
      · exact Nat.lt_trans hij (hj k hk)
    · split
      · exact h
      · refine List.pairwise_cons.2 ⟨fun k hk => ?_, ih hrest⟩
        rcases mem_insertIndex.1 hk with rfl | hk
        · omega
        · exact hj k hk

/-- The list that comes out ascends strictly, so an index is in it only once. -/
theorem pairwise_ascending (is : List Nat) : (ascending is).Pairwise (· < ·) := by
  induction is with
  | nil => exact List.Pairwise.nil
  | cons i is ih => exact pairwise_insertIndex ih

/-- The indices at which something of a method begins or ends. The start and the end of the method
are always among them, also of an empty one. -/
def boundIndices (size : Nat) (regions : List Region) (edges : List Edge) : List Nat :=
  ascending
    (0 :: size :: (regions.flatMap fun r => [r.start, r.stop, r.handler])
      ++ edges.flatMap fun e => [e.source + 1, e.target])

/-- Why an index is a bound, in the order of the causes; branches by their own index. -/
def causesAt (size : Nat) (regions : List Region) (edges : List Edge) (index : Nat) :
    List Cause :=
  let when (b : Bool) (cause : Cause) : List Cause := if b then [cause] else []
  when (index == 0) .methodStart
    ++ when (index == size) .methodEnd
    ++ when (regions.any (·.start == index)) .regionStart
    ++ when (regions.any (·.stop == index)) .regionEnd
    ++ when (regions.any (·.handler == index)) .handler
    ++ (edges.filter (·.target == index)).map (Cause.target ·.source)
    ++ (edges.filter (·.source + 1 == index)).map (Cause.afterBranch ·.source)

/-- The labels of the indices inside a method of `size` instructions. The end of the method has
none. -/
def labelsFor (size : Nat) (regions : List Region) (indices : List Nat) : List (Nat × Label) :=
  ((indices.filter (· < size)).zipIdx 1).map fun (index, id) =>
    (index, { id, kind := if regions.any (·.handler == index) then .handler else .branch })

namespace Graph

/-- The flow graph of a method with the given regions. It fails only if a branch jumps to no
instruction. -/
def build (code : List Instruction) (regions : List Region) : Result Graph := do
  let edges ← edgesAmong code code
  let indices := boundIndices code.length regions edges
  return {
    code, edges, regions
    bounds := indices.map fun index =>
      { index, causes := causesAt code.length regions edges index }
    labels := labelsFor code.length regions indices }

/-! ### Reading -/

/-- The indices of the bounds, in ascending order. -/
def indices (g : Graph) : List Nat :=
  g.bounds.map (·.index)

/-- The bound at an index. -/
def bound? (g : Graph) (index : Nat) : Option Bound :=
  g.bounds.find? (·.index == index)

/-- The label of an index. Exactly the bounds inside the method have one. -/
def label? (g : Graph) (index : Nat) : Option Label :=
  g.labels.lookup index

/-- The instruction that the branch at an index jumps to, by its edge. -/
def target? (g : Graph) (index : Nat) : Option Nat :=
  (g.edges.find? (·.source == index)).map (·.target)

/-- Resolves the target of the instruction at an index once more, from the code. Behind the end of
the method there is nothing to resolve. -/
def resolve (g : Graph) (index : Nat) : Result (Option Nat) :=
  match g.code[index]? with
  | some instr => resolveTarget g.code instr
  | none => .ok none

/-! ### Validity -/

/-- Refuses code behind a return or a throw that nothing leads to: the instruction there is no
bound. -/
def checkReach (g : Graph) : Result Unit :=
  g.code.dropLast.forM fun instr =>
    if instr.operation.isExit && (g.label? (instr.index + 1)).isNone then
      .error (.unreachableCode instr.index)
    else .ok ()

/-- Refuses a handler that the instruction before it falls into, or a branch jumps to. The first
instruction of a method cannot be a handler either. -/
def checkHandler (g : Graph) (handler : Nat) : Result Unit := do
  match handler with
  | 0 => .error (.handlerEntered handler .methodEntry)
  | before + 1 =>
    match g.code[before]? with
    | some instr =>
      if instr.operation.endsFlow then pure ()
      else .error (.handlerEntered handler (.fallThrough instr.mnemonic instr.index))
    | none => pure ()
  match (g.bound? handler).bind Bound.branchedFrom? with
  | some source => .error (.handlerEntered handler (.branch source))
  | none => pure ()

/-- Checks that a graph is valid: first that its code can be reached, then its handlers in the order
of the regions. -/
def validate (g : Graph) : Result Unit := do
  g.checkReach
  g.regions.forM fun region => g.checkHandler region.handler

end Graph

/-- The flow graph of a method's code, if it is valid. Decoding and the exception table come before
it. -/
def Code.graph (c : Code) (pool : Pool) : Result Graph := do
  let code ← decode c.code
  let regions ← c.regions code pool
  let graph ← Graph.build code regions
  graph.validate
  return graph

end JvmSource
