import JvmSource.Signature
import JvmSource.Structure.Body

/-!
# Methods

From a method's code to its text: the code is decoded and its flow graph built and checked, the
blocks that are kept are evaluated in order, and their lines are nested into a body.

The stages run one after the other, and the first one that fails fails the method. The outline (the
graph with its blocks and loops) depends on the code alone; the local variables on entry depend on
the declaration and on the local variable table. Evaluation needs both: the blocks are evaluated in
the order of the code with one state for the whole method, so that a local variable or the number of
a new object goes on from one block to the next. Blocks that nothing leads to are left out, and have
no lines. How the lines are nested depends on the outline only.

A method without a body is shown by its header. For a method with one both its header and its body
are needed, and a failure of either is a failure of the method, which then is named in the error
unless it has no readable name.
-/

namespace JvmSource

namespace Context

/-- Evaluates blocks in order, those that are not kept left out. Their lines are empty. The state
goes from one block to the next, and the first failure ends the evaluation. -/
def evaluateAll (ctx : Context) : List (Block × Bool) → MethodState →
    Result (List (List (Option String)))
  | [], _ => .ok []
  | (_, false) :: rest, state => do return [] :: (← evaluateAll ctx rest state)
  | (block, true) :: rest, state =>
    match ctx.evaluate block state with
    | (_, .error e) => .error e
    | (state, .ok lines) => do return lines :: (← evaluateAll ctx rest state)

end Context

/-- The flow graph, the blocks and the loops of a method's code. Everything about the structure of
the method follows from these. -/
def Code.outline (c : Code) (pool : Pool) : Result Outline := do
  let graph ← c.graph pool
  let blocks ← graph.blocks
  let loops ← graph.loops
  return { graph, blocks, loops }

/-- The local variable table of a method's code, if the options ask for it. Without them it is not
read, so a malformed one does not matter. -/
def Code.tableFor (c : Code) (pool : Pool) (options : Options) :
    Result (Option LocalVariableTable) :=
  if options.useVariableTable then c.localVariableTable pool else .ok none

namespace Signature

/-- The body of the method with the given code, between braces. The evaluator cites classes by their
dotted names, and so the name of the method's own class is dotted as well. -/
def body (sig : Signature) (c : Code) (pool : Pool) (options : Options) : Result String := do
  let outline ← c.outline pool
  let table ← c.tableFor pool options
  let locals ← sig.locals table pool
  let ctx : Context :=
    { owner := Name.dotted sig.owner, pool, graph := outline.graph
      recover := options.recoverUnderflow }
  let kept := outline.blocks.zip (keptBlocks outline.blocks)
  let lines ← ctx.evaluateAll kept { locals, objects := 0 }
  outline.body options lines

/-- The text of a method: its header, and its body if it has one. A method that should have a body
and has no code fails. -/
def text (sig : Signature) (method : Member) (pool : Pool) (options : Options) :
    Result String := do
  let code ← method.code? pool
  let table ← match code with
    | some code => code.tableFor pool options
    | none => pure none
  let header ← sig.header table pool
  if method.flags.isBodyless then return header ++ ";"
  match code with
  | none => .error (.missingAttribute "Code")
  | some code => return header ++ " " ++ (← sig.body code pool options)

end Signature

namespace Member

/-- The text of a method of the class with the given internal name. A failure names the method,
unless its name or its descriptor is not in the pool. -/
def methodText (method : Member) (owner : String) (pool : Pool) (options : Options) :
    Result String := do
  let name ← pool.utf8 method.name
  let descriptor ← pool.utf8 method.descriptor
  let sig : Signature := { owner, flags := method.flags, name, descriptor }
  match sig.text method pool options with
  | .ok text => return text
  | .error e => .error (.inMethod (name ++ descriptor) e)

end Member

end JvmSource
