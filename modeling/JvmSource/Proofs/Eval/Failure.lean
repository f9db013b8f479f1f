import JvmSource.Proofs.Eval.Step
import JvmSource.Proofs.Flow.Failure

/-!
# Evaluation and the flow of control

The evaluator resolves the target of each branch again, asks the graph for its label, and knows no
more of the flow of control. In a graph that has been built every branch has a target with a label
(`Graph.labelled_of_build`), so evaluation never fails for a reason that has to do with where
control goes: not at one instruction (`Site.failsOnly_step`), not in a block
(`Context.failsOnly_evaluate`), and not in the blocks of a method
(`Context.failsOnly_evaluateAll_notFlow`).

All other causes of a failure of an instruction are plain, or underflows, so being about something
else than the flow is a property of them (`Error.Lenient`), and the general lemmas on steps and runs
apply. What has to be said for it here is that operands do not run dry for a reason of the flow, and
that the label of a target is there.
-/

namespace JvmSource

open Result (FailsOnly)

/-- The error is not about where control goes. -/
def Error.NotFlow (e : Error) : Prop :=
  e.isFlow = false

open Error (NotFlow)

instance : Error.Lenient NotFlow :=
  ⟨fun h => h.isFlow_eq⟩

/-- Every branch has a target with a label. -/
def Graph.Labelled (g : Graph) : Prop :=
  ∀ a ∈ g.code, a.operation.isBranch = true →
    ∃ t label, requireTarget g.code a = .ok t ∧ g.label? t = some label

/-- Every branch of a decoded method has a target with a label. -/
theorem Graph.labelled_of_build {bytes : List UInt8} {regions : List Region} {g : Graph}
    (hdecode : decode bytes = .ok g.code) (h : build g.code regions = .ok g) : g.Labelled := by
  intro a ha hbranch
  have hcode : Sequential 0 0 g.code := sequential_of_decodeFrom hdecode
  obtain ⟨i, hi⟩ := List.getElem?_of_mem ha
  obtain ⟨t, ht⟩ := exists_target?_of_isBranch hdecode h hi hbranch
  obtain ⟨label, hlabel⟩ := exists_label?_of_target? hcode h ht
  exact ⟨t, label, (requireTarget_eq_ok_iff hcode h hi).mpr ht, hlabel⟩

/-! ### Operands -/

/-- Taking operands has nothing to do with the flow. -/
theorem failsOnly_takeOperands_notFlow (offset : Nat) (wants : List (Option String))
    (stack : List Value) : FailsOnly NotFlow (takeOperands offset wants stack) :=
  failsOnly_takeOperands_of_underflow fun _ => rfl

theorem failsOnly_takeRecovering_notFlow (position offset tries : Nat)
    (wants : List (Option String)) (stack : List Value) :
    FailsOnly NotFlow (takeRecovering position offset wants tries stack) := by
  induction tries generalizing stack with
  | zero => exact failsOnly_takeOperands_notFlow offset wants stack
  | succ tries ih =>
    rw [takeRecovering]
    split
    · exact ih _
    · exact failsOnly_takeOperands_notFlow offset wants stack

namespace Site

theorem failsOnly_operands_notFlow (site : Site) (action : Action) (stack : List Value) :
    FailsOnly NotFlow (site.operands action stack) := by
  rw [operands]
  split
  · exact failsOnly_takeRecovering_notFlow _ _ _ _ stack
  · exact failsOnly_takeOperands_notFlow _ _ stack

/-! ### Instructions and blocks -/

/-- **One instruction** of a graph in which branches have labels. If it is a branch it is one of the
graph, so its label is there. -/
theorem failsOnly_step (site : Site) (hgraph : site.context.graph.Labelled)
    (hinstr : site.instr ∈ site.context.graph.code) (locals : Locals) (frame : Frame) :
    FailsOnly NotFlow (site.step locals frame).2 := by
  refine failsOnly_step_of_operands (fun hbranch => ?_)
    (fun action _ => site.failsOnly_operands_notFlow action frame.stack) locals
  obtain ⟨t, label, ht, hlabel⟩ := hgraph site.instr hinstr hbranch
  rw [targetLabel, ht]
  simp [hlabel, bind, Except.bind]

end Site

namespace Context

variable {ctx : Context} (hgraph : ctx.graph.Labelled)
include hgraph

/-- **A block**, whatever variables it starts from. -/
theorem failsOnly_evaluate (block : Block) (state : MethodState) :
    FailsOnly NotFlow (ctx.evaluate block state).2 := by
  refine failsOnly_evaluate_of_step fun front instr behind locals frame hbody _ => ?_
  have hinstr : instr ∈ block.body ctx.graph.code := by simp [hbody]
  exact Site.failsOnly_step _ hgraph (List.mem_of_mem_drop (List.mem_of_mem_take hinstr)) locals
    frame

/-- **The blocks of a method.** -/
theorem failsOnly_evaluateAll_notFlow (blocks : List (Block × Bool)) (state : MethodState) :
    FailsOnly NotFlow (ctx.evaluateAll blocks state) :=
  failsOnly_evaluateAll_of_evaluate (fun q _ => failsOnly_evaluate hgraph q.1) state

end Context

end JvmSource
