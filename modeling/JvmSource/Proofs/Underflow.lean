import JvmSource.Proofs.Encoding
import JvmSource.Proofs.Flow.Failure

/-!
# Failures other than an underflow

An operand stack runs dry only where operands are taken off it. Everything else that is done to a
method fails for other reasons: reading its code and its constants, building its graph, its blocks
and its loops, working out what an instruction does with its operands, and nesting the text.

The lemmas follow the passes in the order in which a method goes through them. For most functions it
is enough to unfold them, since none of the errors in them is an underflow; where there is a
recursion, the lemma has the induction. For constants and actions it is enough that being no
underflow is a property of all plain errors (`Error.Lenient`).

They are what allows the two ways of treating an underflow to be compared: a method for which it
makes a difference fails in the evaluation of a block, and nowhere else.
-/

namespace JvmSource

open Result (FailsOnly)

/-- The error is not that the operand stack ran dry. Placeholders do not help against such an
error. -/
def Error.NotUnderflow (e : Error) : Prop :=
  e.isUnderflow = false

open Error (NotUnderflow)

instance : Error.Lenient NotUnderflow :=
  ⟨fun h => h.isUnderflow_eq⟩

attribute [local simp] Error.NotUnderflow Error.isPlain_iff Error.isUnderflow Error.isFlow

/-! ### Code, regions and the graph -/

@[simp] theorem failsOnly_decode (bytes : List UInt8) : FailsOnly NotUnderflow (decode bytes) := by
  intro e he
  obtain ⟨_, _, _, _, _, _, hfault⟩ := exists_decodeFault he
  cases hfault <;> simp

@[simp] theorem Region.failsOnly_caughtType (pool : Pool) (entry : ExceptionEntry) :
    FailsOnly NotUnderflow (caughtType pool entry) := by
  rw [caughtType]
  split <;> simp

@[simp] theorem Region.failsOnly_ofEntry (code : List Instruction) (size : Nat) (pool : Pool)
    (entry : ExceptionEntry) : FailsOnly NotUnderflow (ofEntry code size pool entry) := by
  unfold ofEntry
  extract_lets invalid find
  have hfind (pc : UInt16) (fault : RegionFault) : FailsOnly NotUnderflow (find pc fault) := by
    dsimp only [find, invalid]
    split <;> simp
  refine (Result.failsOnly_bind (hfind _ _)).mpr fun start _ => ?_
  -- both ways to find the end go on with the handler
  extract_lets resume
  have hresume (stop : Nat) : FailsOnly NotUnderflow (resume stop) := by
    refine (Result.failsOnly_bind (hfind _ _)).mpr fun handler _ => ?_
    split
    · simp [invalid]
    · split <;> simp [invalid]
  split
  · exact hresume code.length
  · exact (Result.failsOnly_bind (hfind _ _)).mpr fun stop _ => hresume stop

@[simp] theorem Code.failsOnly_regions (c : Code) (code : List Instruction) (pool : Pool) :
    FailsOnly NotUnderflow (c.regions code pool) := by
  simp [regions]

@[simp] theorem failsOnly_resolveTarget (code : List Instruction) (instr : Instruction) :
    FailsOnly NotUnderflow (resolveTarget code instr) := by
  rw [resolveTarget]
  split
  · simp
  · split <;> simp

@[simp] theorem failsOnly_requireTarget (code : List Instruction) (instr : Instruction) :
    FailsOnly NotUnderflow (requireTarget code instr) := by
  rw [requireTarget, Result.failsOnly_bind (by simp)]
  intro target _
  split <;> simp

@[simp] theorem failsOnly_edgesAmong (code some : List Instruction) :
    FailsOnly NotUnderflow (edgesAmong code some) := by
  induction some with
  | nil => simp [edgesAmong]
  | cons instr rest ih =>
    rw [edgesAmong, Result.failsOnly_bind (by simp)]
    intro target _
    split <;> simp [ih]

namespace Graph

@[simp] theorem failsOnly_build (code : List Instruction) (regions : List Region) :
    FailsOnly NotUnderflow (build code regions) := by
  simp [build]

variable (g : Graph)

@[simp] theorem failsOnly_checkReach : FailsOnly NotUnderflow g.checkReach := by
  refine Result.failsOnly_forM fun instr _ => ?_
  split <;> simp

@[simp] theorem failsOnly_checkHandler (handler : Nat) :
    FailsOnly NotUnderflow (g.checkHandler handler) := by
  -- the check of the branches is made behind every way to pass the first check
  unfold checkHandler
  extract_lets resume
  have hresume : FailsOnly NotUnderflow (resume ()) := by
    dsimp only [resume]
    split <;> simp
  split
  · simp
  · split
    · split
      · exact hresume
      · simp
    · exact hresume

@[simp] theorem failsOnly_validate : FailsOnly NotUnderflow g.validate := by
  simp [validate]

/-! ### Blocks and loops -/

@[simp] theorem failsOnly_exitLabel (last index : Nat) :
    FailsOnly NotUnderflow (g.exitLabel last index) := by
  rw [exitLabel]
  split <;> simp

@[simp] theorem failsOnly_resolve (index : Nat) : FailsOnly NotUnderflow (g.resolve index) := by
  rw [resolve]
  split <;> simp

@[simp] theorem failsOnly_successors (last : Instruction) (stop : Nat) :
    FailsOnly NotUnderflow (g.successors last stop) := by
  rw [successors, Result.failsOnly_bind (by simp)]
  intro target _
  dsimp only
  split
  · simp
  · split <;> simp

@[simp] theorem failsOnly_blockBetween (start stop : Nat) :
    FailsOnly NotUnderflow (g.blockBetween start stop) := by
  rw [blockBetween, Result.failsOnly_bind (by simp)]
  intro label _
  split <;> simp

@[simp] theorem failsOnly_blocks : FailsOnly NotUnderflow g.blocks := by
  simp [blocks]

@[simp] theorem failsOnly_findExit (start last : Nat) :
    FailsOnly NotUnderflow (g.findExit start last) := by
  rw [findExit]
  split
  · rw [Result.failsOnly_bind (by simp)]
    intro targets _
    split <;> simp
  · simp

@[simp] theorem failsOnly_findEntrance (start last : Nat) :
    FailsOnly NotUnderflow (g.findEntrance start last) := by
  unfold findEntrance
  split
  · simp
  · split
    · simp
    · split <;> simp

@[simp] theorem failsOnly_returnsTo (start stop : Nat) :
    FailsOnly NotUnderflow (g.returnsTo start stop) := by
  rw [returnsTo]
  split
  · simp
  · split <;> simp

@[simp] theorem failsOnly_findCondition (start last : Nat) :
    FailsOnly NotUnderflow (g.findCondition start last) := by
  rw [findCondition]
  split <;> simp

@[simp] theorem failsOnly_findForm (start last : Nat) :
    FailsOnly NotUnderflow (g.findForm start last) := by
  rw [findForm, Result.failsOnly_bind (by simp)]
  intro entrance _
  split <;> simp

@[simp] theorem failsOnly_checkCondition (start condition last : Nat) :
    FailsOnly NotUnderflow (g.checkCondition start condition last) := by
  refine Result.failsOnly_forM fun instr _ => ?_
  rw [Result.failsOnly_bind (by simp)]
  intro target _
  split <;> simp

@[simp] theorem failsOnly_findLoop (starts : List Nat) (start last : Nat) :
    FailsOnly NotUnderflow (g.findLoop starts start last) := by
  rw [findLoop, Result.failsOnly_bind (by simp)]
  intro exit _
  rw [Result.failsOnly_bind (by simp)]
  rintro ⟨condition, kind⟩ _
  dsimp only
  split <;> simp

@[simp] theorem failsOnly_loops : FailsOnly NotUnderflow g.loops := by
  have hbelow (n resume : Nat) (starts : List Nat) :
      FailsOnly NotUnderflow (g.findLoops n resume starts) := by
    induction n generalizing resume starts with
    | zero => simp [findLoops]
    | succ last ih =>
      rw [findLoops]
      split
      · exact ih resume starts
      · refine (Result.failsOnly_bind (by simp)).mpr fun start _ => ?_
        refine (Result.failsOnly_bind (by simp)).mpr fun loop _ => ?_
        simp [ih]
  exact hbelow _ _ _

end Graph

namespace Code

variable (c : Code) (pool : Pool)

@[simp] theorem failsOnly_graph : FailsOnly NotUnderflow (c.graph pool) := by
  simp [graph]

@[simp] theorem failsOnly_outline : FailsOnly NotUnderflow (c.outline pool) := by
  simp [outline]

end Code

/-! ### Actions -/

@[simp] theorem Site.failsOnly_targetLabel (site : Site) :
    FailsOnly NotUnderflow site.targetLabel := by
  rw [targetLabel, Result.failsOnly_bind (by simp)]
  intro target _
  split <;> simp

/-- Once its operands are there, an action finds no underflow. -/
@[simp] theorem Action.failsOnly_perform (site : Site) (frame : Frame) (locals : Locals)
    (action : Action) (operands : List Value) :
    FailsOnly NotUnderflow (action.perform site frame locals operands).2 :=
  failsOnly_perform_of_targetLabel site frame (fun _ => site.failsOnly_targetLabel) locals operands

/-! ### Order, scopes and text -/

namespace Outline

variable (o : Outline)

@[simp] theorem failsOnly_emit (kept : List Bool) (pending : List (Nat × Loop))
    (index stop : Nat) : FailsOnly NotUnderflow (o.emit kept pending index stop) := by
  fun_induction emit o kept pending index stop with
  | case1 => simp [Loop.unstructured]
  | _ => simp_all

@[simp] theorem failsOnly_items : FailsOnly NotUnderflow o.items := by
  simp [items]

@[simp] theorem failsOnly_loopLabel (loop : Loop) : FailsOnly NotUnderflow (o.loopLabel loop) := by
  rw [loopLabel]
  split <;> simp [Loop.unstructured]

variable (items : List Item) (k : Nat) (scopes : List Scope)

@[simp] theorem failsOnly_structuredJump (source target : Nat) (label : Label) :
    FailsOnly NotUnderflow (o.structuredJump items scopes k source target label) := by
  rw [structuredJump]
  split
  · simp
  · split
    · simp
    · split <;> simp

@[simp] theorem failsOnly_visitJump (source target : Nat) :
    FailsOnly NotUnderflow (o.visitJump items scopes k source target) := by
  rw [visitJump]
  split <;> simp

@[simp] theorem failsOnly_visitBlock (block : Block) :
    FailsOnly NotUnderflow (o.visitBlock items k block scopes) := by
  rw [visitBlock]
  split
  · simp
  · rw [Result.failsOnly_bind (by simp)]
    intro target _
    split <;> simp

@[simp] theorem failsOnly_visit (item : Item) :
    FailsOnly NotUnderflow (o.visit items k item scopes) := by
  unfold visit
  split
  · simp
  · dsimp only
    split <;> simp [Loop.unstructured]
  · split
    · split <;> simp [Loop.unstructured]
    · simp [Loop.unstructured]
  · simp

@[simp] theorem failsOnly_nest : FailsOnly NotUnderflow (o.nest items) := by
  have hfrom (rest : List Item) (k : Nat) (n : Nesting) :
      FailsOnly NotUnderflow (o.visitFrom items k rest n) := by
    induction rest generalizing k n with
    | nil => simp [visitFrom]
    | cons item rest ih => simp [visitFrom, ih]
  exact hfrom items 0 _

variable (options : Options) (lines : List (List (Option String)))

@[simp] theorem failsOnly_rowsFrom :
    FailsOnly NotUnderflow (o.rowsFrom options lines scopes k items) := by
  have hitem (item : Item) : FailsOnly NotUnderflow (o.itemRows options lines item) := by
    cases item <;> simp [itemRows]
  induction items generalizing k with
  | nil => simp [rowsFrom]
  | cons item rest ih => simp [rowsFrom, hitem, ih]

@[simp] theorem failsOnly_body : FailsOnly NotUnderflow (o.body options lines) := by
  simp [body, rows]

end Outline

end JvmSource
