import Mathlib.Tactic.MkIffOfInductiveProp
import JvmSource.Method
import JvmSource.Proofs.Result

/-!
# Failures by cause

Two kinds of errors stand apart from the others: that the operand stack ran dry, and those about the
flow of control. The first kind can be repaired by placeholders, and the second one cannot occur
once the graph of a method has been built, but for a few causes that are known.

Reading constants and descriptors, naming the local variables and working out what an instruction
does with its operands know nothing of either, except that a branch asks for the label of its
target. So they fail only with errors of a property that leaves out one of the two kinds or both
(`Error.Lenient`). The lemmas here are stated for every such property at once, and are used of two
of them: that an error is no underflow, and that it is not about the flow.

Most of them are for `simp`, which takes a computation apart and finds the lemma for each step. A
function that fails with errors of its own unfolds to these, and each of them is plain.
-/

namespace JvmSource

open Result (FailsOnly)

/-- The error is about where control goes: a branch without a target, a block without an end, a loop
or a jump without a form in the text. -/
def Error.isFlow : Error → Bool
  | branchTargetNotFound .. | missingTerminator _ | duplicateLoopStart .. | loopExitNotFound ..
  | ambiguousCondition .. | unstructuredBranch .. => true
  | _ => false

/-- The error is neither an underflow nor about the flow of control. -/
@[mk_iff]
structure Error.IsPlain (e : Error) : Prop where
  isUnderflow_eq : e.isUnderflow = false
  isFlow_eq : e.isFlow = false

/-- A property of all plain errors. It is a class so that `simp` finds it for the property at
hand. -/
class Error.Lenient (p : Error → Prop) : Prop where
  of_isPlain : ∀ {e : Error}, e.IsPlain → p e

open Error (Lenient)

attribute [local simp] Error.isPlain_iff Error.isUnderflow Error.isFlow

variable {p : Error → Prop} [Lenient p]

/-- A plain error is a failure of any such property. -/
@[simp high] theorem Result.failsOnly_error_of_isPlain {α : Type} {e : Error} (h : e.IsPlain) :
    FailsOnly p (.error e : Result α) :=
  failsOnly_error.mpr (Lenient.of_isPlain h)

/-! ### Constants and descriptors -/

@[simp] theorem Ty.failsOnly_ofDescriptor (text : String) :
    FailsOnly p (ofDescriptor text) := by
  rw [ofDescriptor]
  split <;> simp

@[simp] theorem Ty.failsOnly_ofClassName (name : String) :
    FailsOnly p (ofClassName name) := by
  rw [ofClassName]
  split
  · simp
  · split <;> simp

@[simp] theorem MethodTy.failsOnly_ofDescriptor (text : String) :
    FailsOnly p (ofDescriptor text) := by
  rw [ofDescriptor]
  split <;> simp

namespace Pool

variable (pool : Pool) (index : UInt16)

@[simp] theorem failsOnly_get : FailsOnly p (pool.get index) := by
  rw [get]
  split <;> simp

@[simp] theorem failsOnly_mismatch {α : Type} (expected : String) (found : Constant) :
    FailsOnly p (mismatch index expected found : Result α) := by
  simp [mismatch]

@[simp] theorem failsOnly_utf8 : FailsOnly p (pool.utf8 index) := by
  rw [utf8, Result.failsOnly_bind (by simp)]
  intro constant _
  split <;> simp

@[simp] theorem failsOnly_className : FailsOnly p (pool.className index) := by
  rw [className, Result.failsOnly_bind (by simp)]
  intro constant _
  split <;> simp

@[simp] theorem failsOnly_nameAndType : FailsOnly p (pool.nameAndType index) := by
  rw [nameAndType, Result.failsOnly_bind (by simp)]
  intro constant _
  split <;> simp

@[simp] theorem failsOnly_classRef : FailsOnly p (pool.classRef index) := by
  simp [classRef]

@[simp] theorem failsOnly_fieldRef : FailsOnly p (pool.fieldRef index) := by
  rw [fieldRef, Result.failsOnly_bind (by simp)]
  intro constant _
  split <;> simp

@[simp] theorem failsOnly_methodOf (owner nameAndType : UInt16) :
    FailsOnly p (pool.methodOf owner nameAndType) := by
  simp [methodOf]

@[simp] theorem failsOnly_methodRef : FailsOnly p (pool.methodRef index) := by
  rw [methodRef, Result.failsOnly_bind (by simp)]
  intro constant _
  split <;> simp

@[simp] theorem failsOnly_interfaceMethodRef :
    FailsOnly p (pool.interfaceMethodRef index) := by
  rw [interfaceMethodRef, Result.failsOnly_bind (by simp)]
  intro constant _
  split <;> simp

@[simp] theorem failsOnly_callSite : FailsOnly p (pool.callSite index) := by
  rw [callSite, Result.failsOnly_bind (by simp)]
  intro constant _
  split <;> simp

@[simp] theorem failsOnly_loadable (wide : Bool) :
    FailsOnly p (pool.loadable index wide) := by
  rw [loadable, Result.failsOnly_bind (by simp)]
  intro constant _
  split <;> simp

end Pool

/-! ### Local variables -/

namespace Code

variable (c : Code) (pool : Pool)

@[simp] theorem failsOnly_findTable (attributes : List Attribute) :
    FailsOnly p (findTable pool attributes) := by
  induction attributes with
  | nil => simp [findTable]
  | cons a rest ih =>
    have htable : FailsOnly p (LocalVariableTable.ofAttribute a) := by
      rw [LocalVariableTable.ofAttribute]
      split <;> simp
    rw [findTable, Result.failsOnly_bind (by simp)]
    intro name _
    split
    · simp [htable]
    · exact ih

@[simp] theorem failsOnly_tableFor (options : Options) :
    FailsOnly p (c.tableFor pool options) := by
  rw [tableFor]
  split <;> simp [localVariableTable]

end Code

@[simp] theorem Locals.failsOnly_require (locals : Locals) (slot : Nat) :
    FailsOnly p (locals.require slot) := by
  rw [require]
  split <;> simp

@[simp] theorem Signature.failsOnly_locals (sig : Signature) (table : Option LocalVariableTable)
    (pool : Pool) : FailsOnly p (sig.locals table pool) := by
  cases table <;> simp [locals, Locals.forMethod, Locals.tableNames]

/-! ### Actions and their effects -/

@[simp] theorem failsOnly_booleanText? (type : String) (value : Value) :
    FailsOnly p (booleanText? type value) := by
  rw [booleanText?]
  split
  · split
    · simp
    · split
      · simp
      · split <;> simp
  · simp

@[simp] theorem failsOnly_assignedText (type : String) (value : Value) :
    FailsOnly p (assignedText type value) := by
  simp [assignedText]

@[simp] theorem failsOnly_argumentTexts (types : List Ty) (operands : List Value) :
    FailsOnly p (argumentTexts types operands) := by
  simp [argumentTexts, argumentText]

/-- Taking operands fails with a plain error, or because the stack is too low. -/
theorem failsOnly_takeOperands_of_underflow {offset : Nat} {wants : List (Option String)}
    {stack : List Value} (h : stack.length < wants.length → p (.stackUnderflow offset)) :
    FailsOnly p (takeOperands offset wants stack) := by
  induction wants generalizing stack with
  | nil => simp [takeOperands]
  | cons want wants ih =>
    cases stack with
    | nil => exact Result.failsOnly_error.mpr (h (Nat.zero_lt_succ _))
    | cons value stack =>
      have hrest : FailsOnly p (takeOperands offset wants stack) :=
        ih fun hlt => h (Nat.succ_lt_succ hlt)
      simp [takeOperands, hrest]

@[simp] theorem Instruction.failsOnly_switchTable (instr : Instruction) :
    FailsOnly p instr.switchTable := by
  rw [switchTable]
  split <;> simp

@[simp] theorem Site.failsOnly_misuse {α : Type} (site : Site) (misuse : Misuse) :
    FailsOnly p (site.misuse misuse : Result α) := by
  simp [Site.misuse]

namespace Action

@[simp] theorem failsOnly_resolve (pool : Pool) (instr : Instruction) :
    FailsOnly p (resolve pool instr) := by
  have hcall (index : UInt16) (kind : Invocation) :
      FailsOnly p (resolveCall pool index kind) := by
    cases kind <;> simp [resolveCall]
  have hnested : FailsOnly p (resolveNestedArray pool instr) := by
    rw [resolveNestedArray, Result.failsOnly_bind (by simp)]
    intro type _
    dsimp only
    split <;> simp
  rw [resolve]
  split <;> simp [hcall, hnested]

/-- Whether an action may jump. -/
def IsBranch : Action → Prop
  | nullary .jump | unary (.testZero _) | unary (.testNull _) | binary (.test _) => True
  | _ => False

/-- Only branches may jump. -/
theorem isBranch_of_resolve {pool : Pool} {instr : Instruction} {action : Action}
    (h : resolve pool instr = .ok action) (haction : action.IsBranch) :
    instr.operation.isBranch = true := by
  have hgives : Result.GivesOnly (fun action => action.IsBranch → instr.operation.isBranch = true)
      (resolve pool instr) := by
    rw [resolve]
    split <;> simp_all [IsBranch, Operation.isBranch]
  exact hgives action h haction

variable (site : Site) (frame : Frame)

@[simp] theorem Access.failsOnly_effect (locals : Locals) (a : Access) :
    FailsOnly p (a.effect site locals).2 := by
  cases a <;> simp [effect]

@[simp] theorem failsOnly_assignEffect (locals : Locals) (type : Option Ty) (slot : Nat)
    (value : Value) : FailsOnly p (assignEffect site locals type slot value).2 := by
  simp [assignEffect]

@[simp] theorem failsOnly_zeroTestText (value : Value) (test : Comparison) :
    FailsOnly p (zeroTestText site value test) := by
  unfold zeroTestText
  split
  · split <;> simp
  · simp

omit [Lenient p] in
/-- The effect of an action without operands fails only so, if the label of its target does. -/
theorem Nullary.failsOnly_effect {a : Nullary}
    (h : (nullary a).IsBranch → FailsOnly p site.targetLabel) :
    FailsOnly p (a.effect site frame) := by
  cases a <;> simp_all [effect, IsBranch]

/-- The same for an action on the top of the stack. -/
theorem Unary.failsOnly_effect {a : Unary}
    (h : (unary a).IsBranch → FailsOnly p site.targetLabel) (value : Value) :
    FailsOnly p (a.effect site frame value) := by
  cases a with
  | newArray code =>
    rw [effect]
    split <;> simp
  | testZero test | testNull test => simp [effect, h trivial]
  | _ => simp [effect]

/-- The same for an action on two values. -/
theorem Binary.failsOnly_effect {a : Binary}
    (h : (binary a).IsBranch → FailsOnly p site.targetLabel) (top second : Value) :
    FailsOnly p (a.effect site top second) := by
  cases a with
  | arrayLoad element =>
    simp only [effect]
    split <;> simp
  | test comparison => simp [effect, h trivial]
  | _ => simp [effect]

@[simp] theorem Ternary.failsOnly_effect (top second third : Value) (a : Ternary) :
    FailsOnly p (a.effect site top second third) := by
  cases a <;> simp [effect]

@[simp] theorem failsOnly_constructorEffect (method : MethodRef) (receiver : Value)
    (arguments : String) :
    FailsOnly p (constructorEffect site frame method receiver arguments) := by
  rw [constructorEffect]
  split
  · simp
  · split
    · split
      · simp
      · split <;> simp
    · simp

@[simp] theorem Variadic.failsOnly_effect (operands : List Value) (a : Variadic) :
    FailsOnly p (a.effect site frame operands) := by
  cases a with
  | callOn method =>
    rw [effect, Result.failsOnly_bind (by simp)]
    intro arguments _
    split
    · simp
    · split <;> simp
  | _ => simp [effect]

/-- **An action on its operands** fails with a plain error, or because its target has no label. -/
theorem failsOnly_perform_of_targetLabel {action : Action}
    (h : action.IsBranch → FailsOnly p site.targetLabel) (locals : Locals)
    (operands : List Value) : FailsOnly p (action.perform site frame locals operands).2 := by
  unfold perform
  split
  · simp
  · simp
  · exact Nullary.failsOnly_effect site frame h
  · exact Unary.failsOnly_effect site frame h _
  · exact Binary.failsOnly_effect site h _ _
  · simp
  · simp
  · simp

end Action

end JvmSource
