import JvmSource.Proofs.Eval.Retry
import JvmSource.Proofs.Eval.Yield

/-!
# The discipline of a step

What an action can do is said once (`Action.Does`): it writes its own line, pushes a value of its
own, puts operands back, names the array that it duplicates, declares an object, moves the
declaration of an object to the line of its constructor call, or leaves the method. All invariants
of a step are read off these seven cases, and not off the more than thirty actions.

Everything below its operands is out of the sight of an action (`takeOperands_append`,
`Action.perform_withStack`), and so are the lines that it does not reach: it changes its own line,
that of the array or the object, and if it leaves the method those of the values that it flushes
(`Site.reaches_of_apply`).

How many values an instruction takes and pushes is known from its opcode, for a call from the method
and for a nested array from its operand (`Instruction.demand`, `Instruction.yield`). Both are counts
of the instruction, stated without its action, and agree with those of the action that it is worked
out to (`Action.yield_of_resolve`).

A step that is evaluated without recovery finds all its operands on the stack, so the padded stack
is the stack itself (`Site.pad_eq_self`). Together: `steps_keep_discipline`.
-/

namespace JvmSource

open Result (GivesOnly FailsOnly)
open Error (NotUnderflow)

/-! ### What an instruction pushes -/

namespace Instruction

/-- The constructor that the instruction calls. A constructor is called on an object. -/
def constructor? (pool : Pool) (instr : Instruction) : Option MethodRef :=
  match instr.operation with
  | .invoke kind =>
    match kind.method pool instr.indexOperand with
    | .ok method => if kind.receivers = 1 ∧ method.name = "<init>" then some method else none
    | .error _ => none
  | _ => none

/-- The object on which the instruction calls a constructor: it lies below the arguments. -/
def constructed? (pool : Pool) (instr : Instruction) (stack : List Value) : Option Value :=
  (instr.constructor? pool).bind fun method => stack[method.type.arguments.length]?

/-- The number of values that the instruction pushes. A call pushes its result, if it has one; that
of a constructor is left out. A throw leaves the exception. -/
def yield (pool : Pool) (instr : Instruction) : Nat :=
  match instr.operation with
  | .nop | .store .. | .arrayStore | .pop | .increment | .branch .. | .jump | .lookupSwitch
  | .returnValue | .returnVoid | .putStatic | .putField | .subroutine | .unsupported => 0
  | .pushNull | .pushInt _ | .pushLong _ | .pushFloat _ | .pushDouble _ | .pushOperand
  | .pushConstant _ | .load .. | .loadReference _ | .arrayLoad _ | .binary .. | .negate _
  | .shift .. | .convert _ | .compare _ | .throw | .getStatic | .getField | .newObject | .newArray
  | .newReferenceArray | .newNestedArray | .arrayLength | .checkCast | .instanceOf => 1
  | .dup | .swap => 2
  | .dupX1 => 3
  | .dupX2 => 4
  | .invoke kind =>
    match kind.method pool instr.indexOperand with
    | .ok method => if (instr.constructor? pool).isSome ∨ method.isVoid then 0 else 1
    | .error _ => 0

end Instruction

namespace Action

variable {pool : Pool} {instr : Instruction} {action : Action}

/-- The object on which an action calls a constructor. -/
def constructed? (operands : List Value) : Action → Option Value
  | variadic (.callOn method) =>
    if method.name = "<init>" then operands[method.type.arguments.length]? else none
  | _ => none

/-- The action of a call, with the method that it calls. -/
theorem resolve_invoke {kind : Invocation} (hop : instr.operation = .invoke kind)
    (h : resolve pool instr = .ok action) :
    ∃ method, kind.method pool instr.indexOperand = .ok method ∧
      (kind.receivers = 1 ∧ action = variadic (.callOn method) ∨
        kind.receivers = 0 ∧ (action = variadic (.callStatic method) ∨
          action = variadic (.callDynamic method))) := by
  simp only [resolve, hop, bind_pure_comp] at h
  obtain ⟨call, hcall, rfl⟩ := Result.map_eq_ok.mp h
  rcases kind with _ | _ | _ | _ | _ <;>
    obtain ⟨method, hmethod, rfl⟩ := Result.map_eq_ok.mp hcall <;>
    exact ⟨method, hmethod, by simp [Invocation.receivers]⟩

/-- The action that duplicates the top is that of `dup` only. -/
theorem operation_of_resolve_dup (h : resolve pool instr = .ok (unary .dup)) :
    instr.operation = .dup := by
  have hgives : GivesOnly (fun action => action = unary .dup → instr.operation = .dup)
      (resolve pool instr) := by
    rw [resolve]
    split <;> simp [*]
  exact hgives _ h rfl

/-- A nested array that can be allocated has a type and a number of lengths. -/
theorem exists_of_resolveNestedArray {a : Variadic} (h : resolveNestedArray pool instr = .ok a) :
    ∃ type sized, a = .newNestedArray type sized := by
  obtain ⟨type, -, h⟩ := Result.bind_eq_ok.mp h
  dsimp only at h
  split at h
  · cases h
  · exact ⟨type, _, (Result.pure_eq_ok.mp h).symm⟩

section

attribute [local simp] yield Access.yield Nullary.yield Unary.yield Binary.yield Ternary.yield
  Variadic.yield Instruction.yield constructed? Instruction.constructed? Instruction.constructor?

/-- What an action pushes, and whether it calls a constructor, is known from its instruction and
from what that refers to. -/
theorem yield_of_resolve (h : resolve pool instr = .ok action) :
    action.yield = instr.yield pool ∧
      ∀ stack, action.constructed? stack = instr.constructed? pool stack := by
  rcases hop : instr.operation
  case invoke kind =>
    obtain ⟨method, hmethod, ⟨hone, rfl⟩ | ⟨hzero, rfl | rfl⟩⟩ := resolve_invoke hop h
    · by_cases hinit : method.name = "<init>" <;> simp [hop, hmethod, hone, hinit]
    all_goals simp [hop, hmethod, hzero]
  case newNestedArray =>
    simp only [resolve, hop, bind_pure_comp] at h
    obtain ⟨a, ha, rfl⟩ := Result.map_eq_ok.mp h
    obtain ⟨type, sized, rfl⟩ := exists_of_resolveNestedArray ha
    simp [hop]
  case branch test against =>
    simp only [resolve, hop] at h
    rcases against with _ | _ | _ <;> cases h <;> simp [hop]
  case subroutine | unsupported =>
    simp only [resolve, hop] at h
    cases h
  -- the action is there at once, or behind a single lookup in the pool
  all_goals
    have hgives : GivesOnly (fun action => action.yield = instr.yield pool ∧
        ∀ stack, action.constructed? stack = instr.constructed? pool stack)
        (resolve pool instr) := by
      simp only [resolve, hop]
      first
        | exact Result.givesOnly_ok.mpr (by simp [hop])
        | exact Result.givesOnly_bind.mpr fun _ _ => Result.givesOnly_pure.mpr (by simp [hop])
    exact hgives action h

end

/-! ### What an action can do -/

/-- **What an action can do** at a site, with its operands. -/
inductive Does (site : Site) (frame : Frame) (operands : List Value) : Action → Effect → Prop where
  /-- It writes its line. -/
  | write {action : Action} (line : String) : Does site frame operands action (site.write line)
  /-- It pushes a value of its own. -/
  | push {action : Action} (form : Value.Form) :
    Does site frame operands action { results := [{ origin := site.position, form }] }
  /-- It puts some of its operands back, or does nothing at all. -/
  | shuffle {action : Action} {results : List Value} (hresults : ∀ v ∈ results, v ∈ operands) :
    Does site frame operands action { results }
  /-- It names a new array, whose line is still empty. -/
  | name {top : Value} (hoperands : operands = [top])
    (hmade : (site.operationAt? top.origin).any (·.makesArray) = true)
    (hempty : frame.lines[top.origin]? = some none) (text : String) (objects : Nat)
    {results : List Value} (hresults : ∀ v ∈ results, v.origin = top.origin) :
    Does site frame operands (unary .dup)
      { results, writes := [(top.origin, some text)], objects }
  /-- It declares a new object. -/
  | declare (type : String) :
    Does site frame operands (nullary (.newObject type))
      { site.write (type ++ " " ++ frame.objectName ++ " = new " ++ type) with
        results := [Value.ofVariable site.position frame.objectName type]
        objects := 1 }
  /-- It moves the line of an object to the constructor call. -/
  | move {action : Action} {object : Value} {line arguments : String}
    (hobject : action.constructed? operands = some object)
    (hline : frame.lines[object.origin]? = some (some line)) :
    Does site frame operands action
      { writes := [(object.origin, none),
          (site.position, some (line ++ "(" ++ arguments ++ ");"))] }
  /-- It leaves the method. -/
  | exit {action : Action} (hexit : action.isExit = true) (line : String) {results : List Value}
    (hresults : ∀ v ∈ results, v ∈ operands) :
    Does site frame operands action { site.write line with results, flushes := true }

section

variable {site : Site} {frame : Frame} {locals : Locals} {operands : List Value}

attribute [local simp] Does.write

@[local simp] theorem does_push (action : Action) (text type : String) :
    Does site frame operands action (site.push text type) :=
  .push (.code text type)

/-- To do nothing is to put no operands back. -/
theorem does_nothing (action : Action) : Does site frame operands action {} :=
  .shuffle (List.forall_mem_nil _)

@[local simp] theorem does_callEffect (action : Action) (method : MethodRef) (call : String) :
    Does site frame operands action (callEffect site method call) := by
  rw [callEffect]
  split <;> simp

/-- A constructor call moves the declaration of its object, or writes a line. -/
theorem does_constructorEffect {method : MethodRef} {object : Value}
    (hobject : action.constructed? operands = some object) (arguments : String) :
    GivesOnly (Does site frame operands action)
      (constructorEffect site frame method object arguments) := by
  rw [constructorEffect]
  split
  · next line hline =>
    exact Result.givesOnly_ok.mpr (.move hobject (Option.join_eq_some_iff.mp hline))
  · split
    · split
      · simp
      · split
        · exact Result.givesOnly_ok.mpr (does_nothing action)
        · simp
    · simp [Site.misuse]

/-- A `dup` names a new array, or puts its operand back twice. -/
theorem does_dupEffect (top : Value) :
    Does site frame [top] (unary .dup) (dupEffect site frame top) := by
  rw [dupEffect]
  dsimp only
  split
  · next hnamed =>
    simp only [Bool.and_eq_true, beq_iff_eq] at hnamed
    exact .name rfl hnamed.1.2 hnamed.2 _ 1 (by simp [Value.ofVariable])
  · exact .shuffle (by simp)

theorem Access.does_effect (a : Access) :
    GivesOnly (Does site frame [] (access a)) (a.effect site locals).2 := by
  cases a with
  | load type slot => exact Result.givesOnly_ok.mpr (.push (.named _ _))
  | loadReference slot =>
    exact Result.givesOnly_bind.mpr fun v _ => Result.givesOnly_ok.mpr (.push (.named _ _))
  | increment slot delta => simp [effect]

theorem Nullary.does_effect (a : Nullary) :
    GivesOnly (Does site frame [] (nullary a)) (a.effect site frame) := by
  cases a with
  | nothing => exact Result.givesOnly_ok.mpr (does_nothing _)
  | push form => exact Result.givesOnly_ok.mpr (.push form)
  | jump => simp [effect]
  | returnVoid => exact Result.givesOnly_ok.mpr (.exit rfl _ (List.forall_mem_nil _))
  | newObject type => exact Result.givesOnly_ok.mpr (.declare type)

theorem Unary.does_effect (a : Unary) (value : Value) :
    GivesOnly (Does site frame [value] (unary a)) (a.effect site frame value) := by
  cases a with
  | dup => exact Result.givesOnly_ok.mpr (does_dupEffect value)
  | newArray code =>
    rw [effect]
    split <;> simp [Site.misuse]
  | returnValue => exact Result.givesOnly_ok.mpr (.exit rfl _ (List.forall_mem_nil _))
  | throw => exact Result.givesOnly_ok.mpr (.exit rfl _ (by simp))
  | _ => simp [effect]

theorem Binary.does_effect (a : Binary) (top second : Value) :
    GivesOnly (Does site frame [top, second] (binary a)) (a.effect site top second) := by
  cases a with
  | arrayLoad element =>
    simp only [effect]
    split <;> simp
  | dupX1 | swap => exact Result.givesOnly_ok.mpr (.shuffle (by simp))
  | _ => simp [effect]

theorem Ternary.does_effect (a : Ternary) (top second third : Value) :
    GivesOnly (Does site frame [top, second, third] (ternary a))
      (a.effect site top second third) := by
  cases a with
  | arrayStore => simp [effect]
  | dupX2 => exact Result.givesOnly_ok.mpr (.shuffle (by simp))

theorem Variadic.does_effect (a : Variadic) :
    GivesOnly (Does site frame operands (variadic a)) (a.effect site frame operands) := by
  cases a with
  | callOn method =>
    refine Result.givesOnly_bind.mpr fun arguments _ => ?_
    split
    · exact Result.givesOnly_ok.mpr (does_nothing _)
    · next object hobject =>
      split
      · next hinit =>
        exact does_constructorEffect (by simp [constructed?, hinit, hobject]) arguments
      · simp
  | _ => simp [effect]

/-- **An action does one of these.** -/
theorem does_perform (action : Action) :
    GivesOnly (Does site frame operands action) (action.perform site frame locals operands).2 := by
  unfold perform
  split
  · next a => exact a.does_effect
  · simp [assignEffect]
  · next a => exact a.does_effect
  · next a value => exact a.does_effect value
  · next a top second => exact a.does_effect top second
  · next a top second third => exact a.does_effect top second third
  · next a => exact a.does_effect
  · exact Result.givesOnly_ok.mpr (does_nothing _)

end

end Action

/-! ### Lines within reach -/

namespace Site

variable {site : Site} {locals locals' : Locals} {frame frame' : Frame} {action : Action}
  {operands rest : List Value} {effect : Effect}

/-- The lines that an instruction may change where it finds the stack: its own line; the line of the
value that it duplicates; the line of the object on which it calls a constructor; the lines of the
values that it flushes when it leaves the method. -/
def Reaches (site : Site) (stack : List Value) (line : Nat) : Prop :=
  line = site.position ∨
  (site.instr.operation = .dup ∧ ∃ top, stack.head? = some top ∧ top.origin = line) ∨
  (∃ object, site.instr.constructed? site.context.pool stack = some object ∧ object.origin = line) ∨
  (site.instr.operation.isExit = true ∧
    ∃ v ∈ stack.drop (site.instr.demand site.context.pool), v.origin = line)

/-- The object of a constructor call is the same whatever lies below the operands. -/
theorem constructed?_append {object : Value}
    (hresolve : Action.resolve site.context.pool site.instr = .ok action)
    (h : action.constructed? operands = some object) (rest : List Value) :
    site.instr.constructed? site.context.pool (operands ++ rest) = some object := by
  rw [← (Action.yield_of_resolve hresolve).2]
  unfold Action.constructed? at h ⊢
  split at h
  · split at h
    · next hinit => rwa [if_pos hinit, List.getElem?_append_left (List.getElem?_eq_some_iff.mp h).1]
    · cases h
  · cases h

/-- **An effect changes only lines within reach.** -/
theorem reaches_of_apply (hresolve : Action.resolve site.context.pool site.instr = .ok action)
    (hlength : operands.length = action.demand)
    (hperform : action.perform site frame locals operands = (locals', .ok effect)) {line : Nat}
    (hchanged : (frame.apply rest effect).lines[line]? ≠ frame.lines[line]?) :
    site.Reaches (operands ++ rest) line := by
  by_contra hreach
  obtain ⟨hown, hdup, hobject, hflushed⟩ : line ≠ site.position ∧ _ ∧ _ ∧ _ := by
    simpa only [Reaches, not_or] using hreach
  refine hchanged ?_
  cases action.does_perform effect (congrArg Prod.snd hperform) with
  | write text => exact List.getElem?_set_ne (Ne.symm hown)
  | push form => rfl
  | shuffle hresults => rfl
  | declare type => exact List.getElem?_set_ne (Ne.symm hown)
  | name hoperands hmade hempty text objects hresults =>
    refine List.getElem?_set_ne fun horigin => hdup ⟨?_, _, by rw [hoperands]; rfl, horigin⟩
    exact Action.operation_of_resolve_dup hresolve
  | move hconstructed hline =>
    have horigin : _ ≠ line := fun horigin =>
      hobject ⟨_, constructed?_append hresolve hconstructed rest, horigin⟩
    exact (List.getElem?_set_ne (Ne.symm hown)).trans (List.getElem?_set_ne horigin)
  | exit hexit text hresults =>
    have hrest : ∀ v ∈ rest, v.origin ≠ line := by
      intro v hv horigin
      refine hflushed ⟨(Action.isExit_of_resolve hresolve).symm.trans hexit, v, ?_, horigin⟩
      rwa [← Action.demand_of_resolve hresolve, ← hlength, List.drop_left]
    exact (List.getElem?_set_ne (Ne.symm hown)).trans
      (Frame.getElem?_foldl_appendLine hrest _ _ frame.lines)

end Site

/-! ### Operands and what lies below them -/

/-- Operands are found whatever lies below them. -/
theorem takeOperands_append {offset : Nat} {wants : List (Option String)}
    {stack operands rest : List Value}
    (h : takeOperands offset wants stack = .ok (operands, rest)) (rest' : List Value) :
    takeOperands offset wants (operands ++ rest') = .ok (operands, rest') := by
  induction wants generalizing stack operands with
  | nil =>
    obtain ⟨rfl, -⟩ := Prod.mk.inj (Except.ok.inj h)
    rfl
  | cons want wants ih =>
    cases stack with
    | nil => cases h
    | cons value stack =>
      obtain ⟨text, htext, h⟩ := Result.bind_eq_ok.mp h
      obtain ⟨⟨others, below⟩, hothers, h⟩ := Result.bind_eq_ok.mp h
      obtain ⟨rfl, rfl⟩ := Prod.mk.inj (Result.pure_eq_ok.mp h)
      rw [List.cons_append, takeOperands, htext, ih hothers]
      rfl

/-- What an action does with its operands does not depend on what lies below them. -/
theorem Action.perform_withStack (action : Action) (site : Site) (frame : Frame) (locals : Locals)
    (operands stack : List Value) :
    action.perform site (frame.withStack stack) locals operands =
      action.perform site frame locals operands := rfl

namespace Site

variable {site : Site} {locals locals' : Locals} {frame frame' : Frame} {action : Action}
  {operands rest : List Value}

/-- The operands of an instruction, and what lies below them, are the padded stack. -/
theorem operands_eq_pad (hresolve : Action.resolve site.context.pool site.instr = .ok action)
    {stack : List Value} (h : site.operands action stack = .ok (operands, rest)) :
    site.pad stack = operands ++ rest ∧ operands.length = site.instr.demand site.context.pool := by
  obtain ⟨missing, happend, hlength, hempty⟩ := operands_eq_ok h
  rw [Action.demand_of_resolve hresolve] at hlength
  have hlengths := congrArg List.length happend
  rw [List.length_append, List.length_append, List.length_replicate, hlength] at hlengths
  have hmissing : site.instr.demand site.context.pool - stack.length = missing := by
    rcases hempty with rfl | rfl
    · omega
    · rw [List.length_nil] at hlengths
      omega
  exact ⟨by rw [pad, hmissing, happend], hlength⟩

/-- What an instruction yields does not depend on its operands. -/
theorem yields_of_perform {effect : Effect}
    (hresolve : Action.resolve site.context.pool site.instr = .ok action)
    (hlength : operands.length = site.instr.demand site.context.pool)
    (hperform : action.perform site frame locals operands = (locals', .ok effect)) :
    effect.Yields (site.instr.yield site.context.pool) site.instr.operation.isExit := by
  rw [← (Action.yield_of_resolve hresolve).1, ← Action.isExit_of_resolve hresolve]
  refine action.givesOnly_perform_yields ?_ effect (congrArg Prod.snd hperform)
  rw [hlength, Action.demand_of_resolve hresolve]

/-- **A step in full**: the operands that it takes, what lies below them, and the effect that it has
on the rest. -/
theorem step_eq_ok_pad (h : site.step locals frame = (locals', .ok frame')) :
    ∃ action operands rest effect, Action.resolve site.context.pool site.instr = .ok action ∧
      site.pad frame.stack = operands ++ rest ∧
      operands.length = site.instr.demand site.context.pool ∧
      action.perform site frame locals operands = (locals', .ok effect) ∧
      effect.Yields (site.instr.yield site.context.pool) site.instr.operation.isExit ∧
      frame' = frame.apply rest effect := by
  obtain ⟨action, operands, rest, effect, hresolve, hoperands, hperform, rfl⟩ := step_eq_ok h
  obtain ⟨hpad, hlength⟩ := operands_eq_pad hresolve hoperands
  exact ⟨action, operands, rest, effect, hresolve, hpad, hlength, hperform,
    yields_of_perform hresolve hlength hperform, rfl⟩

/-- **The lines behind a step** are changed only within its reach. -/
theorem reaches_of_step (site : Site) (h : site.step locals frame = (locals', .ok frame'))
    {line : Nat} (hchanged : frame'.lines[line]? ≠ frame.lines[line]?) :
    site.Reaches (site.pad frame.stack) line := by
  obtain ⟨action, operands, rest, effect, hresolve, hpad, hlength, hperform, -, rfl⟩ :=
    step_eq_ok_pad h
  rw [hpad]
  refine reaches_of_apply hresolve ?_ hperform hchanged
  rw [hlength, Action.demand_of_resolve hresolve]

/-- **A return** leaves nothing on the stack. -/
theorem stack_of_isReturn (site : Site) (h : site.step locals frame = (locals', .ok frame'))
    (hreturn : site.instr.operation.isReturn = true) : frame'.stack = [] := by
  obtain ⟨action, operands, rest, effect, -, -, -, -, ⟨hresults, hflushes⟩, rfl⟩ := step_eq_ok_pad h
  cases hop : site.instr.operation with
  | returnValue | returnVoid =>
    simp only [Instruction.yield, hop, List.length_eq_zero_iff] at hresults
    rw [hop] at hflushes
    simp [Frame.apply, hresults, hflushes, Operation.isExit]
  | _ =>
    rw [hop] at hreturn
    cases hreturn

/-- **A throw** leaves the exception that it takes, and nothing else. -/
theorem stack_of_throw (site : Site) (h : site.step locals frame = (locals', .ok frame'))
    (hthrow : site.instr.operation = .throw) :
    ∃ thrown, (site.pad frame.stack).head? = some thrown ∧ frame'.stack = [thrown] := by
  obtain ⟨action, operands, rest, effect, hresolve, hpad, hlength, hperform, -, rfl⟩ :=
    step_eq_ok_pad h
  obtain rfl : .unary .throw = action := by
    rw [Action.resolve, hthrow] at hresolve
    exact Except.ok.inj hresolve
  obtain ⟨thrown, rfl⟩ : ∃ thrown, operands = [thrown] := by
    rw [Instruction.demand, hthrow] at hlength
    exact List.length_eq_one_iff.mp hlength
  obtain rfl := Except.ok.inj (congrArg Prod.snd hperform)
  exact ⟨thrown, by rw [hpad]; rfl, rfl⟩

/-! ### Steps without recovery -/

/-- An instruction that is evaluated without recovery finds all its operands. -/
theorem pad_eq_self (h : (site.recovering false).step locals frame = (locals', .ok frame')) :
    site.pad frame.stack = frame.stack := by
  obtain ⟨action, operands, rest, effect, hresolve, htaken, -, -⟩ := step_eq_ok h
  obtain ⟨hstack, hlength⟩ := eq_append_of_takeOperands htaken
  have hdemand : site.instr.demand site.context.pool = action.wants.length :=
    (Action.demand_of_resolve hresolve).symm
  have hle : site.instr.demand site.context.pool ≤ frame.stack.length := by
    rw [hdemand, hstack, List.length_append]
    omega
  rw [pad, Nat.sub_eq_zero_of_le hle]
  rfl

/-- **The stack below the operands** of a step that does not leave the method: it stays as it is,
and the step does the same above any other stack. -/
theorem step_framed (h : (site.recovering false).step locals frame = (locals', .ok frame'))
    (hexit : site.instr.operation.isExit = false) :
    ∃ operands rest results, frame.stack = operands ++ rest ∧
      operands.length = site.instr.demand site.context.pool ∧ frame'.stack = results ++ rest ∧
      results.length = site.instr.yield site.context.pool ∧
      ∀ rest', (site.recovering false).step locals (frame.withStack (operands ++ rest')) =
        (locals', .ok (frame'.withStack (results ++ rest'))) := by
  obtain ⟨action, operands, rest, effect, hresolve, htaken, hperform, rfl⟩ := step_eq_ok h
  obtain ⟨hpad, hlength⟩ := operands_eq_pad hresolve htaken
  have hstack : frame.stack = operands ++ rest := (eq_append_of_takeOperands htaken).1
  obtain ⟨hresults, hflushes⟩ := yields_of_perform hresolve hlength hperform
  replace hflushes : effect.flushes = false := hflushes.trans hexit
  refine ⟨operands, rest, effect.results, hstack, hlength, ?_, hresults, fun rest' => ?_⟩
  · simp [Frame.apply, hflushes]
  · rw [step_of_resolve_ok (site.recovering false) hresolve]
    have htaken' : (site.recovering false).operands action (operands ++ rest') =
        .ok (operands, rest') := takeOperands_append htaken rest'
    rw [Frame.withStack, htaken', conclude, ← Frame.withStack, Action.perform_withStack, hperform]
    simp [Except.map, Frame.apply, hflushes, Frame.withStack]

/-- **An underflow** is found only where the stack is too short, and leaves the variables alone. -/
theorem step_eq_underflow {offset : Nat}
    (h : (site.recovering false).step locals frame = (locals', .error (.stackUnderflow offset))) :
    frame.stack.length < site.instr.demand site.context.pool ∧ locals' = locals := by
  cases hresolve : Action.resolve site.context.pool site.instr with
  | error e =>
    rw [step_of_resolve_error (site.recovering false) hresolve] at h
    obtain rfl := Except.error.inj (Prod.mk.inj h).2
    have hplain : NotUnderflow (.stackUnderflow offset) := Action.failsOnly_resolve _ _ _ hresolve
    exact absurd rfl (Error.notUnderflow_iff.mp hplain offset)
  | ok action =>
    rw [step_of_resolve_ok (site.recovering false) hresolve] at h
    cases htaken : (site.recovering false).operands action frame.stack with
    | error e =>
      rw [htaken] at h
      obtain ⟨rfl, he⟩ := Prod.mk.inj h
      obtain rfl := Except.error.inj he
      rw [← Action.demand_of_resolve hresolve]
      exact ⟨length_lt_of_takeOperands htaken, rfl⟩
    | ok taken =>
      rw [htaken] at h
      have hfails : FailsOnly NotUnderflow
          ((site.recovering false).conclude locals frame action (.ok taken)).2 :=
        failsOnly_conclude (Result.failsOnly_ok taken) locals frame
      rw [h] at hfails
      exact absurd rfl (Error.notUnderflow_iff.mp (Result.failsOnly_error.mp hfails) offset)

end Site

/-- **Steps keep the discipline of the stack**, for every instruction in every frame, evaluated
without recovery. If it does not leave the method, it takes as many operands off the stack as it
demands and puts as many results in their place as it yields; what lies below stays as it is, and
above any other stack the instruction gives the same results, lines and variables. A return leaves
an empty stack, and a throw the exception alone. No line is changed but those within reach. An
underflow means that the stack is shorter than the demand, and leaves the variables alone. -/
theorem steps_keep_discipline (site : Site) (locals : Locals) (frame : Frame) :
    (∀ locals' frame', (site.recovering false).step locals frame = (locals', .ok frame') →
      (site.instr.operation.isExit = false → ∃ operands rest results,
        frame.stack = operands ++ rest ∧
        operands.length = site.instr.demand site.context.pool ∧
        frame'.stack = results ++ rest ∧
        results.length = site.instr.yield site.context.pool ∧
        ∀ rest', (site.recovering false).step locals (frame.withStack (operands ++ rest')) =
          (locals', .ok (frame'.withStack (results ++ rest')))) ∧
      (site.instr.operation.isReturn = true → frame'.stack = []) ∧
      (site.instr.operation = .throw →
        ∃ thrown, frame.stack.head? = some thrown ∧ frame'.stack = [thrown]) ∧
      ∀ line, frame'.lines[line]? ≠ frame.lines[line]? → site.Reaches frame.stack line) ∧
    ∀ locals' offset,
      (site.recovering false).step locals frame = (locals', .error (.stackUnderflow offset)) →
        frame.stack.length < site.instr.demand site.context.pool ∧ locals' = locals := by
  refine ⟨fun locals' frame' h => ?_, fun locals' offset => Site.step_eq_underflow⟩
  refine ⟨Site.step_framed h, (site.recovering false).stack_of_isReturn h, fun hthrow => ?_,
    fun line hline => ?_⟩
  · rw [← Site.pad_eq_self h]
    exact (site.recovering false).stack_of_throw h hthrow
  · rw [← Site.pad_eq_self h]
    exact (site.recovering false).reaches_of_step h hline

/-- A duplicate of a new array, which gets a name, above another value; and one of nothing. -/
theorem steps_keep_discipline_of_new_array :
    let length : Instruction := ⟨0, 0, ⟨0x05, "iconst_2", .fixed [], .pushInt 2⟩, []⟩
    let newArray : Instruction := ⟨1, 1, ⟨0xbc, "newarray", .fixed [.byte], .newArray⟩, [10]⟩
    let dup : Instruction := ⟨3, 2, ⟨0x59, "dup", .fixed [], .dup⟩, []⟩
    let body := [length, newArray, dup]
    let site : Site := ⟨⟨"A", ⟨#[]⟩, ⟨body, [], [], [], []⟩, false⟩, body, 2, dup⟩
    let frame : Frame := ⟨[.ofCode 1 "new int[2]" "int[]", .ofNull 0], [none, none, none], 0⟩
    ∃ frame', (site.recovering false).step ⟨[], []⟩ frame = (⟨[], []⟩, .ok frame') ∧
      frame'.lines = [none, some "int[] obj0 = new int[2];", none] ∧ site.Reaches frame.stack 1 ∧
      (∃ operands rest results, frame.stack = operands ++ rest ∧ operands.length = 1 ∧
        frame'.stack = results ++ rest ∧ results.length = 2) ∧
      (site.recovering false).step ⟨[], []⟩ (frame.withStack []) =
        (⟨[], []⟩, .error (.stackUnderflow 3)) ∧
      0 < site.instr.demand site.context.pool := by
  intro length newArray dup body site frame
  have hstep : (site.recovering false).step ⟨[], []⟩ frame = (⟨[], []⟩, .ok
      ⟨[.ofVariable 1 "obj0" "int[]", .ofVariable 1 "obj0" "int[]", .ofNull 0],
        [none, some "int[] obj0 = new int[2];", none], 1⟩) := by
    decide +kernel
  have hempty : (site.recovering false).step ⟨[], []⟩ (frame.withStack []) =
      (⟨[], []⟩, .error (.stackUnderflow 3)) := by
    decide +kernel
  obtain ⟨hframed, -, -, hreach⟩ := (steps_keep_discipline site ⟨[], []⟩ frame).1 _ _ hstep
  obtain ⟨operands, rest, results, hstack, hoperands, hstack', hresults, -⟩ := hframed rfl
  exact ⟨_, hstep, rfl, hreach 1 (by simp [frame]),
    ⟨operands, rest, results, hstack, hoperands, hstack', hresults⟩, hempty,
    ((steps_keep_discipline site ⟨[], []⟩ (frame.withStack [])).2 _ _ hempty).1⟩

end JvmSource
