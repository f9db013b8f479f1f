import JvmSource.Proofs.Eval.Step

/-!
# How many values an action pushes

The number of values that an action takes is known before it is performed (`Action.demand`), and so
is the number of values that it pushes (`Action.yield`): neither depends on the operands, on the
variables or on the lines written so far. Only an exit from the method flushes what is left below
(`Action.givesOnly_perform_yields`). So the height of the stack behind a step follows from its
height before (`Site.length_stack_of_step`).

The count is given for each kind of action, and the lemmas follow these: an effect that only writes
its line, one that only pushes a value, and the few that do something else. A `throw` is the one
exit that leaves something, the exception itself, and a constructor call pushes nothing, whatever
its descriptor says.
-/

namespace JvmSource

open Result (GivesOnly)

/-! ### Counts -/

namespace Action

/-- The number of values that an access to a variable pushes. -/
def Access.yield : Access → Nat
  | load .. | loadReference _ => 1
  | increment .. => 0

/-- The number of values that an action without operands pushes. -/
def Nullary.yield : Nullary → Nat
  | push _ | newObject _ => 1
  | nothing | jump | returnVoid => 0

/-- The number of values that an action on the top of the stack pushes. A throw leaves the exception
there. -/
def Unary.yield : Unary → Nat
  | discard | testZero _ | testNull _ | lookupSwitch | returnValue | putStatic _ => 0
  | dup => 2
  | _ => 1

/-- The number of values that an action on the two topmost values pushes. -/
def Binary.yield : Binary → Nat
  | test _ | putField _ => 0
  | swap => 2
  | dupX1 => 3
  | _ => 1

/-- The number of values that an action on the three topmost values pushes. -/
def Ternary.yield : Ternary → Nat
  | arrayStore => 0
  | dupX2 => 4

/-- The number of values that a call or an allocation pushes. A constructor gives no value, whatever
its descriptor says. -/
def Variadic.yield : Variadic → Nat
  | callOn method => if method.name = "<init>" ∨ method.isVoid then 0 else 1
  | callStatic method | callDynamic method => if method.isVoid then 0 else 1
  | newNestedArray .. => 1

/-- The number of values that an action pushes. -/
def yield : Action → Nat
  | access a => a.yield
  | assign .. => 0
  | nullary a => a.yield
  | unary a => a.yield
  | binary a => a.yield
  | ternary a => a.yield
  | variadic a => a.yield

/-- Whether an action leaves the method. -/
def isExit : Action → Bool
  | nullary .returnVoid | unary .returnValue | unary .throw => true
  | _ => false

/-- The exits are the actions of returns and throws. -/
theorem isExit_of_resolve {pool : Pool} {instr : Instruction} {action : Action}
    (h : resolve pool instr = .ok action) : action.isExit = instr.operation.isExit := by
  have hgives : GivesOnly (fun action => action.isExit = instr.operation.isExit)
      (resolve pool instr) := by
    rw [resolve]
    split <;> simp_all [isExit, Operation.isExit]
  exact hgives action h

/-- A throw leaves the exception on the stack, a return nothing. -/
theorem yield_of_isExit {pool : Pool} {instr : Instruction} {action : Action}
    (h : resolve pool instr = .ok action) (hexit : instr.operation.isExit = true) :
    action.yield = if instr.operation == .throw then 1 else 0 := by
  rw [resolve] at h
  cases hop : instr.operation with
  | returnValue | returnVoid | throw =>
    rw [hop] at h
    cases h
    rfl
  | _ =>
    rw [hop] at hexit
    cases hexit

end Action

/-! ### Effects -/

/-- The effect pushes `count` values, and flushes the stack or not. -/
def Effect.Yields (count : Nat) (flushes : Bool) (effect : Effect) : Prop :=
  effect.results.length = count ∧ effect.flushes = flushes

namespace Action

variable {site : Site} {frame : Frame} {locals : Locals} {operands : List Value}

@[simp] theorem yields_write (line : String) : (site.write line).Yields 0 false :=
  ⟨rfl, rfl⟩

@[simp] theorem yields_push (text type : String) : (site.push text type).Yields 1 false :=
  ⟨rfl, rfl⟩

theorem yields_callEffect (site : Site) (method : MethodRef) (call : String) :
    (callEffect site method call).Yields (if method.isVoid then 0 else 1) false := by
  rw [callEffect]
  split <;> simp

/-- A `dup` pushes two values, whether it names an array or not. -/
theorem yields_dupEffect (top : Value) : (dupEffect site frame top).Yields 2 false := by
  rw [dupEffect]
  dsimp only
  split <;> exact ⟨rfl, rfl⟩

theorem givesOnly_constructorEffect_yields (method : MethodRef) (receiver : Value)
    (arguments : String) :
    GivesOnly (Effect.Yields 0 false) (constructorEffect site frame method receiver arguments) := by
  have hnothing : Effect.Yields 0 false {} := ⟨rfl, rfl⟩
  rw [constructorEffect]
  split
  · exact Result.givesOnly_ok.mpr ⟨rfl, rfl⟩
  · split
    · split
      · simp
      · split <;> simp [hnothing]
    · simp [Site.misuse]

theorem Access.givesOnly_effect_yields (a : Access) :
    GivesOnly (Effect.Yields a.yield false) (a.effect site locals).2 := by
  cases a with
  | load type slot => exact Result.givesOnly_ok.mpr ⟨rfl, rfl⟩
  | loadReference slot =>
    exact Result.givesOnly_bind.mpr fun v _ => Result.givesOnly_ok.mpr ⟨rfl, rfl⟩
  | increment slot delta => simp [effect, yield]

theorem Nullary.givesOnly_effect_yields (a : Nullary) :
    GivesOnly (Effect.Yields a.yield (nullary a).isExit) (a.effect site frame) := by
  cases a with
  | jump => simp [effect, yield, isExit]
  | _ => exact Result.givesOnly_ok.mpr ⟨rfl, rfl⟩

theorem Unary.givesOnly_effect_yields (a : Unary) (value : Value) :
    GivesOnly (Effect.Yields a.yield (unary a).isExit) (a.effect site frame value) := by
  cases a with
  | dup => exact Result.givesOnly_ok.mpr (yields_dupEffect value)
  | newArray code =>
    rw [effect]
    split <;> simp [yield, isExit, Site.misuse]
  | returnValue | throw => exact Result.givesOnly_ok.mpr ⟨rfl, rfl⟩
  | _ => simp [effect, yield, isExit]

theorem Binary.givesOnly_effect_yields (a : Binary) (top second : Value) :
    GivesOnly (Effect.Yields a.yield false) (a.effect site top second) := by
  cases a with
  | arrayLoad element =>
    simp only [effect]
    split <;> simp [yield]
  | dupX1 | swap => exact Result.givesOnly_ok.mpr ⟨rfl, rfl⟩
  | _ => simp [effect, yield]

theorem Ternary.givesOnly_effect_yields (a : Ternary) (top second third : Value) :
    GivesOnly (Effect.Yields a.yield false) (a.effect site top second third) := by
  cases a with
  | arrayStore => simp [effect, yield]
  | dupX2 => exact Result.givesOnly_ok.mpr ⟨rfl, rfl⟩

/-- A call on an object finds its receiver below the arguments. -/
theorem Variadic.givesOnly_effect_yields (a : Variadic)
    (hoperands : operands.length = (variadic a).demand) :
    GivesOnly (Effect.Yields a.yield false) (a.effect site frame operands) := by
  cases a with
  | callOn method =>
    have hlt : method.type.arguments.length < operands.length := by
      simp [hoperands, demand, wants]
    obtain ⟨receiver, hreceiver⟩ :
        ∃ receiver, operands[method.type.arguments.length]? = some receiver :=
      ⟨_, List.getElem?_eq_getElem hlt⟩
    refine Result.givesOnly_bind.mpr fun arguments _ => ?_
    rw [hreceiver]
    dsimp only [yield]
    by_cases hinit : method.name = "<init>"
    · rw [if_pos hinit, if_pos (.inl hinit)]
      exact givesOnly_constructorEffect_yields method receiver arguments
    · rw [if_neg hinit, Result.givesOnly_pure]
      simpa [hinit] using yields_callEffect site method _
  | callStatic method | callDynamic method => simp [effect, yield, yields_callEffect]
  | newNestedArray type sized => simp [effect, yield]

/-- **An action pushes as many values as its count says**, and flushes the stack exactly if it is an
exit. -/
theorem givesOnly_perform_yields (action : Action) (hoperands : operands.length = action.demand) :
    GivesOnly (Effect.Yields action.yield action.isExit)
      (action.perform site frame locals operands).2 := by
  cases action with
  | access a =>
    obtain rfl := List.length_eq_zero_iff.mp hoperands
    exact a.givesOnly_effect_yields
  | assign type slot =>
    obtain ⟨value, rfl⟩ := List.length_eq_one_iff.mp hoperands
    simp [perform, assignEffect, yield, isExit]
  | nullary a =>
    obtain rfl := List.length_eq_zero_iff.mp hoperands
    exact a.givesOnly_effect_yields
  | unary a =>
    obtain ⟨value, rfl⟩ := List.length_eq_one_iff.mp hoperands
    exact a.givesOnly_effect_yields value
  | binary a =>
    obtain ⟨top, second, rfl⟩ := List.length_eq_two.mp hoperands
    exact a.givesOnly_effect_yields top second
  | ternary a =>
    obtain ⟨top, second, third, rfl⟩ := List.length_eq_three.mp hoperands
    exact a.givesOnly_effect_yields top second third
  | variadic a => exact a.givesOnly_effect_yields hoperands

end Action

/-! ### Steps -/

namespace Site

variable {site : Site} {locals locals' : Locals} {frame frame' : Frame} {action : Action}

/-- **The height of the stack behind a step** that finds its operands: an exit leaves only what it
pushes, other actions add that to what is left below their operands. -/
theorem length_stack_of_step (h : site.step locals frame = (locals', .ok frame'))
    (hresolve : Action.resolve site.context.pool site.instr = .ok action)
    (hdemand : action.demand ≤ frame.stack.length) :
    frame'.stack.length =
      (if action.isExit then 0 else frame.stack.length - action.demand) + action.yield := by
  obtain ⟨action', operands, rest, effect, hresolve', hoperands, hperform, rfl⟩ := step_eq_ok h
  obtain rfl : action = action' := Except.ok.inj (hresolve.symm.trans hresolve')
  obtain ⟨missing, happend, hlength, hempty⟩ := operands_eq_ok hoperands
  have hrest : rest.length = frame.stack.length - action.demand := by
    have hlengths := congrArg List.length happend
    rw [List.length_append, List.length_append, List.length_replicate] at hlengths
    rcases hempty with rfl | rfl
    · omega
    · rw [List.length_nil] at hlengths ⊢
      omega
  obtain ⟨hresults, hflushes⟩ :=
    action.givesOnly_perform_yields hlength effect (congrArg Prod.snd hperform)
  rw [Frame.apply, hflushes, List.length_append, hresults, Nat.add_comm]
  split
  · rfl
  · rw [hrest]

end Site

end JvmSource
