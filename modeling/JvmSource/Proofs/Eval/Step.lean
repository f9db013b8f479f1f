import JvmSource.Proofs.Underflow

/-!
# Steps and runs of the evaluation

A step is opened once: it works out an action, takes the operands of the action off the stack, and
applies the effect of the action to what is left (`Site.step_eq_ok`). What is taken is the top of
the stack, below placeholders for what is missing (`Site.operands_eq_ok`). The rest of a step, once
its operands have been taken, is a function of its own (`Site.conclude`), so that steps can be
compared which find their operands in different ways.

A run is a sequence of steps. It is taken apart from both ends (`Context.runFrom_cons_eq_ok`,
`Context.runFrom_append_eq_ok`, `Context.runFrom_concat`), and what every step keeps holds at its
end (`Context.runFrom_induction`). A run that fails does so at one instruction, behind a run that
does not (`Context.exists_of_runFrom_eq_error`); so a block fails as one of its instructions does,
and the blocks of a method as one of them does.

Two invariants of all frames are proved here. Every value that an action pushes comes from its
instruction or from where one of its operands does (`Action.givesOnly_perform`); so every value on
the stack was pushed by an instruction of the block that has been evaluated by then, and there is a
line for each instruction (`Frame.Within`).
-/

namespace JvmSource

open Result (FailsOnly GivesOnly)
open Error (NotUnderflow)

theorem Error.notUnderflow_iff {e : Error} :
    e.NotUnderflow ↔ ∀ offset, e ≠ .stackUnderflow offset := by
  cases e <;> simp [NotUnderflow, isUnderflow]

/-- A computation that never finds an underflow. -/
theorem Result.failsOnly_notUnderflow_iff {α : Type} {x : Result α} :
    FailsOnly NotUnderflow x ↔ ∀ offset, x ≠ .error (.stackUnderflow offset) := by
  constructor
  · intro h offset heq
    exact Error.notUnderflow_iff.mp (h _ heq) offset rfl
  · intro h e he
    exact Error.notUnderflow_iff.mpr fun offset heq => h offset (heq ▸ he)

/-! ### Operands -/

/-- A stack that is high enough does not run dry. -/
theorem failsOnly_takeOperands {offset : Nat} {wants : List (Option String)} {stack : List Value}
    (h : wants.length ≤ stack.length) : FailsOnly NotUnderflow (takeOperands offset wants stack) :=
  failsOnly_takeOperands_of_underflow fun hlt => absurd hlt (Nat.not_lt.mpr h)

/-- Operands run dry only where the stack is lower than what is wanted. -/
theorem length_lt_of_takeOperands {offset offset' : Nat} {wants : List (Option String)}
    {stack : List Value} (h : takeOperands offset wants stack = .error (.stackUnderflow offset')) :
    stack.length < wants.length := by
  by_contra hle
  exact Result.failsOnly_notUnderflow_iff.mp
    (failsOnly_takeOperands (Nat.le_of_not_lt hle)) offset' h

/-- Operands are taken off the stack below the placeholders for those that are missing; there are no
more placeholders than that. -/
theorem eq_append_of_takeRecovering {position offset tries : Nat} {wants : List (Option String)}
    {stack operands rest : List Value}
    (h : takeRecovering position offset wants tries stack = .ok (operands, rest)) :
    ∃ missing, List.replicate missing (placeholder position) ++ stack = operands ++ rest ∧
      operands.length = wants.length ∧ (missing = 0 ∨ rest = []) := by
  induction tries generalizing stack with
  | zero =>
    obtain ⟨happend, hlength⟩ := eq_append_of_takeOperands h
    exact ⟨0, happend, hlength, .inl rfl⟩
  | succ tries ih =>
    rw [takeRecovering] at h
    split at h
    · next offset' hunderflow =>
      obtain ⟨missing, happend, hlength, hempty⟩ := ih h
      refine ⟨missing + 1, ?_, hlength, .inr ?_⟩
      · rw [← happend, List.replicate_succ', List.append_assoc, List.singleton_append]
      · rcases hempty with rfl | hempty
        · -- the stack was too short before the last placeholder
          have hshort := length_lt_of_takeOperands hunderflow
          have hlengths := congrArg List.length happend
          simp only [List.replicate_zero, List.nil_append, List.length_cons,
            List.length_append] at hlengths
          exact List.eq_nil_of_length_eq_zero (by omega)
        · exact hempty
    · obtain ⟨happend, hlength⟩ := eq_append_of_takeOperands h
      exact ⟨0, happend, hlength, .inl rfl⟩

namespace Site

variable {site : Site} {locals locals' : Locals} {frame frame' : Frame}

/-- The operands of an action, with placeholders above the stack for those that are missing. If any
is missing, nothing is left. -/
theorem operands_eq_ok {action : Action} {stack operands rest : List Value}
    (h : site.operands action stack = .ok (operands, rest)) :
    ∃ missing, List.replicate missing (placeholder site.position) ++ stack = operands ++ rest ∧
      operands.length = action.demand ∧ (missing = 0 ∨ rest = []) := by
  rw [Site.operands] at h
  split at h
  · exact eq_append_of_takeRecovering h
  · obtain ⟨happend, hlength⟩ := eq_append_of_takeOperands h
    exact ⟨0, happend, hlength, .inl rfl⟩

/-! ### One step -/

/-- The rest of a step, once its operands have been taken. -/
def conclude (site : Site) (locals : Locals) (frame : Frame) (action : Action) :
    Result (List Value × List Value) → Locals × Result Frame
  | .error e => (locals, .error e)
  | .ok (operands, rest) =>
    ((action.perform site frame locals operands).1,
      (action.perform site frame locals operands).2.map (frame.apply rest))

/-- A step fails as its action does, if that cannot be worked out. -/
theorem step_of_resolve_error (site : Site) {e : Error}
    (h : Action.resolve site.context.pool site.instr = .error e) (locals : Locals)
    (frame : Frame) : site.step locals frame = (locals, .error e) := by
  rw [step, h]

/-- A step takes the operands of its action, and then concludes with them. -/
theorem step_of_resolve_ok (site : Site) {action : Action}
    (h : Action.resolve site.context.pool site.instr = .ok action) (locals : Locals)
    (frame : Frame) :
    site.step locals frame =
      site.conclude locals frame action (site.operands action frame.stack) := by
  rw [step, h]
  dsimp only
  split
  · next he => rw [he, conclude]
  · next hoperands =>
    rw [hoperands, conclude]
    split <;> simp_all [Except.map]

/-- **A step** works out an action, takes its operands and applies its effect to what is left. -/
theorem step_eq_ok (h : site.step locals frame = (locals', .ok frame')) :
    ∃ action operands rest effect, Action.resolve site.context.pool site.instr = .ok action ∧
      site.operands action frame.stack = .ok (operands, rest) ∧
      action.perform site frame locals operands = (locals', .ok effect) ∧
      frame' = frame.apply rest effect := by
  cases hresolve : Action.resolve site.context.pool site.instr with
  | error e =>
    rw [step_of_resolve_error site hresolve] at h
    cases h
  | ok action =>
    rw [step_of_resolve_ok site hresolve] at h
    cases hoperands : site.operands action frame.stack with
    | error e =>
      rw [hoperands, conclude] at h
      cases h
    | ok taken =>
      rw [hoperands, conclude] at h
      obtain ⟨rfl, hmap⟩ := Prod.mk.inj h
      obtain ⟨effect, heffect, rfl⟩ := Result.map_eq_ok.mp hmap
      exact ⟨action, taken.1, taken.2, effect, rfl, hoperands, Prod.ext rfl heffect, rfl⟩

end Site

/-! ### Runs -/

namespace Context

variable {ctx : Context} {body : List Instruction} {position : Nat} {locals locals' : Locals}
  {frame frame' : Frame}

/-- A run of one instruction and the others. -/
theorem runFrom_cons_eq_ok {instr : Instruction} {rest : List Instruction}
    (h : ctx.runFrom body position (instr :: rest) locals frame = (locals', .ok frame')) :
    ∃ locals₁ frame₁,
      Site.step { context := ctx, body, position, instr } locals frame = (locals₁, .ok frame₁) ∧
      ctx.runFrom body (position + 1) rest locals₁ frame₁ = (locals', .ok frame') := by
  rw [runFrom] at h
  split at h
  · cases h
  · next locals₁ frame₁ hstep => exact ⟨locals₁, frame₁, hstep, h⟩

/-- A run in two parts. -/
theorem runFrom_append_eq_ok {xs ys : List Instruction}
    (h : ctx.runFrom body position (xs ++ ys) locals frame = (locals', .ok frame')) :
    ∃ locals₁ frame₁, ctx.runFrom body position xs locals frame = (locals₁, .ok frame₁) ∧
      ctx.runFrom body (position + xs.length) ys locals₁ frame₁ = (locals', .ok frame') := by
  induction xs generalizing position locals frame with
  | nil => exact ⟨locals, frame, rfl, h⟩
  | cons instr xs ih =>
    obtain ⟨locals₁, frame₁, hstep, hrun⟩ := runFrom_cons_eq_ok h
    obtain ⟨locals₂, frame₂, hfront, hback⟩ := ih hrun
    refine ⟨locals₂, frame₂, ?_, ?_⟩
    · rw [runFrom, hstep]
      exact hfront
    · rwa [List.length_cons, Nat.add_comm xs.length, ← Nat.add_assoc]

/-- A run and one more instruction. -/
theorem runFrom_concat {front : List Instruction} {instr : Instruction}
    {locals₁ : Locals} {frame₁ : Frame}
    (hfront : ctx.runFrom body position front locals frame = (locals₁, .ok frame₁))
    (hstep : Site.step ⟨ctx, body, position + front.length, instr⟩ locals₁ frame₁ =
      (locals', .ok frame')) :
    ctx.runFrom body position (front ++ [instr]) locals frame = (locals', .ok frame') := by
  induction front generalizing position locals frame with
  | nil =>
    cases hfront
    rw [List.length_nil, Nat.add_zero] at hstep
    rw [List.nil_append, runFrom, hstep]
    rfl
  | cons a front ih =>
    obtain ⟨locals₀, frame₀, ha, hfront⟩ := runFrom_cons_eq_ok hfront
    rw [List.cons_append, runFrom, ha]
    refine ih hfront ?_
    rwa [List.length_cons, Nat.add_comm front.length, ← Nat.add_assoc] at hstep

/-- A run fails at one instruction, behind instructions that could be evaluated. -/
theorem exists_of_runFrom_eq_error {rest : List Instruction} {e : Error}
    (h : ctx.runFrom body position rest locals frame = (locals', .error e)) :
    ∃ before instr after locals₁ frame₁, rest = before ++ instr :: after ∧
      ctx.runFrom body position before locals frame = (locals₁, .ok frame₁) ∧
      Site.step { context := ctx, body, position := position + before.length, instr } locals₁
        frame₁ = (locals', .error e) := by
  induction rest generalizing position locals frame with
  | nil => cases h
  | cons instr rest ih =>
    rw [runFrom] at h
    split at h
    · next hstep =>
      cases h
      exact ⟨[], instr, rest, locals, frame, rfl, rfl, hstep⟩
    · next hstep =>
      obtain ⟨before, instr', after, locals₁, frame₁, rfl, hbefore, hfails⟩ := ih h
      refine ⟨instr :: before, instr', after, locals₁, frame₁, rfl, ?_, ?_⟩
      · rw [runFrom, hstep]
        exact hbefore
      · rwa [List.length_cons, Nat.add_comm before.length, ← Nat.add_assoc]

/-- **Induction over a run**: what every step keeps holds at its end. -/
theorem runFrom_induction {motive : Nat → Locals → Frame → Prop}
    (step : ∀ {position instr locals frame locals' frame'}, motive position locals frame →
      Site.step { context := ctx, body, position, instr } locals frame = (locals', .ok frame') →
      motive (position + 1) locals' frame')
    {rest : List Instruction}
    (h : ctx.runFrom body position rest locals frame = (locals', .ok frame'))
    (hmotive : motive position locals frame) : motive (position + rest.length) locals' frame' := by
  induction rest generalizing position locals frame with
  | nil =>
    cases h
    exact hmotive
  | cons instr rest ih =>
    obtain ⟨locals₁, frame₁, hstep, hrun⟩ := runFrom_cons_eq_ok h
    have hend := ih hrun (step hmotive hstep)
    rwa [Nat.add_right_comm, Nat.add_assoc] at hend

/-- The lines of a kept block are those of its evaluation. -/
theorem getElem?_evaluateAll {blocks : List (Block × Bool)} {state : MethodState}
    {lines : List (List (Option String))} {number : Nat} {b : Block}
    (h : ctx.evaluateAll blocks state = .ok lines) (hb : blocks[number]? = some (b, true)) :
    ∃ before after ls, ctx.evaluate b before = (after, .ok ls) ∧ lines[number]? = some ls := by
  induction blocks generalizing state lines number with
  | nil => simp at hb
  | cons pair rest ih =>
    rcases pair with ⟨c, _ | _⟩
    · obtain ⟨others, hrest, rfl⟩ := Result.map_eq_ok.mp h
      cases number with
      | zero => simp at hb
      | succ number =>
        simp only [List.getElem?_cons_succ] at hb ⊢
        exact ih hrest hb
    · rw [evaluateAll] at h
      split at h
      · cases h
      · next after ls hls =>
        obtain ⟨others, hrest, rfl⟩ := Result.map_eq_ok.mp h
        cases number with
        | zero =>
          obtain rfl : c = b := by simpa using hb
          exact ⟨state, after, ls, hls, rfl⟩
        | succ number =>
          simp only [List.getElem?_cons_succ] at hb ⊢
          exact ih hrest hb

end Context

/-! ### Failures of a run -/

section Failures

variable {p : Error → Prop} [Error.Lenient p]

/-- A step fails with a plain error, or for want of its operands or of the label of its target. -/
theorem Site.failsOnly_step_of_operands {site : Site} {frame : Frame}
    (hlabel : site.instr.operation.isBranch = true → FailsOnly p site.targetLabel)
    (hoperands : ∀ action, Action.resolve site.context.pool site.instr = .ok action →
      FailsOnly p (site.operands action frame.stack)) (locals : Locals) :
    FailsOnly p (site.step locals frame).2 := by
  cases hresolve : Action.resolve site.context.pool site.instr with
  | error e =>
    rw [step_of_resolve_error site hresolve]
    exact Result.failsOnly_error.mpr (Action.failsOnly_resolve _ _ e hresolve)
  | ok action =>
    rw [step_of_resolve_ok site hresolve]
    have htaken := hoperands action hresolve
    cases htake : site.operands action frame.stack with
    | error e => exact Result.failsOnly_error.mpr (htaken e htake)
    | ok taken =>
      refine Result.failsOnly_map.mpr ?_
      exact Action.failsOnly_perform_of_targetLabel site frame
        (fun hbranch => hlabel (Action.isBranch_of_resolve hresolve hbranch)) locals taken.1

variable {ctx : Context}

omit [Error.Lenient p] in
/-- A block fails as the instruction does at which its run comes to a halt. -/
theorem Context.failsOnly_evaluate_of_step {b : Block} {state : MethodState}
    (h : ∀ front instr behind locals frame, b.body ctx.graph.code = front ++ instr :: behind →
      ctx.runFrom (b.body ctx.graph.code) 0 front state.locals
        (entryFrame b (b.body ctx.graph.code).length state.objects) = (locals, .ok frame) →
      FailsOnly p
        (Site.step ⟨ctx, b.body ctx.graph.code, 0 + front.length, instr⟩ locals frame).2) :
    FailsOnly p (ctx.evaluate b state).2 := by
  simp only [evaluate]
  split
  · next locals e hrun =>
    obtain ⟨front, instr, behind, locals₁, frame, hbody, hfront, hstep⟩ :=
      exists_of_runFrom_eq_error hrun
    have hfails := h front instr behind locals₁ frame hbody hfront
    rw [hstep] at hfails
    exact Result.failsOnly_error.mpr (Result.failsOnly_error.mp hfails)
  · exact Result.failsOnly_ok _

omit [Error.Lenient p] in
/-- Blocks fail as one of them does. -/
theorem Context.failsOnly_evaluateAll_of_evaluate {blocks : List (Block × Bool)}
    (h : ∀ q ∈ blocks, ∀ state, FailsOnly p (ctx.evaluate q.1 state).2) (state : MethodState) :
    FailsOnly p (ctx.evaluateAll blocks state) := by
  fun_induction evaluateAll ctx blocks state with
  | case1 => exact Result.failsOnly_ok _
  | case2 block rest state ih => simpa using ih (List.forall_mem_cons.mp h).2
  | case3 block rest state state' e he =>
    have hblock := (List.forall_mem_cons.mp h).1 state
    exact Result.failsOnly_error.mpr (hblock e (congrArg Prod.snd he))
  | case4 block rest state state' lines hlines ih => simpa using ih (List.forall_mem_cons.mp h).2

end Failures

/-! ### Where values come from -/

/-- Every value that the effect pushes comes from the instruction itself, or from where one of its
operands does. -/
def Effect.ComesFrom (position : Nat) (operands : List Value) (effect : Effect) : Prop :=
  ∀ v ∈ effect.results, v.origin = position ∨ ∃ w ∈ operands, v.origin = w.origin

namespace Action

variable {site : Site} {frame : Frame} {locals : Locals} {operands : List Value}

@[simp] theorem comesFrom_write (line : String) :
    (site.write line).ComesFrom site.position operands := by
  simp [Effect.ComesFrom, Site.write]

@[simp] theorem comesFrom_push (text type : String) :
    (site.push text type).ComesFrom site.position operands := by
  simp [Effect.ComesFrom, Site.push, Value.ofCode]

@[simp] theorem comesFrom_callEffect (method : MethodRef) (call : String) :
    (callEffect site method call).ComesFrom site.position operands := by
  rw [callEffect]
  split <;> simp

theorem givesOnly_constructorEffect (method : MethodRef) (receiver : Value) (arguments : String) :
    GivesOnly (Effect.ComesFrom site.position operands)
      (constructorEffect site frame method receiver arguments) := by
  rw [constructorEffect]
  split
  · simp [Effect.ComesFrom]
  · split
    · split
      · simp
      · split
        · simp [Effect.ComesFrom]
        · simp
    · simp [Site.misuse]

theorem comesFrom_dupEffect (top : Value) :
    (dupEffect site frame top).ComesFrom site.position [top] := by
  rw [dupEffect]
  dsimp only
  split <;> simp [Effect.ComesFrom, Value.ofVariable]

theorem Unary.givesOnly_effect (value : Value) (a : Unary) :
    GivesOnly (Effect.ComesFrom site.position [value]) (a.effect site frame value) := by
  cases a with
  | dup => exact Result.givesOnly_ok.mpr (comesFrom_dupEffect value)
  | newArray code =>
    rw [effect]
    split <;> simp [Site.misuse]
  | returnValue | throw => simp [effect, Effect.ComesFrom, Site.write]
  | _ => simp [effect]

theorem Binary.givesOnly_effect (top second : Value) (a : Binary) :
    GivesOnly (Effect.ComesFrom site.position [top, second]) (a.effect site top second) := by
  cases a with
  | arrayLoad element =>
    simp only [effect]
    split <;> simp
  | dupX1 | swap => simp [effect, Effect.ComesFrom]
  | _ => simp [effect]

theorem Ternary.givesOnly_effect (top second third : Value) (a : Ternary) :
    GivesOnly (Effect.ComesFrom site.position [top, second, third])
      (a.effect site top second third) := by
  cases a with
  | arrayStore => simp [effect]
  | dupX2 => simp [effect, Effect.ComesFrom]

theorem Variadic.givesOnly_effect (a : Variadic) :
    GivesOnly (Effect.ComesFrom site.position operands) (a.effect site frame operands) := by
  cases a with
  | callOn method =>
    refine Result.givesOnly_bind.mpr fun arguments _ => ?_
    split
    · simp [Effect.ComesFrom]
    · next receiver _ =>
      split
      · exact givesOnly_constructorEffect method receiver arguments
      · simp
  | _ => simp [effect]

/-- **The values that an action pushes** come from the instruction or from its operands. -/
theorem givesOnly_perform (action : Action) :
    GivesOnly (Effect.ComesFrom site.position operands)
      (action.perform site frame locals operands).2 := by
  unfold perform
  split
  · next a => cases a <;> simp [Access.effect, Effect.ComesFrom, Site.write, Value.ofVariable]
  · simp [assignEffect]
  · next a => cases a <;> simp [Nullary.effect, Effect.ComesFrom, Site.write, Value.ofVariable]
  · next a value => exact a.givesOnly_effect value
  · next a top second => exact a.givesOnly_effect top second
  · next a top second third => exact a.givesOnly_effect top second third
  · next a => exact a.givesOnly_effect
  · simp [Effect.ComesFrom]

end Action

/-! ### Frames of a block -/

/-- Texts that are added to the lines of some values leave the other lines as they are. -/
theorem Frame.getElem?_foldl_appendLine {values : List Value} {line : Nat}
    (h : ∀ v ∈ values, v.origin ≠ line) (text : Value → String) (separator : String)
    (lines : List (Option String)) :
    (values.foldl (fun lines v => appendLine lines v.origin (text v) separator) lines)[line]? =
      lines[line]? := by
  induction values generalizing lines with
  | nil => rfl
  | cons v values ih =>
    obtain ⟨hv, hvalues⟩ := List.forall_mem_cons.mp h
    rw [List.foldl_cons, ih hvalues, appendLine, List.getElem?_modify]
    simp [hv]

/-- A frame of a block of `size` instructions in front of the instruction at `position`. The first
instruction may find a caught exception, which counts as its own. -/
structure Frame.Within (size position : Nat) (frame : Frame) : Prop where
  length_lines : frame.lines.length = size
  origin_lt : ∀ v ∈ frame.stack, v.origin < max 1 position

/-- A block begins with nothing on the stack but the caught exception, and with a blank line for
each instruction. -/
theorem Context.within_entryFrame (block : Block) (size objects : Nat) :
    (entryFrame block size objects).Within size 0 where
  length_lines := List.length_replicate
  origin_lt := by
    intro v hv
    simp only [entryFrame, Option.mem_toList, Option.map_eq_some_iff] at hv
    obtain ⟨type, -, rfl⟩ := hv
    exact Nat.lt_of_lt_of_le Nat.zero_lt_one (Nat.le_max_left 1 0)

/-- **A value behind a step** comes from its instruction, or from where a value in front of it
does. -/
theorem Site.origin_of_step {site : Site} {locals locals' : Locals} {frame frame' : Frame}
    (h : site.step locals frame = (locals', .ok frame')) {v : Value} (hv : v ∈ frame'.stack) :
    v.origin = site.position ∨ ∃ w ∈ frame.stack, v.origin = w.origin := by
  obtain ⟨action, operands, rest, effect, -, hoperands, hperform, rfl⟩ := Site.step_eq_ok h
  obtain ⟨missing, happend, -, -⟩ := Site.operands_eq_ok hoperands
  have hbefore {w : Value} (hw : w ∈ operands ++ rest) :
      w.origin = site.position ∨ ∃ u ∈ frame.stack, w.origin = u.origin := by
    rw [← happend, List.mem_append] at hw
    rcases hw with hw | hw
    · rw [List.eq_of_mem_replicate hw]
      exact .inl rfl
    · exact .inr ⟨w, hw, rfl⟩
  -- a value of the new stack is a result, or was below the operands
  rcases List.mem_append.mp hv with hv | hv
  · have hcomes := action.givesOnly_perform effect (congrArg Prod.snd hperform) v hv
    rcases hcomes with horigin | ⟨w, hw, horigin⟩
    · exact .inl horigin
    · rw [horigin]
      exact hbefore (List.mem_append_left _ hw)
  · refine hbefore (List.mem_append_right _ ?_)
    split at hv
    · cases hv
    · exact hv

/-- A step leaves values that were pushed by its instruction or before. -/
theorem Frame.Within.step {size : Nat} {site : Site} {locals locals' : Locals}
    {frame frame' : Frame} (hframe : frame.Within size site.position)
    (h : site.step locals frame = (locals', .ok frame')) :
    frame'.Within size (site.position + 1) where
  length_lines := by
    obtain ⟨-, -, rest, effect, -, -, -, rfl⟩ := Site.step_eq_ok h
    exact (frame.length_lines_apply rest effect).trans hframe.length_lines
  origin_lt v hv := by
    rw [Nat.max_eq_right (Nat.le_add_left 1 _)]
    rcases Site.origin_of_step h hv with horigin | ⟨w, hw, horigin⟩
    · omega
    · have := hframe.origin_lt w hw
      omega

/-- **The frames of a run** hold only values that were pushed by then. -/
theorem Frame.Within.runFrom {size position : Nat} {ctx : Context}
    {body rest : List Instruction} {locals locals' : Locals} {frame frame' : Frame}
    (hframe : frame.Within size position)
    (h : ctx.runFrom body position rest locals frame = (locals', .ok frame')) :
    frame'.Within size (position + rest.length) :=
  Context.runFrom_induction (motive := fun position _ frame => frame.Within size position)
    (fun hframe hstep => hframe.step hstep) h hframe

end JvmSource
