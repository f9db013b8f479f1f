import JvmSource.Proofs.Eval.Step

/-!
# With and without recovery

Evaluation can deal with a missing operand in two ways: it fails, or it goes on with a placeholder.
The choice is read only where operands are taken off the stack, so the two ways differ in nothing
but underflows.

What is carried through all passes is a relation between a computation without recovery and the same
one with it (`Recovers`): with recovery there is no underflow, and if there is none without it
either, the two are the same. This goes from the operands of one instruction (`Site.recovers_step`)
over the instructions of a block (`Context.recovers_runFrom`) and the blocks of a method
(`Context.evaluateAll_recovering`) to the text of a method (`underflow_modes_agree`). The variables
that an instruction leaves behind go along, since the next block starts from them.

Where an underflow occurs without recovery, the relation says only that it does not occur with it.
That is enough, since the computation without recovery is over then: the next block is not
evaluated.
-/

namespace JvmSource

open Result (FailsOnly)
open Error (NotUnderflow)

/-! ### Operands -/

/-- As many tries as there are operands are enough. -/
theorem failsOnly_takeRecovering {position offset tries : Nat} {wants : List (Option String)}
    {stack : List Value} (h : wants.length ≤ stack.length + tries) :
    FailsOnly NotUnderflow (takeRecovering position offset wants tries stack) := by
  induction tries generalizing stack with
  | zero => exact failsOnly_takeOperands h
  | succ tries ih =>
    rw [takeRecovering]
    split
    · exact ih (by rw [List.length_cons]; omega)
    · next hother => exact Result.failsOnly_notUnderflow_iff.mpr hother

/-- Operands that are there are taken at the first try. -/
theorem takeRecovering_eq {offset : Nat} {wants : List (Option String)} {stack : List Value}
    (h : FailsOnly NotUnderflow (takeOperands offset wants stack)) (position tries : Nat) :
    takeRecovering position offset wants tries stack = takeOperands offset wants stack := by
  cases tries with
  | zero => rfl
  | succ tries =>
    rw [takeRecovering]
    split
    · next offset hunderflow =>
      exact absurd hunderflow (Result.failsOnly_notUnderflow_iff.mp h offset)
    · rfl

/-! ### One instruction -/

/-- The context with recovery on or off. -/
def Context.recovering (ctx : Context) (recover : Bool) : Context :=
  { ctx with recover }

/-- The site with recovery on or off, all else being the same. -/
def Site.recovering (site : Site) (recover : Bool) : Site :=
  { site with context := site.context.recovering recover }

/-- A computation without and with recovery: with recovery it has no underflow, and without it
nothing else is different. -/
structure Recovers {σ α : Type} (off on : σ × Result α) : Prop where
  failsOnly : FailsOnly NotUnderflow on.2
  eq_of_failsOnly : FailsOnly NotUnderflow off.2 → on = off

namespace Site

theorem failsOnly_operands (site : Site) (action : Action) (stack : List Value) :
    FailsOnly NotUnderflow ((site.recovering true).operands action stack) :=
  failsOnly_takeRecovering (Nat.le_add_left ..)

/-- Operands that are there without recovery are the same with it. -/
theorem operands_recovering {site : Site} {action : Action} {stack : List Value}
    (h : FailsOnly NotUnderflow ((site.recovering false).operands action stack)) :
    (site.recovering true).operands action stack = (site.recovering false).operands action stack :=
  takeRecovering_eq h site.position action.demand

/-- What an instruction does with its operands does not depend on how they were found. -/
theorem conclude_recovering (site : Site) (recover : Bool) (locals : Locals) (frame : Frame)
    (action : Action) (taken : Result (List Value × List Value)) :
    (site.recovering recover).conclude locals frame action taken =
      site.conclude locals frame action taken := rfl

/-- Once operands have been taken without an underflow, the rest of a step finds none. -/
theorem failsOnly_conclude {site : Site} {action : Action}
    {taken : Result (List Value × List Value)} (h : FailsOnly NotUnderflow taken) (locals : Locals)
    (frame : Frame) : FailsOnly NotUnderflow (site.conclude locals frame action taken).2 := by
  cases taken with
  | error e => exact Result.failsOnly_error.mpr (h e rfl)
  | ok taken => exact Result.failsOnly_map.mpr (action.failsOnly_perform site frame locals taken.1)

/-- **One instruction.** The variables it leaves behind are the same as well. -/
theorem recovers_step (site : Site) (locals : Locals) (frame : Frame) :
    Recovers ((site.recovering false).step locals frame)
      ((site.recovering true).step locals frame) := by
  cases hresolve : Action.resolve site.context.pool site.instr with
  | error e =>
    have hstep (recover : Bool) :
        (site.recovering recover).step locals frame = (locals, .error e) :=
      step_of_resolve_error (site.recovering recover) hresolve locals frame
    rw [hstep, hstep]
    exact ⟨Result.failsOnly_error.mpr (Action.failsOnly_resolve _ _ e hresolve), fun _ => rfl⟩
  | ok action =>
    have hstep (recover : Bool) : (site.recovering recover).step locals frame =
        site.conclude locals frame action
          ((site.recovering recover).operands action frame.stack) := by
      rw [step_of_resolve_ok (site.recovering recover) hresolve, conclude_recovering]
    rw [hstep, hstep]
    refine ⟨failsOnly_conclude (site.failsOnly_operands action frame.stack) locals frame, ?_⟩
    intro hoff
    -- only operands can be missing, and where they are not, both ways take the same ones
    have hoperands : FailsOnly NotUnderflow
        ((site.recovering false).operands action frame.stack) := by
      intro e he
      rw [he] at hoff
      exact hoff e rfl
    rw [operands_recovering hoperands]

end Site

namespace Context

/-- **The instructions of a block.** As long as no instruction finds an underflow without recovery,
the two runs go on from the same variables and the same frame. -/
theorem recovers_runFrom (ctx : Context) (body : List Instruction) (position : Nat)
    (rest : List Instruction) (locals : Locals) (frame : Frame) :
    Recovers ((ctx.recovering false).runFrom body position rest locals frame)
      ((ctx.recovering true).runFrom body position rest locals frame) := by
  induction rest generalizing position locals frame with
  | nil => exact ⟨Result.failsOnly_ok _, fun _ => rfl⟩
  | cons instr rest ih =>
    have hstep : Recovers
        (Site.step { context := ctx.recovering false, body, position, instr } locals frame)
        (Site.step { context := ctx.recovering true, body, position, instr } locals frame) :=
      Site.recovers_step { context := ctx, body, position, instr } locals frame
    refine ⟨?_, fun hoff => ?_⟩
    · rw [runFrom]
      split
      · next he => exact Result.failsOnly_error.mpr (hstep.failsOnly _ (congrArg Prod.snd he))
      · exact (ih ..).failsOnly
    · rw [runFrom] at hoff ⊢
      split at hoff
      · next he =>
        rw [runFrom, hstep.eq_of_failsOnly (by rwa [he]), he]
      · next he =>
        rw [runFrom, hstep.eq_of_failsOnly (by rw [he]; exact Result.failsOnly_ok _), he]
        exact (ih ..).eq_of_failsOnly hoff

/-- **A block**, with the variables and the number of object names behind it. -/
theorem recovers_evaluate (ctx : Context) (block : Block) (state : MethodState) :
    Recovers ((ctx.recovering false).evaluate block state)
      ((ctx.recovering true).evaluate block state) := by
  have hrun := ctx.recovers_runFrom (block.body ctx.graph.code) 0 (block.body ctx.graph.code)
    state.locals (entryFrame block (block.body ctx.graph.code).length state.objects)
  have hgraph (recover : Bool) : (ctx.recovering recover).graph = ctx.graph := rfl
  simp only [evaluate, hgraph]
  refine ⟨?_, fun hoff => ?_⟩
  · split
    · next he => exact Result.failsOnly_error.mpr (hrun.failsOnly _ (congrArg Prod.snd he))
    · exact Result.failsOnly_ok _
  · rw [hrun.eq_of_failsOnly]
    intro e he
    split at hoff
    · next hfails =>
      rw [hfails] at he
      exact hoff e (congrArg _ (Except.error.inj he))
    · next hgives =>
      rw [hgives] at he
      cases he

/-- With recovery, no block of a method finds an underflow. -/
theorem failsOnly_evaluateAll (ctx : Context) (blocks : List (Block × Bool)) (state : MethodState) :
    FailsOnly NotUnderflow ((ctx.recovering true).evaluateAll blocks state) :=
  failsOnly_evaluateAll_of_evaluate
    (fun q _ state => (ctx.recovers_evaluate q.1 state).failsOnly) state

/-- **The blocks of a method.** Each starts from the variables that the blocks before it left, so
nothing but an underflow may have been different there. -/
theorem evaluateAll_recovering (ctx : Context) {blocks : List (Block × Bool)} {state : MethodState}
    (h : FailsOnly NotUnderflow ((ctx.recovering false).evaluateAll blocks state)) :
    (ctx.recovering true).evaluateAll blocks state =
      (ctx.recovering false).evaluateAll blocks state := by
  fun_induction evaluateAll (ctx.recovering false) blocks state with
  | case1 => rfl
  | case2 block rest state ih =>
    rw [evaluateAll, ih (by simpa using h)]
  | case3 block rest state state' e he =>
    have hblock := (ctx.recovers_evaluate block state).eq_of_failsOnly
      (by rw [he]; exact Result.failsOnly_error.mpr (h e rfl))
    rw [evaluateAll, hblock, he]
  | case4 block rest state state' lines hlines ih =>
    have hblock := (ctx.recovers_evaluate block state).eq_of_failsOnly
      (by rw [hlines]; exact Result.failsOnly_ok _)
    rw [evaluateAll, hblock, hlines]
    dsimp only
    rw [ih (by simpa using h)]

end Context

/-! ### Methods -/

/-- Of the options, the layout of a body reads the indentation and whether indices are shown. -/
theorem Outline.body_congr (o : Outline) {options options' : Options}
    (hindent : options.indent = options'.indent)
    (hindices : options.showIndices = options'.showIndices)
    (lines : List (List (Option String))) : o.body options lines = o.body options' lines := by
  have hitem (lines : List (List (Option String))) (item : Item) :
      o.itemRows options lines item = o.itemRows options' lines item := by
    cases item <;> simp only [itemRows, blockRows, renderLines, hindices]
  have hrows (lines : List (List (Option String))) (scopes : List Scope) (k : Nat)
      (items : List Item) :
      o.rowsFrom options lines scopes k items = o.rowsFrom options' lines scopes k items := by
    induction items generalizing k with
    | nil => rfl
    | cons item rest ih => rw [rowsFrom, rowsFrom, hitem, ih]
  simp only [body, rows, hrows, hindent]

/-- The text of a body is laid out the same with and without recovery. -/
theorem Outline.body_recoverUnderflow (o : Outline) (options : Options) (recover : Bool)
    (lines : List (List (Option String))) :
    o.body { options with recoverUnderflow := recover } lines = o.body options lines := by
  apply body_congr <;> rfl

namespace Signature

variable {sig : Signature} {c : Code} {pool : Pool} {options : Options}

/-- With recovery, the text of a method does not fail for an underflow. -/
theorem failsOnly_body :
    FailsOnly NotUnderflow (sig.body c pool { options with recoverUnderflow := true }) := by
  refine (Result.failsOnly_bind (by simp)).mpr fun o _ => ?_
  refine (Result.failsOnly_bind (by simp)).mpr fun table _ => ?_
  refine (Result.failsOnly_bind (by simp)).mpr fun locals _ => ?_
  let ctx : Context := { owner := Name.dotted sig.owner, pool, graph := o.graph, recover := true }
  exact (Result.failsOnly_bind (ctx.failsOnly_evaluateAll _ _)).mpr fun lines _ =>
    o.failsOnly_body _ lines

/-- A method that has no underflow without recovery has the same text, or the same failure, with
it. -/
theorem body_recovering
    (h : FailsOnly NotUnderflow (sig.body c pool { options with recoverUnderflow := false })) :
    sig.body c pool { options with recoverUnderflow := true } =
      sig.body c pool { options with recoverUnderflow := false } := by
  refine Result.bind_congr_of_failsOnly h fun o _ h => ?_
  refine Result.bind_congr_of_failsOnly h fun table _ h => ?_
  refine Result.bind_congr_of_failsOnly h fun locals _ h => ?_
  -- what is left of the options is the layout, and the choice in the context
  dsimp only at h ⊢
  simp only [Outline.body_recoverUnderflow] at h ⊢
  let ctx : Context := { owner := Name.dotted sig.owner, pool, graph := o.graph, recover := false }
  exact congrArg (· >>= o.body options)
    (ctx.evaluateAll_recovering (Result.failsOnly_of_bind h))

end Signature

/-- **The two ways of dealing with an underflow agree.** A method that is shown without recovery is
shown the same with it, and any failure that is not an underflow stays the same failure. With
recovery there is no underflow. -/
theorem underflow_modes_agree (sig : Signature) (c : Code) (pool : Pool) (options : Options) :
    (∀ text, sig.body c pool { options with recoverUnderflow := false } = .ok text →
      sig.body c pool { options with recoverUnderflow := true } = .ok text) ∧
    (∀ e, sig.body c pool { options with recoverUnderflow := false } = .error e →
      (∀ offset, e ≠ .stackUnderflow offset) →
        sig.body c pool { options with recoverUnderflow := true } = .error e) ∧
    ∀ offset, sig.body c pool { options with recoverUnderflow := true } ≠
      .error (.stackUnderflow offset) := by
  refine ⟨?_, ?_, ?_⟩
  · intro text htext
    rw [Signature.body_recovering (htext ▸ Result.failsOnly_ok text), htext]
  · intro e he hother
    rw [Signature.body_recovering, he]
    exact he ▸ Result.failsOnly_error.mpr (Error.notUnderflow_iff.mpr hother)
  · intro offset hunderflow
    exact Error.notUnderflow_iff.mp (Signature.failsOnly_body _ hunderflow) offset rfl

/-- A value that is taken off an empty stack, and one that is pushed before. -/
theorem underflow_modes_agree_of_pop :
    Signature.body ⟨"A", ⟨8⟩, "m", "()V"⟩ (.ofParts 1 0 [0x57, 0xb1] [] []) ⟨#[]⟩
        { recoverUnderflow := false } = .error (.stackUnderflow 0) ∧
      (∀ offset, Signature.body ⟨"A", ⟨8⟩, "m", "()V"⟩ (.ofParts 1 0 [0x57, 0xb1] [] []) ⟨#[]⟩
        { recoverUnderflow := true } ≠ .error (.stackUnderflow offset)) ∧
      ∃ text, Signature.body ⟨"A", ⟨8⟩, "m", "()V"⟩ (.ofParts 1 0 [0x04, 0x57, 0xb1] [] []) ⟨#[]⟩
          { recoverUnderflow := false } = .ok text ∧
        Signature.body ⟨"A", ⟨8⟩, "m", "()V"⟩ (.ofParts 1 0 [0x04, 0x57, 0xb1] [] []) ⟨#[]⟩
          { recoverUnderflow := true } = .ok text := by
  refine ⟨by decide +kernel, (underflow_modes_agree _ _ _ {}).2.2, ?_⟩
  have hok : (Signature.body ⟨"A", ⟨8⟩, "m", "()V"⟩ (.ofParts 1 0 [0x04, 0x57, 0xb1] [] []) ⟨#[]⟩
      { recoverUnderflow := false }).isOk = true := by
    decide +kernel
  obtain ⟨text, htext⟩ := Result.exists_of_isOk hok
  exact ⟨text, htext, (underflow_modes_agree _ _ _ {}).1 text htext⟩

end JvmSource
