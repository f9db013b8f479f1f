import Mathlib.Logic.Relation
import JvmSource.Proofs.Eval.Discipline

/-!
# The attempts at the instructions of a block

The evaluation of a block makes one attempt after the other (`Context.Attempts`). What a turn of its
loop can do is said once: the instruction succeeds and the next one is attempted, or it finds too
few operands and is attempted again above one more placeholder (`Context.turn_eq_inl`); or the loop
comes to its last turn, since no instruction is left or one fails (`Context.turn_eq_inr`).

The loop ends, and its end is the evaluation of the block (`Context.exists_last_attempt`). With this
an invariant of all attempts needs to be proved of the first one and of a turn only.

At each attempt there is a line for each instruction of the block, and every value on the stack was
pushed by an instruction of the block that has been attempted by then (`Attempt.Within`). The caught
exception of a handler and placeholders count as pushed by the instruction that is attempted when
they are put there.
-/

namespace JvmSource

theorem Error.exists_of_isUnderflow {e : Error} (h : e.isUnderflow = true) :
    ∃ offset, e = .stackUnderflow offset := by
  cases e with
  | stackUnderflow offset => exact ⟨offset, rfl⟩
  | _ => cases h

namespace Context

variable {ctx : Context} {body : List Instruction} {a a' : Attempt}

/-- **A turn that goes on**: the instruction succeeds, or it is attempted again. -/
theorem turn_eq_inl (h : ctx.turn body a = .inl a') :
    ∃ instr locals, body[a.position]? = some instr ∧
      ((∃ frame, (ctx.attemptSite body a.position instr).step a.locals a.frame =
          (locals, .ok frame) ∧ a' = ⟨a.position + 1, locals, frame⟩) ∨
        ∃ offset, (ctx.attemptSite body a.position instr).step a.locals a.frame =
            (locals, .error (.stackUnderflow offset)) ∧
          a' = ⟨a.position, locals,
            a.frame.withStack (placeholder a.position :: a.frame.stack)⟩) := by
  rw [turn] at h
  split at h
  · cases h
  next instr hinstr =>
  split at h
  · next locals frame hstep =>
    exact ⟨instr, locals, hinstr, .inl ⟨frame, hstep, (Sum.inl.inj h).symm⟩⟩
  next locals e hstep =>
  split at h
  · next hagain =>
    obtain ⟨offset, rfl⟩ := Error.exists_of_isUnderflow (Bool.and_eq_true_iff.mp hagain).2
    exact ⟨instr, locals, hinstr, .inr ⟨offset, hstep, (Sum.inl.inj h).symm⟩⟩
  · cases h

/-- **The last turn**: there is no instruction left, or one fails. -/
theorem turn_eq_inr {outcome : Locals × Result Frame} (h : ctx.turn body a = .inr outcome) :
    (body[a.position]? = none ∧ outcome = (a.locals, .ok a.frame)) ∨
      ∃ instr locals e, body[a.position]? = some instr ∧
        (ctx.attemptSite body a.position instr).step a.locals a.frame = (locals, .error e) ∧
        outcome = (locals, .error e) := by
  rw [turn] at h
  split at h
  · next hnone => exact .inl ⟨hnone, (Sum.inr.inj h).symm⟩
  next instr hinstr =>
  split at h
  · cases h
  next locals e hstep =>
  split at h
  · cases h
  · exact .inr ⟨instr, locals, e, hinstr, hstep, (Sum.inr.inj h).symm⟩

/-- A turn adds no line and takes none away. -/
theorem length_lines_turn (h : ctx.turn body a = .inl a') :
    a'.frame.lines.length = a.frame.lines.length := by
  obtain ⟨instr, locals, -, ⟨frame, hstep, rfl⟩ | ⟨offset, -, rfl⟩⟩ := turn_eq_inl h
  · obtain ⟨-, -, rest, effect, -, -, -, rfl⟩ := Site.step_eq_ok hstep
    exact a.frame.length_lines_apply rest effect
  · rfl

/-- **The loop ends**, with recovery or without, as the run of the instructions does. The induction
is on the instructions that are left. -/
theorem exists_ends_runFrom (ctx : Context) {position : Nat} {rest : List Instruction}
    (hrest : body.drop position = rest) (locals : Locals) (frame : Frame) :
    ∃ tried, ctx.Ends body ⟨position, locals, frame⟩ tried
      (ctx.runFrom body position rest locals frame) := by
  cases hrecover : ctx.recover with
  | true =>
    obtain ⟨tried, hends, -, -⟩ := exists_ends hrecover hrest locals frame
    exact ⟨tried, hends⟩
  | false =>
    have hsite (position : Nat) (instr : Instruction) :
        ctx.attemptSite body position instr = { context := ctx, body, position, instr } := by
      rw [attemptSite, recovering, ← hrecover]
    induction rest generalizing position locals frame with
    | nil => exact ⟨[position], .last (by simp [turn, List.drop_eq_nil_iff.mp hrest, runFrom])⟩
    | cons instr rest ih =>
      have hinstr : body[position]? = some instr := by
        rw [← List.head?_drop, hrest, List.head?_cons]
      rw [runFrom]
      rcases hstep : Site.step { context := ctx, body, position, instr } locals frame with
        ⟨locals', e | frame'⟩
      · exact ⟨[position], .last (by simp [turn, hinstr, hsite, hstep, hrecover])⟩
      · obtain ⟨tried, hends⟩ := ih (by rw [← List.tail_drop, hrest, List.tail_cons]) locals' frame'
        exact ⟨position :: tried, .turn (by simp [turn, hinstr, hsite, hstep]) hends⟩

/-- The evaluation of a block is what its loop ends with. -/
theorem exists_ends_evaluate (ctx : Context) (b : Block) (state : MethodState) :
    ∃ tried outcome, ctx.Ends (b.body ctx.graph.code) (ctx.firstAttempt b state) tried outcome ∧
      ctx.evaluate b state = ctx.settle b state outcome := by
  obtain ⟨tried, hends⟩ := ctx.exists_ends_runFrom List.drop_zero state.locals
    (ctx.firstAttempt b state).frame
  exact ⟨tried, _, hends, ctx.evaluate_eq_settle b state⟩

/-- The evaluation of a block from a state comes to an attempt, after any number of turns. -/
def Attempts (ctx : Context) (b : Block) (state : MethodState) (a : Attempt) : Prop :=
  Relation.ReflTransGen (fun a a' => ctx.turn (b.body ctx.graph.code) a = .inl a')
    (ctx.firstAttempt b state) a

/-- It comes to a last attempt, whose outcome is that of the evaluation. -/
theorem exists_last_attempt (ctx : Context) (b : Block) (state : MethodState) :
    ∃ a outcome, ctx.Attempts b state a ∧ ctx.turn (b.body ctx.graph.code) a = .inr outcome ∧
      ctx.evaluate b state = ctx.settle b state outcome := by
  obtain ⟨tried, outcome, hends, hevaluate⟩ := ctx.exists_ends_evaluate b state
  have hlast {a : Attempt} {tried : List Nat} {outcome : Locals × Result Frame}
      (hends : ctx.Ends (b.body ctx.graph.code) a tried outcome) (ha : ctx.Attempts b state a) :
      ∃ a', ctx.Attempts b state a' ∧ ctx.turn (b.body ctx.graph.code) a' = .inr outcome := by
    induction hends with
    | last h => exact ⟨_, ha, h⟩
    | turn h _ ih => exact ih (ha.tail h)
  obtain ⟨a, ha, hturn⟩ := hlast hends .refl
  exact ⟨a, outcome, ha, hturn, hevaluate⟩

end Context

/-- An attempt in a block of `size` instructions, where every value on the stack comes from an
instruction of the block, from the attempted one at the latest. -/
structure Attempt.Within (size : Nat) (a : Attempt) : Prop where
  length_lines : a.frame.lines.length = size
  origin_le : ∀ v ∈ a.frame.stack, v.origin ≤ a.position ∧ v.origin < size

namespace Attempt.Within

variable {ctx : Context} {body : List Instruction} {a a' : Attempt} {b : Block}
  {state : MethodState}

/-- A turn keeps the values within the block. -/
theorem turn (ha : a.Within body.length) (h : ctx.turn body a = .inl a') :
    a'.Within body.length := by
  refine ⟨(Context.length_lines_turn h).trans ha.length_lines, fun v hv => ?_⟩
  obtain ⟨instr, locals, hinstr, ⟨frame, hstep, rfl⟩ | ⟨offset, -, rfl⟩⟩ := Context.turn_eq_inl h
  all_goals have hposition : a.position < body.length := (List.getElem?_eq_some_iff.mp hinstr).1
  · rcases Site.origin_of_step hstep hv with horigin | ⟨w, hw, horigin⟩
    · rw [horigin]
      exact ⟨Nat.le_succ _, hposition⟩
    · rw [horigin]
      exact ⟨Nat.le_succ_of_le (ha.origin_le w hw).1, (ha.origin_le w hw).2⟩
  · rcases List.mem_cons.mp hv with rfl | hv
    · exact ⟨Nat.le_refl a.position, hposition⟩
    · exact ha.origin_le v hv

/-- The caught exception counts as pushed by the first instruction of the handler. -/
theorem firstAttempt (hhandler : b.isHandler = true → b.body ctx.graph.code ≠ []) :
    (ctx.firstAttempt b state).Within (b.body ctx.graph.code).length := by
  refine ⟨List.length_replicate, fun v hv => ?_⟩
  simp only [Context.firstAttempt, Context.entryFrame, Option.mem_toList,
    Option.map_eq_some_iff] at hv
  obtain ⟨type, hcaught, rfl⟩ := hv
  have hbody := hhandler (by rw [Block.isHandler, hcaught]; rfl)
  exact ⟨Nat.le_refl 0, List.length_pos_of_ne_nil hbody⟩

/-- **At every attempt the values are within the block.** -/
theorem of_attempts (hhandler : b.isHandler = true → b.body ctx.graph.code ≠ [])
    (h : ctx.Attempts b state a) : a.Within (b.body ctx.graph.code).length := by
  induction h with
  | refl => exact firstAttempt hhandler
  | tail _ hturn ih => exact ih.turn hturn

end Attempt.Within

end JvmSource
