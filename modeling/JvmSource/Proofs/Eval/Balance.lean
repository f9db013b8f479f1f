import Mathlib.Data.List.Induction
import JvmSource.Proofs.Eval.Branch
import JvmSource.Proofs.Eval.Recovery
import JvmSource.Proofs.Eval.Yield
import JvmSource.Proofs.Flow.Handler

/-!
# Balanced stacks

Each block is evaluated by itself, from an empty stack or from the caught exception. Suppose that a
method has stack heights: a number for each instruction that covers what the instruction takes, that
goes along every step of control by what the instruction takes and pushes, and that is 0 at the
start of a block and 1 at the start of a handler (`Graph.Heights`). Compilers write code of this
kind as long as no value is kept on the stack across a jump; whether numbers are heights can be
checked (`Graph.heights_of_check`).

Then the stack of the evaluation is as high as the number says at every instruction of a block
(`Graph.Heights.length_stack`). The induction is on the instructions of the block that have been
evaluated, from the last one: it finds all its operands by the number, and the height behind it
follows from what it takes and pushes.

At the end of a block control goes on to another block, where the number is 0, or leaves the method,
which empties the stack (`Graph.Heights.leftovers_eq_nil`). A handler cannot be next, since control
never enters one. So no operand is missing and nothing is left behind: `stack_balanced`.
-/

namespace JvmSource

open Result (FailsOnly)
open Error (NotUnderflow)

/-- A number for each instruction of a method that fits what the instructions take from the stack
and push onto it. -/
structure Graph.Heights (g : Graph) (pool : Pool) (bs : List Block) (height : Nat → Nat) :
    Prop where
  demand_le : ∀ i a action, g.code[i]? = some a → Action.resolve pool a = .ok action →
    action.demand ≤ height i
  flow : ∀ i j a action, FlowsTo g.code i j → g.code[i]? = some a →
    Action.resolve pool a = .ok action → height j = height i - action.demand + action.yield
  start : ∀ b ∈ bs, height b.start = if b.isHandler then 1 else 0

/-- Whether numbers for the instructions of a method are stack heights. Only the targets of branches
and the instructions behind each other have to be compared. -/
def Graph.checkHeights (g : Graph) (pool : Pool) (bs : List Block) (height : Nat → Nat) : Bool :=
  (g.code.all fun a =>
    match Action.resolve pool a with
    | .error _ => true
    | .ok action =>
      let next := height a.index - action.demand + action.yield
      decide (action.demand ≤ height a.index)
        && (a.operation.endsFlow || height (a.index + 1) == next)
        && (g.target? a.index).all (height · == next))
    && bs.all fun b => height b.start == if b.isHandler then 1 else 0

/-- Numbers that pass the check are stack heights. -/
theorem Graph.heights_of_check {g : Graph} {regions : List Region} {pool : Pool} {bs : List Block}
    {height : Nat → Nat} (hcode : Sequential 0 0 g.code) (hbuild : build g.code regions = .ok g)
    (h : g.checkHeights pool bs height = true) : g.Heights pool bs height := by
  obtain ⟨hall, hstart⟩ := Bool.and_eq_true_iff.mp h
  have hindex {i : Nat} {a : Instruction} (ha : g.code[i]? = some a) : a.index = i := by
    rw [hcode.index_eq ha, Nat.zero_add]
  refine ⟨fun i a action ha hresolve => ?_, fun i j a action hflows ha hresolve => ?_, ?_⟩
  · have hcheck := List.all_eq_true.mp hall a (List.mem_of_getElem? ha)
    simp only [hresolve, hindex ha, Bool.and_eq_true, decide_eq_true_eq] at hcheck
    exact hcheck.1.1
  · have hcheck := List.all_eq_true.mp hall a (List.mem_of_getElem? ha)
    simp only [hresolve, hindex ha, Bool.and_eq_true, Bool.or_eq_true, beq_iff_eq] at hcheck
    rcases (flowsTo_iff hcode hbuild).mp hflows with ⟨rfl, a', ha', hends⟩ | htarget
    · obtain rfl := Option.some.inj (ha.symm.trans ha')
      exact hcheck.1.2.resolve_left (by simp [hends])
    · simpa [htarget] using hcheck.2
  · intro b hb
    exact beq_iff_eq.mp (List.all_eq_true.mp hstart b hb)

namespace Context

/-- The run of some first instructions of a block. -/
def runBlock (ctx : Context) (b : Block) (state : MethodState) (front : List Instruction) :
    Locals × Result Frame :=
  let body := b.body ctx.graph.code
  ctx.runFrom body 0 front state.locals (entryFrame b body.length state.objects)

/-- A block that is evaluated from a state needs no placeholder and leaves nothing behind. -/
structure Balanced (ctx : Context) (b : Block) (state : MethodState) : Prop where
  /-- No instruction that the run comes to finds too few operands. -/
  ne_underflow : ∀ front instr behind locals frame action,
    b.body ctx.graph.code = front ++ instr :: behind →
    ctx.runBlock b state front = (locals, .ok frame) → Action.resolve ctx.pool instr = .ok action →
    ∀ offset, takeOperands instr.offset action.wants frame.stack ≠ .error (.stackUnderflow offset)
  leftovers_eq_nil : ∀ locals frame,
    ctx.runBlock b state (b.body ctx.graph.code) = (locals, .ok frame) →
    leftovers (b.body ctx.graph.code) frame.stack = []

variable {ctx : Context} {b : Block} {state : MethodState}

/-- The lines that an evaluation gives are those of the run, with the notes for what is left. -/
theorem evaluate_eq_ok {after : MethodState} {lines : List (Option String)}
    (h : ctx.evaluate b state = (after, .ok lines)) :
    ∃ locals frame, ctx.runBlock b state (b.body ctx.graph.code) = (locals, .ok frame) ∧
      lines = (leftovers (b.body ctx.graph.code) frame.stack).foldl noteLeftover frame.lines := by
  simp only [evaluate] at h
  split at h
  · cases h
  · next locals frame hrun => exact ⟨locals, frame, hrun, (Except.ok.inj (Prod.mk.inj h).2).symm⟩

/-! ### Blocks that need no placeholder -/

/-- A balanced block has no underflow even without recovery. -/
theorem Balanced.failsOnly_evaluate (h : (ctx.recovering false).Balanced b state) :
    FailsOnly NotUnderflow ((ctx.recovering false).evaluate b state).2 := by
  refine failsOnly_evaluate_of_step fun front instr behind locals frame hbody hfront => ?_
  refine Site.failsOnly_step_of_operands (fun _ => Site.failsOnly_targetLabel _) ?_ locals
  intro action hresolve e he
  have htaken := h.ne_underflow front instr behind locals frame action hbody hfront hresolve
  exact Error.notUnderflow_iff.mpr fun offset heq => htaken offset (heq ▸ he)

/-- The lines of a balanced block are those of its run. -/
theorem Balanced.exists_run (h : ctx.Balanced b state) {after : MethodState}
    {lines : List (Option String)} (hlines : ctx.evaluate b state = (after, .ok lines)) :
    ∃ locals frame, ctx.runBlock b state (b.body ctx.graph.code) = (locals, .ok frame) ∧
      lines = frame.lines := by
  obtain ⟨locals, frame, hrun, rfl⟩ := evaluate_eq_ok hlines
  rw [h.leftovers_eq_nil locals frame hrun]
  exact ⟨locals, frame, hrun, rfl⟩

end Context

/-! ### Heights along a block -/

/-- Only the exception of a throw may be left on the stack. -/
theorem Context.leftovers_eq_nil_of_length {front : List Instruction} {a : Instruction}
    {stack : List Value} (h : stack.length = if a.operation == .throw then 1 else 0) :
    leftovers (front ++ [a]) stack = [] := by
  rw [leftovers, List.getLast?_concat, Option.any_some]
  split
  · next hthrow =>
    rw [if_pos hthrow] at h
    obtain ⟨v, rfl⟩ := List.length_eq_one_iff.mp h
    rfl
  · next hthrow =>
    rw [if_neg hthrow] at h
    exact List.length_eq_zero_iff.mp h

namespace Graph.Heights

variable {ctx : Context} {regions : List Region} {bs : List Block} {height : Nat → Nat}
  (hcode : Sequential 0 0 ctx.graph.code) (hbuild : build ctx.graph.code regions = .ok ctx.graph)
  (hvalid : ctx.graph.validate = .ok ()) (hblocks : ctx.graph.blocks = .ok bs)
  (hopcodes : ∀ a ∈ ctx.graph.code, a.opcode ∈ Opcode.catalogue)
  (h : ctx.graph.Heights ctx.pool bs height)
include hcode hbuild hvalid hblocks hopcodes h

/-- **The stack is as high as the number of the instruction says**, at every instruction of a block
that the run comes to. -/
theorem length_stack {b : Block} (hb : b ∈ bs) {state : MethodState}
    {front behind : List Instruction} {instr : Instruction} {locals : Locals} {frame : Frame}
    (hbody : b.body ctx.graph.code = front ++ instr :: behind)
    (hrun : ctx.runBlock b state front = (locals, .ok frame)) :
    frame.stack.length = height (b.start + front.length) := by
  induction front using List.reverseRecOn generalizing instr behind locals frame with
  | nil =>
    obtain ⟨rfl, heq⟩ := Prod.mk.inj hrun
    cases heq
    rw [List.length_nil, Nat.add_zero, h.start b hb, Block.isHandler, Context.entryFrame]
    cases b.caught <;> rfl
  | append_singleton front a ih =>
    obtain ⟨locals₁, frame₁, hfront, hrun⟩ := Context.runFrom_append_eq_ok hrun
    obtain ⟨locals₂, frame₂, hstep, hend⟩ := Context.runFrom_cons_eq_ok hrun
    cases hend
    rw [List.append_assoc, List.singleton_append] at hbody
    obtain ⟨ha, hcontains⟩ := Block.getElem?_of_body hbody
    -- another instruction of the block stands behind this one, so control goes on to it
    have hsplit : b.body ctx.graph.code = (front ++ [a]) ++ instr :: behind := by simpa using hbody
    have hlast : b.start + front.length ≠ b.last := by
      have := (Block.getElem?_of_body hsplit).2.2
      rw [List.length_append, List.length_singleton] at this
      rw [Block.last]
      omega
    obtain ⟨hends, -⟩ :=
      straight_of_ne_last hcode hbuild hblocks hvalid hopcodes hb hcontains hlast ha
    have hflows : FlowsTo ctx.graph.code (b.start + front.length) (b.start + front.length + 1) :=
      .inl ⟨rfl, a, ha, hends⟩
    obtain ⟨action, -, -, -, hresolve, -⟩ := Site.step_eq_ok hstep
    have hexit : action.isExit = false := by
      rw [Action.isExit_of_resolve hresolve]
      rw [Operation.endsFlow_eq, Bool.or_eq_false_iff] at hends
      exact hends.1
    have hlength := ih hbody hfront
    have hheight := Site.length_stack_of_step hstep hresolve
      (hlength ▸ h.demand_le _ a action ha hresolve)
    rw [hheight, hexit, hlength, List.length_append, List.length_singleton, ← Nat.add_assoc,
      h.flow _ _ a action hflows ha hresolve]
    rfl

/-- Control goes from a block to the start of a block that is no handler, unless it leaves the
method. -/
theorem exists_next {b : Block} (hb : b ∈ bs) {a : Instruction}
    (ha : ctx.graph.code[b.last]? = some a) (hexit : a.operation.isExit = false) :
    ∃ j, FlowsTo ctx.graph.code b.last j ∧ height j = 0 := by
  -- a jump has the block of its target as a successor, anything else the block behind
  obtain ⟨j, hj⟩ : ∃ j, j ∈ b.successors := by
    by_cases hends : a.operation.endsFlow = true
    · have hbranch : a.operation.isBranch = true := by
        rw [Operation.endsFlow_eq, hexit, Bool.false_or] at hends
        exact Operation.isBranch_of_isJump hends
      have htarget := (isSome_branchTarget?_iff (hopcodes a (List.mem_of_getElem? ha))).mpr hbranch
      obtain ⟨t, ht⟩ := exists_target?_of_isSome hcode hbuild ha htarget
      exact ⟨t, (mem_successors_iff hcode hbuild hblocks hb).mpr (.inl ht)⟩
    · exact ⟨b.stop, (mem_successors_iff hcode hbuild hblocks hb).mpr
        (.inr ⟨rfl, a, ha, by simpa using hends⟩)⟩
  have hflows := flowsTo_of_mem_successors hcode hbuild hblocks hb hj
  obtain ⟨c, hc, rfl⟩ := exists_block_of_mem_successors hcode hbuild hblocks hb hj
  -- flow does not enter a handler, so the successor begins with an empty stack
  have hcaught : c.caught = none := by
    rw [caught_of_mem hblocks hc]
    refine caughtAt_eq_none fun r hr heq => ?_
    exact not_flowsTo_handler hcode hbuild hvalid hr b.last (heq ▸ hflows)
  refine ⟨c.start, hflows, ?_⟩
  rw [h.start c hc, Block.isHandler, hcaught]
  rfl

/-- **A block leaves nothing behind.** -/
theorem leftovers_eq_nil {b : Block} (hb : b ∈ bs) {state : MethodState} {locals : Locals}
    {frame : Frame}
    (hrun : ctx.runBlock b state (b.body ctx.graph.code) = (locals, .ok frame)) :
    Context.leftovers (b.body ctx.graph.code) frame.stack = [] := by
  obtain ⟨a, ha, -, -⟩ := exists_last_of_mem hcode hbuild hblocks hb
  have htiles := tiles_blocks hcode hbuild hblocks
  obtain ⟨front, hbody, hfrontlength⟩ := Block.body_eq_append (htiles.bounds hb).2.1 ha
  have hindex : b.start + front.length = b.last := by
    have := (htiles.bounds hb).2.1
    rw [hfrontlength, Block.last]
    omega
  rw [hbody] at hrun
  obtain ⟨locals₁, frame₁, hfront, hrun⟩ := Context.runFrom_append_eq_ok hrun
  obtain ⟨locals₂, frame₂, hstep, hend⟩ := Context.runFrom_cons_eq_ok hrun
  cases hend
  have hlength := h.length_stack hcode hbuild hvalid hblocks hopcodes hb hbody hfront
  obtain ⟨action, -, -, -, hresolve, -⟩ := Site.step_eq_ok hstep
  rw [hindex] at hlength
  have hheight := Site.length_stack_of_step hstep hresolve
    (hlength ▸ h.demand_le _ a action ha hresolve)
  rw [Action.isExit_of_resolve hresolve, hlength] at hheight
  rw [hbody]
  -- an exit leaves what it yields alone, which is not left over; otherwise the next block starts
  -- empty
  cases hexit : a.operation.isExit with
  | true =>
    refine Context.leftovers_eq_nil_of_length ?_
    rw [hheight, hexit, if_pos rfl, Nat.zero_add, Action.yield_of_isExit hresolve hexit]
  | false =>
    obtain ⟨j, hflows, hzero⟩ := h.exists_next hcode hbuild hvalid hblocks hopcodes hb ha hexit
    rw [hexit, if_neg Bool.false_ne_true, ← h.flow _ j a action hflows ha hresolve,
      hzero] at hheight
    rw [List.length_eq_zero_iff.mp hheight, Context.leftovers]
    split <;> rfl

variable (ctx) in
/-- **The evaluation of a block is balanced**, whatever the variables are. -/
theorem balanced {b : Block} (hb : b ∈ bs) (state : MethodState) : ctx.Balanced b state where
  ne_underflow front instr behind locals frame action hbody hrun hresolve := by
    have hlength := h.length_stack hcode hbuild hvalid hblocks hopcodes hb hbody hrun
    have hdemand := h.demand_le _ instr action (Block.getElem?_of_body hbody).1 hresolve
    intro offset hunderflow
    have hfails : FailsOnly NotUnderflow (takeOperands instr.offset action.wants frame.stack) :=
      failsOnly_takeOperands (hlength ▸ hdemand)
    exact Error.notUnderflow_iff.mp (hfails _ hunderflow) offset rfl
  leftovers_eq_nil _ _ := h.leftovers_eq_nil hcode hbuild hvalid hblocks hopcodes hb

end Graph.Heights

/-- **Stacks are balanced.** If a checked method has stack heights, then no instruction of a block
ever finds too few operands, and no block leaves a value behind. So where the kept blocks can be
evaluated with recovery, they give the same lines without it, and the lines of each block are those
that its run has written, with nothing noted on them. -/
theorem stack_balanced {c : Code} {pool : Pool} {g : Graph} {bs : List Block} {height : Nat → Nat}
    (hgraph : c.graph pool = .ok g) (hblocks : g.blocks = .ok bs)
    (hheights : g.Heights pool bs height) (ctx : Context) (hctx : ctx.graph = g)
    (hpool : ctx.pool = pool) (hrecover : ctx.recover = true) :
    (∀ b ∈ bs, ∀ state, ctx.Balanced b state) ∧
      ∀ state lines, ctx.evaluateAll (bs.zip (keptBlocks bs)) state = .ok lines →
        (ctx.recovering false).evaluateAll (bs.zip (keptBlocks bs)) state = .ok lines ∧
        ∀ (number : Nat) (b : Block), (bs.zip (keptBlocks bs))[number]? = some (b, true) →
          ∃ before locals frame, ctx.runBlock b before (b.body g.code) = (locals, .ok frame) ∧
            lines[number]? = some frame.lines := by
  subst hctx hpool
  obtain ⟨regions, hdecode, -, hcode, hbuild, hvalid⟩ := Code.graph_eq_ok hgraph
  have hopcodes := opcode_mem_of_decodeFrom hdecode
  have hbalanced (recover : Bool) : ∀ b ∈ bs, ∀ state, (ctx.recovering recover).Balanced b state :=
    fun b hb => Graph.Heights.balanced (ctx.recovering recover) hcode hbuild hvalid hblocks
      hopcodes hheights hb
  have hon : ctx.recovering true = ctx := by rw [Context.recovering, ← hrecover]
  refine ⟨hon ▸ hbalanced true, fun state lines hlines => ⟨?_, fun number b hb => ?_⟩⟩
  · have hfails : FailsOnly NotUnderflow
        ((ctx.recovering false).evaluateAll (bs.zip (keptBlocks bs)) state) :=
      Context.failsOnly_evaluateAll_of_evaluate
        (fun p hp state => (hbalanced false p.1 (List.of_mem_zip hp).1 state).failsOnly_evaluate)
        state
    rw [← ctx.evaluateAll_recovering hfails, hon, hlines]
  · obtain ⟨before, after, ls, hevaluate, hls⟩ := Context.getElem?_evaluateAll hlines hb
    have hmem := (List.of_mem_zip (List.mem_of_getElem? hb)).1
    obtain ⟨locals, frame, hrun, rfl⟩ := (hon ▸ hbalanced true b hmem before).exists_run hevaluate
    exact ⟨before, locals, frame, hrun, hls⟩

/-- A branch, two returns and a handler that throws what it has caught. -/
theorem stack_balanced_of_branch_and_handler :
    ∃ g bs locals lines,
      (Code.ofParts 1 1 [0x1a, 0x99, 0, 5, 0x04, 0xac, 0x05, 0xac, 0xbf] [⟨0, 4, 8, 0⟩] []).graph
        ⟨#[]⟩ = .ok g ∧ g.blocks = .ok bs ∧
      g.Heights ⟨#[]⟩ bs (fun i => [0, 1, 0, 1, 0, 1, 1].getD i 0) ∧
      Context.evaluateAll ⟨"A", ⟨#[]⟩, g, true⟩ (bs.zip (keptBlocks bs)) ⟨locals, 0⟩ = .ok lines ∧
      (∀ b ∈ bs, ∀ state, Context.Balanced ⟨"A", ⟨#[]⟩, g, true⟩ b state) ∧
      Context.evaluateAll ⟨"A", ⟨#[]⟩, g, false⟩ (bs.zip (keptBlocks bs)) ⟨locals, 0⟩ =
        .ok lines := by
  have hok : (do
      let g ← (Code.ofParts 1 1 [0x1a, 0x99, 0, 5, 0x04, 0xac, 0x05, 0xac, 0xbf]
        [⟨0, 4, 8, 0⟩] []).graph ⟨#[]⟩
      let bs ← g.blocks
      let locals ← Signature.locals ⟨"A", ⟨8⟩, "m", "(I)I"⟩ none ⟨#[]⟩
      let _ ← Context.evaluateAll ⟨"A", ⟨#[]⟩, g, true⟩ (bs.zip (keptBlocks bs)) ⟨locals, 0⟩
      return g.checkHeights ⟨#[]⟩ bs fun i => [0, 1, 0, 1, 0, 1, 1].getD i 0) = .ok true := by
    decide +kernel
  obtain ⟨g, hgraph, h⟩ := Result.bind_eq_ok.mp hok
  obtain ⟨bs, hblocks, h⟩ := Result.bind_eq_ok.mp h
  obtain ⟨locals, -, h⟩ := Result.bind_eq_ok.mp h
  obtain ⟨lines, hlines, h⟩ := Result.bind_eq_ok.mp h
  obtain ⟨regions, -, -, hcode, hbuild, -⟩ := Code.graph_eq_ok hgraph
  have hheights := Graph.heights_of_check hcode hbuild (Result.pure_eq_ok.mp h)
  have hall := stack_balanced hgraph hblocks hheights ⟨"A", ⟨#[]⟩, g, true⟩ rfl rfl rfl
  exact ⟨g, bs, locals, lines, hgraph, hblocks, hheights, hlines, hall.1, (hall.2 _ lines hlines).1⟩

end JvmSource
