import JvmSource.Proofs.Eval.Recovery

/-!
# Attempts and placeholders

With recovery, the evaluation of a block is a loop over attempts: an instruction that finds too few
operands is attempted again with one more placeholder on the stack (`Context.turn`). How many
operands an instruction takes is known before it is attempted (`Instruction.demand`), and a failed
attempt leaves nothing behind but its placeholder.

The loop is described by its turns, and `Context.Ends` says with which outcome it comes to an end
and at which positions attempts were made. It can end in one way only, since a turn is a function
(`Context.Ends.unique`). It does end, as the run does in which each instruction recovers by itself
(`Context.exists_ends`), with at most as many attempts at an instruction as it has operands and one
more. For one instruction the induction is on the number of placeholders that may still be needed;
for a block it is on the instructions that are left.

An instruction that succeeds in the end would have succeeded at once with all the placeholders on
the stack (`Site.stepPadded_eq_ok`), so a block can as well be evaluated on padded stacks, with one
attempt for each instruction. Together: `retries_are_padding`.
-/

namespace JvmSource

open Result (FailsOnly GivesOnly)
open Error (NotUnderflow)

/-! ### How many operands an instruction takes -/

/-- The method that an invocation calls. -/
def Invocation.method (pool : Pool) (index : UInt16) : Invocation → Result MethodRef
  | virtual | special | static => pool.methodRef index
  | interface => pool.interfaceMethodRef index
  | dynamic => pool.callSite index

/-- The number of receivers of an invocation. -/
def Invocation.receivers : Invocation → Nat
  | virtual | special | interface => 1
  | static | dynamic => 0

/-- The number of operands of an instruction. A call takes its receiver and its arguments, the
allocation of a nested array as many lengths as its operand says. -/
def Instruction.demand (pool : Pool) (instr : Instruction) : Nat :=
  match instr.operation with
  | .nop | .pushNull | .pushInt _ | .pushLong _ | .pushFloat _ | .pushDouble _ | .pushOperand
  | .pushConstant _ | .load .. | .loadReference _ | .increment | .jump | .returnVoid | .getStatic
  | .newObject | .subroutine | .unsupported => 0
  | .store .. | .pop | .dup | .negate _ | .convert _ | .branch _ .zero | .branch _ .null
  | .lookupSwitch | .returnValue | .throw | .putStatic | .getField | .newArray
  | .newReferenceArray | .arrayLength | .checkCast | .instanceOf => 1
  | .arrayLoad _ | .dupX1 | .swap | .binary .. | .shift .. | .compare _ | .branch _ .popped
  | .putField => 2
  | .arrayStore | .dupX2 => 3
  | .invoke kind =>
    match kind.method pool instr.indexOperand with
    | .ok method => kind.receivers + method.type.arguments.length
    | .error _ => 0
  | .newNestedArray => instr.unsignedOperand 1

namespace Action

variable {pool : Pool} {instr : Instruction} {a : Variadic}

/-- A call takes its receiver, if it has one, and its arguments. -/
theorem demand_of_resolveCall {index : UInt16} {kind : Invocation}
    (h : resolveCall pool index kind = .ok a) :
    ∃ method, kind.method pool index = .ok method ∧
      (variadic a).demand = kind.receivers + method.type.arguments.length := by
  rcases kind with _ | _ | _ | _ | _ <;> obtain ⟨method, hmethod, rfl⟩ := Result.map_eq_ok.mp h <;>
    exact ⟨method, hmethod, by simp [demand, wants, Invocation.receivers, Nat.add_comm]⟩

/-- A nested array takes the lengths of its sized dimensions. -/
theorem demand_of_resolveNestedArray (h : resolveNestedArray pool instr = .ok a) :
    (variadic a).demand = instr.unsignedOperand 1 := by
  obtain ⟨type, -, h⟩ := Result.bind_eq_ok.mp h
  dsimp only at h
  split at h
  · cases h
  · obtain rfl := Result.pure_eq_ok.mp h
    exact List.length_replicate

/-- What an action wants is known from its instruction and from what that refers to. -/
theorem demand_of_resolve {action : Action} (h : resolve pool instr = .ok action) :
    action.demand = instr.demand pool := by
  have hgives : GivesOnly (fun action => action.demand = instr.demand pool)
      (resolve pool instr) := by
    rcases hop : instr.operation
    case invoke kind =>
      simp only [resolve, Instruction.demand, hop, bind_pure_comp, Result.givesOnly_map]
      intro a ha
      obtain ⟨method, hmethod, hdemand⟩ := demand_of_resolveCall ha
      simp only [hmethod, hdemand]
    case newNestedArray =>
      simp only [resolve, Instruction.demand, hop, bind_pure_comp, Result.givesOnly_map]
      exact fun a => demand_of_resolveNestedArray
    case branch test against =>
      rcases against with _ | _ | _ <;> simp [resolve, Instruction.demand, hop, demand, wants]
    all_goals simp [resolve, Instruction.demand, hop, demand, wants]
  exact hgives action h

end Action

/-! ### Attempts -/

/-- The frame with another stack. -/
def Frame.withStack (frame : Frame) (stack : List Value) : Frame :=
  { frame with stack }

/-- The state in front of an attempt at an instruction of a block: where it stands, the variables,
and the frame. -/
structure Attempt where
  position : Nat
  locals : Locals
  frame : Frame
  deriving DecidableEq

namespace Context

variable {ctx : Context} {body : List Instruction} {position : Nat} {instr : Instruction}
  {action : Action} {locals : Locals} {frame : Frame} {stack : List Value}
  {tried tried' : List Nat} {outcome outcome' : Locals × Result Frame}

/-- The site of an instruction that is attempted without recovery of its own. -/
def attemptSite (ctx : Context) (body : List Instruction) (position : Nat) (instr : Instruction) :
    Site :=
  { context := ctx.recovering false, body, position, instr }

/-- One turn of the loop over a block. After an instruction that succeeds the next one is attempted.
One that finds too few operands is attempted again if recovery is on, in the frame from before with
one more placeholder on the stack; its variables are those that the attempt has left. Otherwise the
loop ends, with what the last attempt has left. -/
def turn (ctx : Context) (body : List Instruction) (a : Attempt) :
    Attempt ⊕ Locals × Result Frame :=
  match body[a.position]? with
  | none => .inr (a.locals, .ok a.frame)
  | some instr =>
    match (ctx.attemptSite body a.position instr).step a.locals a.frame with
    | (locals, .ok frame) => .inl ⟨a.position + 1, locals, frame⟩
    | (locals, .error e) =>
      if ctx.recover && e.isUnderflow then
        .inl ⟨a.position, locals, a.frame.withStack (placeholder a.position :: a.frame.stack)⟩
      else .inr (locals, .error e)

/-- The loop over a block ends with `outcome`, after turns at the positions `tried`. -/
inductive Ends (ctx : Context) (body : List Instruction) :
    Attempt → List Nat → Locals × Result Frame → Prop where
  | last {a : Attempt} {outcome : Locals × Result Frame} (h : ctx.turn body a = .inr outcome) :
    Ends ctx body a [a.position] outcome
  | turn {a b : Attempt} {tried : List Nat} {outcome : Locals × Result Frame}
    (h : ctx.turn body a = .inl b) (hrest : Ends ctx body b tried outcome) :
    Ends ctx body a (a.position :: tried) outcome

/-- The loop can end in one way only. -/
theorem Ends.unique {a : Attempt} (h : ctx.Ends body a tried outcome)
    (h' : ctx.Ends body a tried' outcome') : tried' = tried ∧ outcome' = outcome := by
  induction h generalizing tried' with
  | last h =>
    rcases h' with hlast | hturn
    · exact ⟨rfl, Sum.inr.inj (hlast.symm.trans h)⟩
    · cases hturn.symm.trans h
  | turn h _ ih =>
    rcases h' with hlast | ⟨hturn, hrest⟩
    · cases hlast.symm.trans h
    · obtain rfl := Sum.inl.inj (hturn.symm.trans h)
      obtain ⟨rfl, rfl⟩ := ih hrest
      exact ⟨rfl, rfl⟩

/-- What the loop does once an instruction has given its result. -/
def EndsBehind (ctx : Context) (body : List Instruction) (position : Nat) :
    Locals × Result Frame → List Nat → Locals × Result Frame → Prop
  | (locals, .ok frame), tried, outcome => ctx.Ends body ⟨position + 1, locals, frame⟩ tried outcome
  | (locals, .error e), tried, outcome => tried = [] ∧ outcome = (locals, .error e)

/-- An instruction that does not find too few operands is attempted once. -/
theorem ends_of_failsOnly (hinstr : body[position]? = some instr) {result : Locals × Result Frame}
    (hstep : (ctx.attemptSite body position instr).step locals frame = result)
    (hresult : FailsOnly NotUnderflow result.2)
    (hbehind : ctx.EndsBehind body position result tried outcome) :
    ctx.Ends body ⟨position, locals, frame⟩ (position :: tried) outcome := by
  rcases result with ⟨locals', e | frame'⟩
  · obtain ⟨rfl, rfl⟩ := hbehind
    refine .last ?_
    have he : e.isUnderflow = false := hresult e rfl
    simp [turn, hinstr, hstep, he]
  · refine .turn ?_ hbehind
    simp [turn, hinstr, hstep]

/-- An attempt that finds too few operands is followed by one with another placeholder. -/
theorem turn_of_underflow (hrecover : ctx.recover = true) (hinstr : body[position]? = some instr)
    {locals' : Locals} {offset : Nat}
    (hstep : (ctx.attemptSite body position instr).step locals frame =
      (locals', .error (.stackUnderflow offset))) :
    ctx.turn body ⟨position, locals, frame⟩ =
      .inl ⟨position, locals', frame.withStack (placeholder position :: frame.stack)⟩ := by
  simp [turn, hinstr, hstep, hrecover, Error.isUnderflow]

/-- An instruction that finds too few operands is attempted again with a placeholder, until there
are enough of them. A failed attempt leaves no trace but the placeholder. -/
theorem exists_ends_of_takeRecovering (hrecover : ctx.recover = true)
    (hinstr : body[position]? = some instr) (hresolve : Action.resolve ctx.pool instr = .ok action)
    {tries : Nat} (henough : action.wants.length ≤ stack.length + tries)
    (hbehind : ctx.EndsBehind body position
      ((ctx.attemptSite body position instr).conclude locals frame action
        (takeRecovering position instr.offset action.wants tries stack)) tried outcome) :
    ∃ n ≤ tries, ctx.Ends body ⟨position, locals, frame.withStack stack⟩
      (List.replicate (n + 1) position ++ tried) outcome := by
  -- an attempt differs from the step that recovers only in how it takes its operands
  have hstep (stack : List Value) :
      (ctx.attemptSite body position instr).step locals (frame.withStack stack) =
        (ctx.attemptSite body position instr).conclude locals frame action
          (takeOperands instr.offset action.wants stack) :=
    Site.step_of_resolve_ok (ctx.attemptSite body position instr) hresolve _ _
  induction tries generalizing stack with
  | zero =>
    -- no tries are left, but there are operands enough by now
    have htaken : FailsOnly NotUnderflow (takeOperands instr.offset action.wants stack) :=
      failsOnly_takeOperands henough
    exact ⟨0, Nat.le_refl 0, ends_of_failsOnly hinstr (hstep stack)
      (Site.failsOnly_conclude htaken locals frame) hbehind⟩
  | succ tries ih =>
    rw [takeRecovering] at hbehind
    split at hbehind
    · next offset hunderflow =>
      obtain ⟨n, hn, hends⟩ := ih (by rw [List.length_cons]; omega) hbehind
      have hagain := (hstep stack).trans (congrArg _ hunderflow)
      exact ⟨n + 1, Nat.succ_le_succ hn, .turn (turn_of_underflow hrecover hinstr hagain) hends⟩
    · next hother =>
      have htaken := Result.failsOnly_notUnderflow_iff.mpr hother
      exact ⟨0, Nat.zero_le _, ends_of_failsOnly hinstr (hstep stack)
        (Site.failsOnly_conclude htaken locals frame) hbehind⟩

/-- **One instruction** is attempted at most once more than it has operands, and ends as the step
that recovers by itself. -/
theorem exists_ends_of_step (hrecover : ctx.recover = true) (hinstr : body[position]? = some instr)
    (hbehind : ctx.EndsBehind body position
      (Site.step { context := ctx, body, position, instr } locals frame) tried outcome) :
    ∃ n ≤ instr.demand ctx.pool, ctx.Ends body ⟨position, locals, frame⟩
      (List.replicate (n + 1) position ++ tried) outcome := by
  rcases hresolve : Action.resolve ctx.pool instr with e | action
  · rw [Site.step_of_resolve_error _ hresolve] at hbehind
    have hstep := Site.step_of_resolve_error (ctx.attemptSite body position instr) hresolve locals
      frame
    have he := Action.failsOnly_resolve ctx.pool instr e hresolve (p := NotUnderflow)
    exact ⟨0, Nat.zero_le _, ends_of_failsOnly hinstr hstep (Result.failsOnly_error.mpr he) hbehind⟩
  · rw [Site.step_of_resolve_ok _ hresolve, Site.operands, if_pos hrecover] at hbehind
    rw [← Action.demand_of_resolve hresolve]
    exact exists_ends_of_takeRecovering hrecover hinstr hresolve (Nat.le_add_left ..) hbehind

/-- **The loop ends**, as the run of the instructions that recover by themselves. The induction is
on the instructions that are left. -/
theorem exists_ends (hrecover : ctx.recover = true) {rest : List Instruction}
    (hrest : body.drop position = rest) (locals : Locals) (frame : Frame) :
    ∃ tried, ctx.Ends body ⟨position, locals, frame⟩ tried
        (ctx.runFrom body position rest locals frame) ∧
      (∀ p ∈ tried, position ≤ p) ∧
      ∀ p instr, body[p]? = some instr → tried.count p ≤ instr.demand ctx.pool + 1 := by
  induction rest generalizing position locals frame with
  | nil =>
    have hlength : body.length ≤ position := List.drop_eq_nil_iff.mp hrest
    refine ⟨[position], .last ?_, by simp, fun p instr hp => ?_⟩
    · simp [turn, hlength, runFrom]
    · have hne : position ≠ p := by
        have := (List.getElem?_eq_some_iff.mp hp).1
        omega
      rw [List.count_singleton, if_neg (by simpa using hne)]
      exact Nat.zero_le _
  | cons instr rest ih =>
    have hinstr : body[position]? = some instr := by
      rw [← List.head?_drop, hrest, List.head?_cons]
    have hrest' : body.drop (position + 1) = rest := by
      rw [← List.tail_drop, hrest, List.tail_cons]
    -- behind the instruction only later positions are tried
    have hbehind : ∃ tried, ctx.EndsBehind body position
        (Site.step { context := ctx, body, position, instr } locals frame) tried
        (ctx.runFrom body position (instr :: rest) locals frame) ∧
        (∀ p ∈ tried, position + 1 ≤ p) ∧
        ∀ p instr, body[p]? = some instr → tried.count p ≤ instr.demand ctx.pool + 1 := by
      rw [runFrom]
      rcases Site.step { context := ctx, body, position, instr } locals frame with
        ⟨locals', e | frame'⟩
      · exact ⟨[], ⟨rfl, rfl⟩, by simp, by simp⟩
      · exact ih hrest' locals' frame'
    obtain ⟨tried, hbehind, hle, hcount⟩ := hbehind
    obtain ⟨n, hn, hends⟩ := exists_ends_of_step hrecover hinstr hbehind
    refine ⟨_, hends, fun p hp => ?_, fun p instr' hp => ?_⟩
    · rcases List.mem_append.mp hp with hp | hp
      · exact Nat.le_of_eq (List.eq_of_mem_replicate hp).symm
      · exact Nat.le_of_succ_le (hle p hp)
    · rw [List.count_append, List.count_replicate]
      by_cases hposition : position = p
      · subst hposition
        obtain rfl := Option.some.inj (hinstr.symm.trans hp)
        -- so its own attempts are all that count here
        have hnone : tried.count position = 0 := by
          refine List.count_eq_zero.mpr fun hmem => ?_
          have := hle position hmem
          omega
        simp only [beq_self_eq_true, if_true, hnone]
        omega
      · rw [if_neg (by simpa using hposition), Nat.zero_add]
        exact hcount p instr' hp

end Context

/-! ### Padding -/

/-- Operands that are found with placeholders, one at a time, are found with all of the placeholders
put there at once. -/
theorem takeOperands_padded {position offset tries : Nat} {wants : List (Option String)}
    {stack : List Value} {taken : List Value × List Value}
    (h : takeRecovering position offset wants tries stack = .ok taken)
    (henough : wants.length ≤ stack.length + tries) :
    takeOperands offset wants
      (List.replicate (wants.length - stack.length) (placeholder position) ++ stack) =
        .ok taken := by
  -- a stack on which the operands are found misses none of them
  have hfound {stack : List Value} (htaken : takeOperands offset wants stack = .ok taken) :
      takeOperands offset wants
        (List.replicate (wants.length - stack.length) (placeholder position) ++ stack) =
          .ok taken := by
    obtain ⟨happend, hlength⟩ := eq_append_of_takeOperands htaken
    have hle : wants.length ≤ stack.length := by
      rw [happend, List.length_append]
      omega
    rw [Nat.sub_eq_zero_of_le hle]
    exact htaken
  induction tries generalizing stack with
  | zero => exact hfound h
  | succ tries ih =>
    rw [takeRecovering] at h
    split at h
    · next offset' hunderflow =>
      have hshort := length_lt_of_takeOperands hunderflow
      have hpadded := ih h (by rw [List.length_cons]; omega)
      have hmissing : wants.length - stack.length =
          wants.length - (placeholder position :: stack).length + 1 := by
        rw [List.length_cons]
        omega
      rw [hmissing, List.replicate_succ', List.append_assoc]
      exact hpadded
    · exact hfound h

namespace Site

/-- The stack with placeholders on top for the operands that the instruction misses. -/
def pad (site : Site) (stack : List Value) : List Value :=
  List.replicate (site.instr.demand site.context.pool - stack.length) (placeholder site.position)
    ++ stack

/-- Evaluates one instruction on the padded stack, without recovery. -/
def stepPadded (site : Site) (locals : Locals) (frame : Frame) : Locals × Result Frame :=
  (site.recovering false).step locals (frame.withStack (site.pad frame.stack))

/-- An instruction that succeeds with recovery does the same on the padded stack. -/
theorem stepPadded_eq_ok {site : Site} {locals locals' : Locals} {frame frame' : Frame}
    (h : (site.recovering true).step locals frame = (locals', .ok frame')) :
    site.stepPadded locals frame = (locals', .ok frame') := by
  rcases hresolve : Action.resolve site.context.pool site.instr with e | action
  · rw [step_of_resolve_error (site.recovering true) hresolve] at h
    cases h
  · rw [step_of_resolve_ok (site.recovering true) hresolve] at h
    rcases htaken : (site.recovering true).operands action frame.stack with e | taken
    · rw [htaken] at h
      cases h
    · have hpadded :
          (site.recovering false).operands action (site.pad frame.stack) = .ok taken := by
        rw [pad, ← Action.demand_of_resolve hresolve]
        exact takeOperands_padded htaken (Nat.le_add_left ..)
      rw [stepPadded, step_of_resolve_ok (site.recovering false) hresolve]
      rw [htaken] at h
      exact (congrArg _ hpadded).trans h

end Site

namespace Context

/-- Evaluates the instructions of a block from a position on, each of them once and on the padded
stack. -/
def runPadded (ctx : Context) (body : List Instruction) :
    (position : Nat) → List Instruction → Locals → Frame → Locals × Result Frame
  | _, [], locals, frame => (locals, .ok frame)
  | position, instr :: rest, locals, frame =>
    match Site.stepPadded { context := ctx, body, position, instr } locals frame with
    | (locals, .error e) => (locals, .error e)
    | (locals, .ok frame) => runPadded ctx body (position + 1) rest locals frame

/-- The state in which the instructions of a block are begun. -/
def firstAttempt (ctx : Context) (block : Block) (state : MethodState) : Attempt where
  position := 0
  locals := state.locals
  frame := entryFrame block (block.body ctx.graph.code).length state.objects

/-- The state and the lines behind a block, once its instructions have been run. -/
def settle (ctx : Context) (block : Block) (state : MethodState) :
    Locals × Result Frame → MethodState × Result (List (Option String))
  | (locals, .error e) => ({ state with locals }, .error e)
  | (locals, .ok frame) =>
    ({ locals, objects := frame.objects },
      .ok ((leftovers (block.body ctx.graph.code) frame.stack).foldl noteLeftover frame.lines))

/-- Evaluates a block on padded stacks. -/
def evaluatePadded (ctx : Context) (block : Block) (state : MethodState) :
    MethodState × Result (List (Option String)) :=
  let body := block.body ctx.graph.code
  ctx.settle block state
    (ctx.runPadded body 0 body state.locals (ctx.firstAttempt block state).frame)

variable {ctx : Context} {body rest : List Instruction} {position : Nat} {block : Block}
  {state after : MethodState} {locals locals' : Locals} {frame frame' : Frame}

/-- The evaluation of a block reads its result off what the run comes to. -/
theorem evaluate_eq_settle (ctx : Context) (block : Block) (state : MethodState) :
    ctx.evaluate block state = ctx.settle block state
      (ctx.runFrom (block.body ctx.graph.code) 0 (block.body ctx.graph.code) state.locals
        (ctx.firstAttempt block state).frame) := by
  rw [evaluate]
  split <;> next hrun => rw [firstAttempt, hrun]; rfl

/-- **A run with recovery that succeeds** is the run on padded stacks. -/
theorem runPadded_eq_ok
    (h : (ctx.recovering true).runFrom body position rest locals frame = (locals', .ok frame')) :
    ctx.runPadded body position rest locals frame = (locals', .ok frame') := by
  induction rest generalizing position locals frame with
  | nil => exact h
  | cons instr rest ih =>
    obtain ⟨locals₁, frame₁, hstep, hrun⟩ := runFrom_cons_eq_ok h
    have hpadded : Site.stepPadded { context := ctx, body, position, instr } locals frame =
        (locals₁, .ok frame₁) := Site.stepPadded_eq_ok hstep
    rw [runPadded, hpadded]
    exact ih hrun

/-- The evaluation of a block that succeeds with recovery is that on padded stacks. -/
theorem evaluatePadded_eq_ok {lines : List (Option String)}
    (h : (ctx.recovering true).evaluate block state = (after, .ok lines)) :
    ctx.evaluatePadded block state = (after, .ok lines) := by
  rcases hrun : (ctx.recovering true).runFrom (block.body ctx.graph.code) 0
    (block.body ctx.graph.code) state.locals (ctx.firstAttempt block state).frame with
    ⟨locals, result⟩
  have hsettle : ctx.settle block state (locals, result) = (after, .ok lines) := by
    rw [← h, ← hrun]
    exact ((ctx.recovering true).evaluate_eq_settle block state).symm
  rcases result with e | frame
  · cases hsettle
  · rw [evaluatePadded, runPadded_eq_ok hrun, hsettle]

end Context

/-- **Trying again is padding.** With recovery on, the loop over a block ends, in one way only,
after at most as many attempts at each instruction as it has operands and one more; the evaluation
of the block is read off that end. If it succeeds, it is the evaluation in which each instruction
finds placeholders for all the operands that it misses and is evaluated once. -/
theorem retries_are_padding (ctx : Context) (block : Block) (state : MethodState) :
    (∃ tried outcome,
      (ctx.recovering true).Ends (block.body ctx.graph.code) (ctx.firstAttempt block state)
        tried outcome ∧
      (∀ tried' outcome', (ctx.recovering true).Ends (block.body ctx.graph.code)
        (ctx.firstAttempt block state) tried' outcome' → tried' = tried ∧ outcome' = outcome) ∧
      (∀ position instr, (block.body ctx.graph.code)[position]? = some instr →
        tried.count position ≤ instr.demand ctx.pool + 1) ∧
      (ctx.recovering true).evaluate block state = ctx.settle block state outcome) ∧
    ∀ after lines, (ctx.recovering true).evaluate block state = (after, .ok lines) →
      ctx.evaluatePadded block state = (after, .ok lines) := by
  refine ⟨?_, fun after lines => Context.evaluatePadded_eq_ok⟩
  have hrecover : (ctx.recovering true).recover = true := rfl
  obtain ⟨tried, hends, -, hcount⟩ := Context.exists_ends hrecover List.drop_zero state.locals
    (ctx.firstAttempt block state).frame
  exact ⟨tried, _, hends, fun _ _ => hends.unique, hcount,
    (ctx.recovering true).evaluate_eq_settle block state⟩

/-- A swap of two values, neither of which is there. -/
theorem retries_are_padding_of_swap :
    ∃ g block after lines, (Code.ofParts 2 0 [0x5f, 0x57, 0x57, 0xb1] [] []).graph ⟨#[]⟩ = .ok g ∧
      g.blocks = .ok [block] ∧
      Context.evaluate ⟨"A", ⟨#[]⟩, g, true⟩ block ⟨⟨[], []⟩, 0⟩ = (after, .ok lines) ∧
      Context.evaluatePadded ⟨"A", ⟨#[]⟩, g, true⟩ block ⟨⟨[], []⟩, 0⟩ = (after, .ok lines) := by
  have hok : (do
      let g ← (Code.ofParts 2 0 [0x5f, 0x57, 0x57, 0xb1] [] []).graph ⟨#[]⟩
      let bs ← g.blocks
      return bs.map fun b =>
        (Context.evaluate ⟨"A", ⟨#[]⟩, g, true⟩ b ⟨⟨[], []⟩, 0⟩).2.isOk) = .ok [true] := by
    decide +kernel
  obtain ⟨g, hgraph, h⟩ := Result.bind_eq_ok.mp hok
  obtain ⟨bs, hblocks, h⟩ := Result.bind_eq_ok.mp h
  obtain ⟨block, rfl, hevaluate⟩ := List.map_eq_singleton_iff.mp (Result.pure_eq_ok.mp h)
  obtain ⟨lines, hlines⟩ := Result.exists_of_isOk hevaluate
  exact ⟨g, block, _, lines, hgraph, hblocks, Prod.ext rfl hlines,
    (retries_are_padding ⟨"A", ⟨#[]⟩, g, true⟩ block ⟨⟨[], []⟩, 0⟩).2 _ _ (Prod.ext rfl hlines)⟩

end JvmSource
