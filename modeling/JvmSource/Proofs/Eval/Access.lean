import JvmSource.Proofs.Eval.Attempt
import JvmSource.Proofs.Eval.Construction
import JvmSource.Proofs.Eval.Pending

/-!
# Accesses to lines and instructions

The evaluation of a block looks up instructions of the block and looks up, sets and adds to its
lines by their positions. A position outside of the block would go unnoticed in a list, so here each
of these accesses is checked, and a position outside of the block makes the evaluation give nothing
(`Site.step?`, `Context.evaluate?`).

There are three kinds of accesses, and each is shown to be in range:

* an action asks for the instruction and the line of the values that it inspects, and for no others
  (`Action.perform_congr`);
* an effect sets lines and adds to others (`Frame.applied?`): its own line and those of its
  operands, and those of the values that it flushes;
* at the end of the block what is left over is noted on the lines of the values.

All the positions are those of values on the stack or of the instruction itself, and at every
attempt the values are within the block. So no check ever fails: `accesses_in_range`.

The operators and types of some families of opcodes stand in tables; each opcode of such a family
finds its entries (`Opcode.Family`), and these are those of the catalogue.
-/

namespace JvmSource

/-! ### Checked accesses -/

namespace Frame

/-- Changes the lines at a position that has to be there. -/
def changeAt? (position : Nat) (change : List (Option String) → List (Option String))
    (lines : List (Option String)) : Option (List (Option String)) :=
  if position < lines.length then some (change lines) else none

/-- Writes each value as a statement on its line, which has to be there. -/
def flush? (lines : List (Option String)) (values : List Value) : Option (List (Option String)) :=
  values.foldlM (fun lines v => changeAt? v.origin
    (appendLine · v.origin (v.text ++ ";") " /* Same line */ ") lines) lines

/-- Sets lines that have to be there. -/
def set? (lines : List (Option String)) (writes : List (Nat × Option String)) :
    Option (List (Option String)) :=
  writes.foldlM (fun lines write => changeAt? write.1 (·.set write.1 write.2) lines) lines

/-- The frame after an effect, with checked accesses. -/
def applied? (frame : Frame) (rest : List Value) (effect : Effect) : Option Frame := do
  let flushed ← if effect.flushes then flush? frame.lines rest else some frame.lines
  let lines ← set? flushed effect.writes
  return { stack := effect.results ++ (if effect.flushes then [] else rest)
           lines
           objects := frame.objects + effect.objects }

section

variable {α : Type} {position : α → Nat}
  (change : α → List (Option String) → List (Option String))

/-- Changes that add no lines can be made one after the other, if the lines are there at first. -/
theorem foldlM_changeAt? (hchange : ∀ x lines, (change x lines).length = lines.length)
    {xs : List α} {lines : List (Option String)} (h : ∀ x ∈ xs, position x < lines.length) :
    xs.foldlM (fun lines x => changeAt? (position x) (change x) lines) lines =
      some (xs.foldl (fun lines x => change x lines) lines) := by
  induction xs generalizing lines with
  | nil => rfl
  | cons x xs ih =>
    obtain ⟨hx, hxs⟩ := List.forall_mem_cons.mp h
    rw [List.foldlM_cons, changeAt?, if_pos hx, List.foldl_cons]
    exact ih (by rwa [hchange])

end

/-- An effect passes its checks if the lines of what it flushes and what it sets are there. -/
theorem applied?_eq_some {frame : Frame} {rest : List Value} {effect : Effect}
    (hrest : ∀ v ∈ rest, v.origin < frame.lines.length)
    (hwrites : ∀ write ∈ effect.writes, write.1 < frame.lines.length) :
    frame.applied? rest effect = some (frame.apply rest effect) := by
  have hflush : flush? frame.lines rest = some (flush frame.lines rest) :=
    foldlM_changeAt? (fun (v : Value) lines =>
      appendLine lines v.origin (v.text ++ ";") " /* Same line */ ")
      (fun _ _ => length_appendLine ..) hrest
  have hset {lines : List (Option String)} (hlength : lines.length = frame.lines.length) :
      set? lines effect.writes =
        some (effect.writes.foldl (fun lines write => lines.set write.1 write.2) lines) :=
    foldlM_changeAt? (fun (write : Nat × Option String) lines => lines.set write.1 write.2)
      (fun _ _ => List.length_set) (by rwa [hlength])
  rw [applied?, apply]
  split
  · simp [hflush, hset (length_flush ..)]
  · simp [hset rfl]

end Frame

namespace Action

/-- The values whose instructions and lines an action asks for: the top, if it is to be duplicated,
and the object of a constructor call. -/
def inspected (operands : List Value) : Action → List Value
  | unary .dup => operands
  | action => (action.constructed? operands).toList

/-- The values that an action inspects are operands. -/
theorem inspected_subset {action : Action} {operands : List Value} {v : Value}
    (h : v ∈ action.inspected operands) : v ∈ operands := by
  unfold inspected at h
  split at h
  · exact h
  · exact mem_of_constructed? (Option.mem_toList.mp h)

/-- **An action asks for nothing else**: with another block and other lines it does the same, if
they have the same instructions and lines for the values that it inspects. -/
theorem perform_congr {site : Site} {frame : Frame} {locals : Locals} {action : Action}
    {operands : List Value} {body : List Instruction} {lines : List (Option String)}
    (h : ∀ v ∈ action.inspected operands,
      body[v.origin]? = site.body[v.origin]? ∧ lines[v.origin]? = frame.lines[v.origin]?) :
    action.perform { site with body } { frame with lines } locals operands =
      action.perform site frame locals operands := by
  unfold perform
  split
  · next a => cases a <;> rfl
  · rfl
  · next a => cases a <;> rfl
  · next a value =>
    cases a with
    | dup =>
      -- a copy looks at the instruction that made the value, and at its line
      obtain ⟨hbody, hline⟩ := h value List.mem_cons_self
      simp only [Unary.effect, dupEffect, Site.operationAt?, hbody, hline]
      rfl
    | _ => rfl
  · rfl
  · rfl
  · next a =>
    cases a with
    | callOn method =>
      simp only [Variadic.effect]
      refine congrArg _ (bind_congr fun arguments => ?_)
      cases hobject : operands[method.type.arguments.length]? with
      | none => rfl
      | some object =>
        by_cases hinit : method.name = "<init>"
        · -- a constructor call does so for its object, other calls look at nothing
          obtain ⟨hbody, hline⟩ := h object (by simp [inspected, constructed?, hinit, hobject])
          simp only [if_pos hinit, constructorEffect, Site.operationAt?, hbody, hline]
          rfl
        · simp only [if_neg hinit]
          rfl
    | _ => rfl
  · rfl

end Action

namespace Site

/-- Evaluates one instruction with checked accesses. -/
def step? (site : Site) (locals : Locals) (frame : Frame) : Option (Locals × Result Frame) :=
  match Action.resolve site.context.pool site.instr with
  | .error e => some (locals, .error e)
  | .ok action =>
    match site.operands action frame.stack with
    | .error e => some (locals, .error e)
    | .ok (operands, rest) =>
      if ∀ v ∈ action.inspected operands,
          v.origin < site.body.length ∧ v.origin < frame.lines.length then
        match action.perform site frame locals operands with
        | (locals, .error e) => some (locals, .error e)
        | (locals, .ok effect) => (frame.applied? rest effect).map fun frame => (locals, .ok frame)
      else none

/-- A step passes its checks in a frame whose values are within the block. -/
theorem step?_eq_some {site : Site} {frame : Frame}
    (hlines : frame.lines.length = site.body.length) (hposition : site.position < site.body.length)
    (hstack : ∀ v ∈ frame.stack, v.origin < site.body.length) (locals : Locals) :
    site.step? locals frame = some (site.step locals frame) := by
  rw [step?, step]
  cases hresolve : Action.resolve site.context.pool site.instr with
  | error e => rfl
  | ok action =>
    dsimp only
    cases hoperands : site.operands action frame.stack with
    | error e => rfl
    | ok taken =>
      obtain ⟨operands, rest⟩ := taken
      obtain ⟨missing, happend, -, -⟩ := operands_eq_ok hoperands
      have hbefore : ∀ v ∈ operands ++ rest, v.origin < site.body.length := by
        intro v hv
        rw [← happend, List.mem_append] at hv
        rcases hv with hv | hv
        · -- a placeholder comes from the instruction itself
          rwa [List.eq_of_mem_replicate hv]
        · exact hstack v hv
      obtain ⟨htaken, hbelow⟩ := List.forall_mem_append.mp hbefore
      have hinspected : ∀ v ∈ action.inspected operands,
          v.origin < site.body.length ∧ v.origin < frame.lines.length := by
        intro v hv
        have horigin := htaken v (Action.inspected_subset hv)
        exact ⟨horigin, by rwa [hlines]⟩
      dsimp only
      rw [if_pos hinspected]
      rcases hperform : action.perform site frame locals operands with ⟨locals', e | effect⟩
      · rfl
      · have hwrites : ∀ write ∈ effect.writes, write.1 < frame.lines.length := by
          intro write hwrite
          have hdoes := action.does_perform effect (congrArg Prod.snd hperform)
          rw [hlines]
          -- an effect writes to its own line and to those of its operands
          rcases hdoes.position_or_origin hwrite with heq | ⟨v, hv, heq⟩
          · rwa [heq]
          · rw [heq]
            exact htaken v hv
        dsimp only
        rw [Frame.applied?_eq_some (by rwa [hlines]) hwrites]
        rfl

end Site

namespace Context

/-- Evaluates the instructions of a block from a position on, with checked accesses. -/
def runFrom? (ctx : Context) (body : List Instruction) :
    (position : Nat) → List Instruction → Locals → Frame → Option (Locals × Result Frame)
  | _, [], locals, frame => some (locals, .ok frame)
  | position, instr :: rest, locals, frame =>
    match Site.step? { context := ctx, body, position, instr } locals frame with
    | none => none
    | some (locals, .error e) => some (locals, .error e)
    | some (locals, .ok frame) => runFrom? ctx body (position + 1) rest locals frame

/-- Evaluates a block with checked accesses. -/
def evaluate? (ctx : Context) (block : Block) (state : MethodState) :
    Option (MethodState × Result (List (Option String))) :=
  let body := block.body ctx.graph.code
  match ctx.runFrom? body 0 body state.locals (entryFrame block body.length state.objects) with
  | none => none
  | some (locals, .error e) => some ({ state with locals }, .error e)
  | some (locals, .ok frame) =>
    ((leftovers body frame.stack).foldlM
      (fun lines v => Frame.changeAt? v.origin (noteLeftover · v) lines) frame.lines).map
        fun lines => ({ locals, objects := frame.objects }, .ok lines)

variable {ctx : Context} {body rest : List Instruction} {position : Nat} {locals locals' : Locals}
  {frame frame' : Frame} {b : Block} {state after : MethodState}

/-- A note adds no line. -/
theorem length_noteLeftover (lines : List (Option String)) (v : Value) :
    (noteLeftover lines v).length = lines.length :=
  Frame.length_appendLine ..

/-- A run passes its checks. -/
theorem runFrom?_eq_some (hframe : frame.Within body.length position)
    (hrest : position + rest.length = body.length) (locals : Locals) :
    ctx.runFrom? body position rest locals frame =
      some (ctx.runFrom body position rest locals frame) := by
  induction rest generalizing position locals frame with
  | nil => rfl
  | cons instr rest ih =>
    rw [List.length_cons] at hrest
    have hposition : position < body.length := by omega
    have hmax : max 1 position ≤ body.length := Nat.max_le.mpr ⟨by omega, Nat.le_of_lt hposition⟩
    have hstep : Site.step? { context := ctx, body, position, instr } locals frame =
        some (Site.step { context := ctx, body, position, instr } locals frame) := by
      refine Site.step?_eq_some hframe.length_lines hposition (fun v hv => ?_) locals
      exact Nat.lt_of_lt_of_le (hframe.origin_lt v hv) hmax
    rw [runFrom?, hstep, runFrom]
    rcases hnext : Site.step { context := ctx, body, position, instr } locals frame with
      ⟨locals', e | frame'⟩
    · rfl
    · exact ih (hframe.step hnext) (by dsimp only; omega) locals'

/-- **Evaluation passes its checks.** -/
theorem evaluate?_eq_some (hhandler : b.isHandler = true → b.body ctx.graph.code ≠ [])
    (state : MethodState) : ctx.evaluate? b state = some (ctx.evaluate b state) := by
  have hentry := within_entryFrame b (b.body ctx.graph.code).length state.objects
  simp only [evaluate?, evaluate, runFrom?_eq_some hentry (Nat.zero_add _)]
  split
  · next h => cases h
  · next h => rw [Option.some.inj h]
  · next locals frame h =>
    have hrun := Option.some.inj h
    rw [hrun, Frame.foldlM_changeAt? (fun v lines => noteLeftover lines v)
      (fun v lines => length_noteLeftover lines v), Option.map_some]
    intro v hv
    have hwithin := hentry.runFrom hrun
    have := hwithin.origin_lt v (leftovers_subset hv)
    rw [hwithin.length_lines]
    rcases Nat.eq_zero_or_pos (b.body ctx.graph.code).length with hzero | hpos
    · -- nothing has been evaluated, so the value would be the caught exception
      have hnil := List.eq_nil_of_length_eq_zero hzero
      rw [hnil] at hrun
      cases hrun
      obtain ⟨type, hcaught, -⟩ :=
        Option.map_eq_some_iff.mp (Option.mem_toList.mp (leftovers_subset hv))
      exact absurd hnil (hhandler (by rw [Block.isHandler, hcaught]; rfl))
    · omega

/-- Evaluation gives one line or none for each instruction. -/
theorem length_lines_of_evaluate {lines : List (Option String)}
    (h : ctx.evaluate b state = (after, .ok lines)) :
    lines.length = (b.body ctx.graph.code).length := by
  obtain ⟨locals, frame, hrun, rfl⟩ := evaluate_eq_ok h
  have hlength : ∀ (values : List Value) (lines : List (Option String)),
      (values.foldl noteLeftover lines).length = lines.length := by
    intro values lines
    induction values generalizing lines with
    | nil => rfl
    | cons v values ih => rw [List.foldl_cons, ih, length_noteLeftover]
  rw [hlength]
  exact (within_of_runBlock hrun).length_lines

/-- The evaluation of a block stays within it, at every attempt and at its end. -/
structure StaysWithin (ctx : Context) (b : Block) (state : MethodState) : Prop where
  /-- There is a line for each instruction. -/
  length_lines : ∀ {a}, ctx.Attempts b state a → a.frame.lines.length = b.stop - b.start
  /-- A value comes from an instruction of the block, from the attempted one at the latest. -/
  origin_le : ∀ {a}, ctx.Attempts b state a → ∀ v ∈ a.frame.stack,
    v.origin ≤ a.position ∧ v.origin < b.stop - b.start
  /-- No attempt fails a check. -/
  step : ∀ {a instr}, ctx.Attempts b state a →
    (b.body ctx.graph.code)[a.position]? = some instr →
    (ctx.attemptSite (b.body ctx.graph.code) a.position instr).step? a.locals a.frame =
      some ((ctx.attemptSite (b.body ctx.graph.code) a.position instr).step a.locals a.frame)
  /-- The evaluation, which is the outcome of the last attempt, passes all checks. -/
  evaluate : ∃ a outcome, ctx.Attempts b state a ∧
    ctx.turn (b.body ctx.graph.code) a = .inr outcome ∧
    ctx.evaluate? b state = some (ctx.settle b state outcome) ∧
    ctx.evaluate b state = ctx.settle b state outcome
  /-- It gives one line or none for each instruction. -/
  length_evaluate : ∀ {after lines}, ctx.evaluate b state = (after, .ok lines) →
    lines.length = b.stop - b.start

/-- The evaluation of a block stays within it, if the block lies inside the method and is no empty
handler. -/
theorem staysWithin {ctx : Context} {b : Block} (state : MethodState)
    (hlength : (b.body ctx.graph.code).length = b.stop - b.start)
    (hhandler : b.isHandler = true → b.body ctx.graph.code ≠ []) : ctx.StaysWithin b state where
  length_lines ha := by rw [(Attempt.Within.of_attempts hhandler ha).length_lines, hlength]
  origin_le ha := by
    rw [← hlength]
    exact (Attempt.Within.of_attempts hhandler ha).origin_le
  step {a instr} ha hinstr := by
    have hwithin := Attempt.Within.of_attempts hhandler ha
    exact Site.step?_eq_some hwithin.length_lines (List.getElem?_eq_some_iff.mp hinstr).1
      (fun v hv => (hwithin.origin_le v hv).2) a.locals
  evaluate := by
    obtain ⟨a, outcome, ha, hturn, hevaluate⟩ := ctx.exists_last_attempt b state
    exact ⟨a, outcome, ha, hturn, by rw [evaluate?_eq_some hhandler, hevaluate], hevaluate⟩
  length_evaluate h := by rw [length_lines_of_evaluate h, hlength]

end Context

/-! ### Tables of operators and types -/

namespace Opcode

/-- Opcodes in a row whose operations are looked up in fixed tables by their place in the row. -/
structure Family where
  /-- The code of the first opcode. -/
  first : Nat
  /-- The number of opcodes. -/
  size : Nat
  /-- The operation at a place, if the tables have the entries for it. -/
  operation? : (place : Nat) → Option Operation

/-- The operators of the arithmetic instructions. -/
def arithmeticOperators : List BinaryOperator := [.add, .sub, .mul, .div, .rem]

/-- The operators of the bitwise instructions. -/
def bitwiseOperators : List BinaryOperator := [.and, .or, .xor]

/-- The operators of the shifts. -/
def shiftOperators : List ShiftOperator := [.left, .right, .unsignedRight]

/-- The comparisons of the conditional branches. -/
def comparisons : List Comparison := [.eq, .ne, .lt, .ge, .gt, .le]

/-- The types of the operands of arithmetic; the first two are those of bitwise instructions and
shifts. -/
def numericTypes : List Ty := [.int, .long, .float, .double]

/-- The results of the conversions. -/
def conversionTypes : List Ty :=
  [.long, .float, .double, .int, .float, .double, .int, .long, .double, .int, .long, .float, .byte,
    .char, .short]

/-- The families of opcodes. Where a family has an operator and a type, the type changes faster. -/
def families : List Family := [
  ⟨0x60, 20, fun p => do return .binary (← arithmeticOperators[p / 4]?) (← numericTypes[p % 4]?)⟩,
  ⟨0x74, 4, fun p => do return .negate (← numericTypes[p]?)⟩,
  ⟨0x78, 6, fun p => do return .shift (← shiftOperators[p / 2]?) (← numericTypes[p % 2]?)⟩,
  ⟨0x7e, 6, fun p => do return .binary (← bitwiseOperators[p / 2]?) (← numericTypes[p % 2]?)⟩,
  ⟨0x85, 15, fun p => do return .convert (← conversionTypes[p]?)⟩,
  ⟨0x99, 6, fun p => do return .branch (← comparisons[p]?) .zero⟩,
  ⟨0x9f, 6, fun p => do return .branch (← comparisons[p]?) .popped⟩]

/-- **Each opcode of a family finds its entries** in the tables. -/
theorem operation?_families : ∀ family ∈ families, ∀ place < family.size,
    family.operation? place ≠ none ∧
      (find? (UInt8.ofNat (family.first + place))).map (·.operation) = family.operation? place := by
  decide +kernel

end Opcode

/-- **Accesses stay in range.** While a block is evaluated, at every attempt at an instruction, the
values on the stack come from instructions of the block up to the attempted one, and there is a line
for each instruction. So every access to a line or to an instruction of the block finds it, and the
evaluation gives one line or none for each instruction. An action asks for no other line and no
other instruction than those of the values that it inspects. Where the operation of an opcode is
looked up in tables of operators and types, they have entries for it. -/
theorem accesses_in_range (ctx : Context) (b : Block) (state : MethodState)
    (hstart : b.start ≤ b.stop) (hstop : b.stop ≤ ctx.graph.code.length)
    (hhandler : b.isHandler = true → b.start < b.stop) :
    (b.body ctx.graph.code).length = b.stop - b.start ∧ ctx.StaysWithin b state ∧
    (∀ (site : Site) (frame : Frame) (locals : Locals) (action : Action) (operands : List Value)
      (body : List Instruction) (lines : List (Option String)),
      (∀ v ∈ action.inspected operands,
        body[v.origin]? = site.body[v.origin]? ∧ lines[v.origin]? = frame.lines[v.origin]?) →
      action.perform { site with body } { frame with lines } locals operands =
        action.perform site frame locals operands) ∧
    ∀ family ∈ Opcode.families, ∀ place < family.size, family.operation? place ≠ none ∧
      (Opcode.find? (UInt8.ofNat (family.first + place))).map (·.operation) =
        family.operation? place := by
  have hlength : (b.body ctx.graph.code).length = b.stop - b.start := by
    rw [Block.body, List.length_take, List.length_drop]
    omega
  refine ⟨hlength, ctx.staysWithin state hlength fun h => ?_,
    fun _ _ _ _ _ _ _ => Action.perform_congr, Opcode.operation?_families⟩
  have := hhandler h
  exact List.ne_nil_of_length_pos (by omega)

/-- A handler that swaps the caught exception with a value that is not there. -/
theorem accesses_in_range_of_swap :
    let swap : Instruction := ⟨0, 0, ⟨0x5f, "swap", .fixed [], .swap⟩, []⟩
    let throw : Instruction := ⟨1, 1, ⟨0xbf, "athrow", .fixed [], .throw⟩, []⟩
    let ctx : Context := ⟨"A", ⟨#[]⟩, ⟨[swap, throw], [], [], [], []⟩, true⟩
    let b : Block := ⟨0, 2, ⟨0, .handler⟩, [], [], some "Throwable"⟩
    let again : Attempt := ⟨0, ⟨[], []⟩,
      ⟨[placeholder 0, .ofVariable 0 "exception" "Throwable"], [none, none], 0⟩⟩
    ctx.Attempts b ⟨⟨[], []⟩, 0⟩ again ∧ (∀ v ∈ again.frame.stack, v.origin < 2) ∧
      (ctx.evaluate? b ⟨⟨[], []⟩, 0⟩).map (·.2) =
        some (.ok [some "MISSING_STACK_OBJECT;", some "throw exception;"]) := by
  intro swap throw ctx b again
  have hturn :
      ctx.turn (b.body ctx.graph.code) (ctx.firstAttempt b ⟨⟨[], []⟩, 0⟩) = .inl again := by
    decide +kernel
  have hagain : ctx.Attempts b ⟨⟨[], []⟩, 0⟩ again := .single hturn
  obtain ⟨-, hwithin, -, -⟩ := accesses_in_range ctx b ⟨⟨[], []⟩, 0⟩ (by decide) (by decide)
    (by decide)
  refine ⟨hagain, fun v hv => (hwithin.origin_le hagain v hv).2, ?_⟩
  obtain ⟨a, outcome, -, -, hchecked, hevaluate⟩ := hwithin.evaluate
  rw [hchecked, ← hevaluate]
  decide +kernel

end JvmSource
