import JvmSource.Proofs.Eval.Step

/-!
# The line of a branch

A branch takes its operands, pushes nothing and writes one line: the jump alone, or the jump behind
a condition (`BranchForm`). The jump is a `goto` to the label of its target, which is resolved again
from the code and looked up in the graph (`Site.targetLabel_eq_ok`).

What its block leaves on the stack is noted on other lines, with one exception: a handler that
begins with a jump leaves the caught exception, which counts as pushed by that jump, and is noted
behind it (`Context.getElem?_evaluate_of_isBranch`). A branch with a condition takes an operand, so
in a handler of one instruction it takes the exception, and leaves nothing. In a longer block, what
is left at the end comes from instructions before the last one (`Context.origin_ne_or_exception`).
-/

namespace JvmSource

/-- How a branch is written: always jumping, or when a condition holds. -/
inductive BranchForm where
  | always
  | when (condition : String)
  deriving DecidableEq

/-- The line of a branch with the given jump. -/
def BranchForm.write (jump : String) : BranchForm → String
  | always => jump ++ ";"
  | when condition => "if(" ++ condition ++ ") \x7b " ++ jump ++ "; \x7d"

/-- The label of a branch target is that of the index it jumps to. -/
theorem Site.targetLabel_eq_ok {site : Site} {label : Label} (h : site.targetLabel = .ok label) :
    ∃ target, requireTarget site.context.graph.code site.instr = .ok target ∧
      site.context.graph.label? target = some label := by
  obtain ⟨target, htarget, h⟩ := Result.bind_eq_ok.mp h
  split at h
  · next hlabel => exact ⟨target, htarget, Result.pure_eq_ok.mp h ▸ hlabel⟩
  · cases h

/-- A conditional jump is written in the form that has a condition. -/
theorem Action.branchText_eq (condition : String) (label : Label) :
    branchText condition label = (BranchForm.when condition).write ("goto " ++ label.text) := by
  refine String.toList_injective ?_
  simp [branchText, BranchForm.write]

/-- The action of a branch is a jump or a test. -/
theorem Action.resolve_of_isBranch {pool : Pool} {instr : Instruction} {action : Action}
    (hbranch : instr.operation.isBranch = true) (h : resolve pool instr = .ok action) :
    action = .nullary .jump ∨ (∃ test, action = .unary (.testZero test)) ∨
      (∃ test, action = .unary (.testNull test)) ∨ ∃ test, action = .binary (.test test) := by
  rw [resolve] at h
  cases hop : instr.operation with
  | branch test against =>
    rw [hop] at h
    cases against with
    | zero => exact .inr (.inl ⟨test, (Except.ok.inj h).symm⟩)
    | null => exact .inr (.inr (.inl ⟨test, (Except.ok.inj h).symm⟩))
    | popped => exact .inr (.inr (.inr ⟨test, (Except.ok.inj h).symm⟩))
  | jump =>
    rw [hop] at h
    exact .inl (Except.ok.inj h).symm
  | subroutine =>
    rw [hop] at h
    cases h
  | _ =>
    rw [hop] at hbranch
    cases hbranch

/-- **The effect of a branch** is its line. A branch with a condition has an operand. -/
theorem Action.perform_of_isBranch {site : Site} {frame : Frame} {locals locals' : Locals}
    {action : Action} {operands : List Value} {effect : Effect}
    (hbranch : site.instr.operation.isBranch = true)
    (hresolve : resolve site.context.pool site.instr = .ok action)
    (hlength : operands.length = action.demand)
    (h : action.perform site frame locals operands = (locals', .ok effect)) :
    ∃ form label, site.targetLabel = .ok label ∧
      effect = site.write (BranchForm.write ("goto " ++ label.text) form) ∧
      (form = .always ∨ operands ≠ []) := by
  rcases resolve_of_isBranch hbranch hresolve with rfl | ⟨test, rfl⟩ | ⟨test, rfl⟩ | ⟨test, rfl⟩
  · obtain rfl := List.eq_nil_of_length_eq_zero hlength
    obtain ⟨label, hlabel, heffect⟩ := Result.bind_eq_ok.mp (congrArg Prod.snd h)
    obtain rfl := Result.pure_eq_ok.mp heffect
    exact ⟨.always, label, hlabel, rfl, .inl rfl⟩
  · obtain ⟨value, rfl⟩ := List.length_eq_one_iff.mp hlength
    obtain ⟨label, hlabel, h⟩ := Result.bind_eq_ok.mp (congrArg Prod.snd h)
    obtain ⟨condition, -, heffect⟩ := Result.bind_eq_ok.mp h
    obtain rfl := Result.pure_eq_ok.mp heffect
    exact ⟨.when condition, label, hlabel, by rw [branchText_eq], .inr (by simp)⟩
  · obtain ⟨value, rfl⟩ := List.length_eq_one_iff.mp hlength
    obtain ⟨label, hlabel, heffect⟩ := Result.bind_eq_ok.mp (congrArg Prod.snd h)
    obtain rfl := Result.pure_eq_ok.mp heffect
    exact ⟨.when _, label, hlabel, by rw [branchText_eq], .inr (by simp)⟩
  · obtain ⟨top, second, rfl⟩ := List.length_eq_two.mp hlength
    obtain ⟨label, hlabel, heffect⟩ := Result.bind_eq_ok.mp (congrArg Prod.snd h)
    obtain rfl := Result.pure_eq_ok.mp heffect
    exact ⟨.when _, label, hlabel, by rw [branchText_eq], .inr (by simp)⟩

/-! ### What a block leaves behind -/

namespace Context

/-- A note is put on the line of the value's origin only. -/
theorem getElem?_foldl_noteLeftover {values : List Value} {position : Nat}
    (h : ∀ v ∈ values, v.origin ≠ position) (lines : List (Option String)) :
    (values.foldl noteLeftover lines)[position]? = lines[position]? :=
  Frame.getElem?_foldl_appendLine h _ _ lines

/-- Everything that a block leaves behind a branch counts. -/
theorem leftovers_of_isBranch {front : List Instruction} {instr : Instruction}
    (h : instr.operation.isBranch = true) (stack : List Value) :
    leftovers (front ++ [instr]) stack = stack := by
  have hthrow : instr.operation ≠ .throw := fun heq => by simp [heq, Operation.isBranch] at h
  simp [leftovers, hthrow]

/-- What is noted behind the jump of a handler that begins with one. -/
def exceptionNote : String :=
  " // UNHANDLED STACK OBJECT: exception"

/-- The note on the caught exception, on a line that holds something already. -/
theorem getElem?_noteLeftover_exception {lines : List (Option String)} {position : Nat}
    {line type : String} (h : lines[position]? = some (some line)) :
    (noteLeftover lines (Value.ofVariable position "exception" type))[position]? =
      some (some (line ++ exceptionNote)) := by
  have htext : Text.replaceChars (fun c => c == '\r' || c == '\n') "~NEWLINE"
      (Value.ofVariable position "exception" type).text = "exception" := by
    show Text.replaceChars _ _ "exception" = "exception"
    decide
  rw [noteLeftover, htext, Frame.appendLine, List.getElem?_modify]
  simp [h, Value.ofVariable, exceptionNote, String.append_assoc]

end Context

/-- A list around one of its elements. -/
theorem eq_take_append_cons_drop {α : Type} {xs : List α} {k : Nat} {x : α} (h : xs[k]? = some x) :
    xs = xs.take k ++ x :: xs.drop (k + 1) := by
  obtain ⟨hlt, rfl⟩ := List.getElem?_eq_some_iff.mp h
  rw [← List.drop_eq_getElem_cons hlt, List.take_append_drop]

/-- The instructions of a block before its last one. -/
theorem Block.body_eq_append {block : Block} {code : List Instruction} {instr : Instruction}
    (hblock : block.start < block.stop) (hinstr : code[block.last]? = some instr) :
    ∃ front, block.body code = front ++ [instr] ∧ front.length = block.last - block.start := by
  rw [Block.last] at hinstr ⊢
  obtain ⟨hlt, -⟩ := List.getElem?_eq_some_iff.mp hinstr
  have hlength : (block.body code).length = block.stop - 1 - block.start + 1 := by
    rw [Block.body, List.length_take, List.length_drop]
    omega
  have hget : (block.body code)[block.stop - 1 - block.start]? = some instr := by
    rw [Block.body, List.getElem?_take_of_lt (by omega), List.getElem?_drop, ← hinstr]
    congr 1
    omega
  refine ⟨(block.body code).take (block.stop - 1 - block.start), ?_, ?_⟩
  · have hsplit := eq_take_append_cons_drop hget
    rwa [List.drop_eq_nil_of_le (Nat.le_of_eq hlength)] at hsplit
  · rw [List.length_take]
    omega

namespace Context

variable {ctx : Context} {block : Block} {state state' : MethodState}
  {lines : List (Option String)} {instr : Instruction}

/-- What is left on the stack below the operands of the last instruction of a block comes from
instructions before it, but for the exception in a handler of one instruction without operands. -/
theorem origin_ne_or_exception {size objects : Nat} {body front : List Instruction}
    {locals₀ locals : Locals} {frame : Frame} {site : Site} {action : Action}
    {operands rest : List Value}
    (hrun : ctx.runFrom body 0 front locals₀ (entryFrame block size objects) = (locals, .ok frame))
    (hposition : site.position = front.length)
    (hoperands : site.operands action frame.stack = .ok (operands, rest)) :
    (∀ v ∈ rest, v.origin ≠ site.position) ∨
      operands = [] ∧ ∃ type, block.caught = some type ∧
        rest = [Value.ofVariable site.position "exception" type] := by
  have hwithin := (within_entryFrame block size objects).runFrom hrun
  obtain ⟨missing, happend, -, hmissing⟩ := Site.operands_eq_ok hoperands
  rcases hmissing with rfl | rfl
  · rw [List.replicate_zero, List.nil_append] at happend
    cases front with
    | cons first front =>
      refine .inl fun v hv => ?_
      have := hwithin.origin_lt v (happend ▸ List.mem_append_right _ hv)
      rw [hposition]
      simp only [List.length_cons] at this ⊢
      omega
    | nil =>
      -- the stack is still the one on entry
      rw [List.length_nil] at hposition
      cases hrun
      cases hcaught : block.caught with
      | none =>
        rw [entryFrame, hcaught] at happend
        obtain ⟨-, rfl⟩ := List.append_eq_nil_iff.mp happend.symm
        exact .inl (List.forall_mem_nil _)
      | some type =>
        rw [entryFrame, hcaught] at happend
        rcases List.append_eq_singleton_iff.mp happend.symm with ⟨rfl, rfl⟩ | ⟨-, rfl⟩
        · exact .inr ⟨rfl, type, rfl, by rw [hposition]⟩
        · exact .inl (List.forall_mem_nil _)
  · exact .inl (List.forall_mem_nil _)

/-- **The line of a branch** at the end of a block: its jump goes to the label of its target, and
nothing is noted behind it, unless it is the jump of a handler that begins with one. -/
theorem getElem?_evaluate_of_isBranch (h : ctx.evaluate block state = (state', .ok lines))
    (hblock : block.start < block.stop) (hinstr : ctx.graph.code[block.last]? = some instr)
    (hbranch : instr.operation.isBranch = true) :
    ∃ form target label tail, requireTarget ctx.graph.code instr = .ok target ∧
      ctx.graph.label? target = some label ∧
      lines[block.last - block.start]? =
        some (some (BranchForm.write ("goto " ++ label.text) form ++ tail)) ∧
      (tail = "" ∨ form = .always ∧ block.isHandler = true ∧ tail = exceptionNote) := by
  obtain ⟨front, hbody, hfront⟩ := Block.body_eq_append hblock hinstr
  rw [evaluate, hbody] at h
  split at h
  · cases h
  · next locals frame hrun =>
    obtain rfl := Except.ok.inj (Prod.mk.inj h).2
    obtain ⟨locals₁, frame₁, hrunFront, hrunLast⟩ := runFrom_append_eq_ok hrun
    rw [Nat.zero_add] at hrunLast
    obtain ⟨locals₂, frame₂, hstep, hend⟩ := runFrom_cons_eq_ok hrunLast
    cases hend
    obtain ⟨action, operands, rest, effect, hresolve, hoperands, hperform, rfl⟩ :=
      Site.step_eq_ok hstep
    -- the last step is that of the branch, which writes the line of its own position
    obtain ⟨missing, -, hlength, -⟩ := Site.operands_eq_ok hoperands
    obtain ⟨form, label, hlabel, rfl, hform⟩ :=
      Action.perform_of_isBranch hbranch hresolve hlength hperform
    have hwithin := (within_entryFrame block _ state.objects).runFrom hrunFront
    have hline : (frame₁.lines.set front.length
        (some (form.write ("goto " ++ label.text))))[front.length]? =
          some (some (form.write ("goto " ++ label.text))) := by
      rw [List.getElem?_set_self (by simp [hwithin.length_lines])]
    have hrest : leftovers (front ++ [instr]) rest = rest := leftovers_of_isBranch hbranch rest
    obtain ⟨target, htarget, hlabel⟩ := Site.targetLabel_eq_ok hlabel
    refine ⟨form, target, label, ?_⟩
    rw [← hfront]
    -- a note behind the jump would be that of a value from the same position: there is none but the
    -- exception of a handler that begins with the branch
    rcases origin_ne_or_exception hrunFront rfl hoperands with
      horigin | ⟨hnone, type, hcaught, hexception⟩
    · refine ⟨"", htarget, hlabel, ?_, .inl rfl⟩
      show ((leftovers (front ++ [instr]) rest).foldl noteLeftover _)[_]? = _
      rw [hrest, getElem?_foldl_noteLeftover horigin, String.append_empty]
      exact hline
    · refine ⟨exceptionNote, htarget, hlabel, ?_,
        .inr ⟨hform.resolve_right (not_not_intro hnone), by simp [Block.isHandler, hcaught], rfl⟩⟩
      show ((leftovers (front ++ [instr]) rest).foldl noteLeftover _)[_]? = _
      rw [hrest, hexception]
      exact getElem?_noteLeftover_exception hline

end Context

end JvmSource
