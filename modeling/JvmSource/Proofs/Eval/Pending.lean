import Mathlib.Data.List.Infix
import JvmSource.Proofs.Eval.Balance
import JvmSource.Proofs.Eval.Discipline

/-!
# Pending values

A value on the stack is pending: it is written on the line of the instruction that pushed it when an
exit flushes the stack, or noted there when the block ends. What a line holds stays: a later
instruction only adds to it, or is a constructor call that takes the line along
(`Context.exists_more_or_moves`). For an instruction sets only its own line, which is still blank
then (`Frame.BlankFrom`), or a line that it finds blank; and a line from which no value on the stack
comes is out of reach for good (`Context.getElem?_lines_of_origin_ne`).

Each of these facts is proved for a step, from what a step can do (`Site.step_does`), and then for
the rest of a run by induction on the instructions that are still to come. A constructor call that
takes a line along puts it on its own line, from which no value on the stack comes, so what it holds
there stays as it is to the end.

There is one exception. The caught exception counts as pushed by the first instruction of the
handler; a return that stands there writes its own line over the exception that it has just flushed
(`Context.Keeps.first`).

A second thread is about declarations: as long as nothing is thrown, an object that comes from a
`new` is declared by the line it comes from, if that line holds anything (`Frame.Declared`). So what
a constructor call takes along is the declaration, and nothing that was flushed there. What is kept
in the end is `Context.Keeps`, and it is kept by every block that can be evaluated and is no empty
handler: `pending_values_kept`.
-/

namespace JvmSource

/-- The note for a value that a block leaves behind. -/
def Value.note (v : Value) : String :=
  "// UNHANDLED STACK OBJECT: " ++
    Text.replaceChars (fun c => c == '\r' || c == '\n') "~NEWLINE" v.text

/-- The line that declares a new object. -/
def Value.declaration (v : Value) : String :=
  v.type ++ " " ++ v.text ++ " = new " ++ v.type

/-- An exit is a return or a throw. -/
theorem Operation.isExit_iff {op : Operation} :
    op.isExit = true ↔ op.isReturn = true ∨ op = .throw := by
  cases op <;> simp [isExit, isReturn]

namespace Frame

/-- A line holds a text, perhaps among others. -/
def Holds (lines : List (Option String)) (line : Nat) (text : String) : Prop :=
  ∃ before behind, lines[line]? = some (some (before ++ text ++ behind))

/-- No line is written from a position on. -/
def BlankFrom (frame : Frame) (position : Nat) : Prop :=
  ∀ line text, frame.lines[line]? = some (some text) → line < position

/-! ### Texts that are added to lines -/

section

variable {lines : List (Option String)} {line : Nat} {values : List Value}
  (text : Value → String) (separator : String)

/-- What a line holds stays in front of what is added. -/
theorem exists_getElem?_foldl_appendLine {held : String} (values : List Value)
    (h : lines[line]? = some (some held)) :
    ∃ more,
      (values.foldl (fun lines v => appendLine lines v.origin (text v) separator) lines)[line]? =
        some (some (held ++ more)) := by
  induction values generalizing lines held with
  | nil => exact ⟨"", by rw [String.append_empty]; exact h⟩
  | cons v values ih =>
    obtain ⟨more, hmore⟩ : ∃ more,
        (appendLine lines v.origin (text v) separator)[line]? = some (some (held ++ more)) := by
      rw [appendLine, List.getElem?_modify, h]
      by_cases hv : v.origin = line
      · exact ⟨separator ++ text v, by simp [hv, String.append_assoc]⟩
      · exact ⟨"", by simp [hv]⟩
    obtain ⟨others, hothers⟩ := ih hmore
    exact ⟨more ++ others, by rw [List.foldl_cons, hothers, String.append_assoc]⟩

/-- Behind all texts, the line of each value holds its text. -/
theorem holds_foldl_appendLine {v : Value} (hv : v ∈ values) (hlt : v.origin < lines.length) :
    Holds (values.foldl (fun lines v => appendLine lines v.origin (text v) separator) lines)
      v.origin (text v) := by
  induction values generalizing lines with
  | nil => cases hv
  | cons w values ih =>
    rcases List.mem_cons.mp hv with rfl | hv
    · obtain ⟨before, hbefore⟩ : ∃ before,
          (appendLine lines v.origin (text v) separator)[v.origin]? =
            some (some (before ++ text v)) := by
        rw [appendLine, List.getElem?_modify, List.getElem?_eq_getElem hlt]
        cases lines[v.origin] with
        | none => exact ⟨"", by simp⟩
        | some held => exact ⟨held ++ separator, by simp⟩
      obtain ⟨behind, hbehind⟩ := exists_getElem?_foldl_appendLine text separator values hbefore
      exact ⟨before, behind, hbehind⟩
    · exact ih hv (by rwa [length_appendLine])

end

end Frame

/-! ### The lines of a step -/

namespace Site

variable {site : Site} {locals locals' : Locals} {frame frame' : Frame}

/-- A value of the padded stack is a placeholder or was there before. -/
theorem mem_pad {stack : List Value} {v : Value} (h : v ∈ site.pad stack) :
    v = placeholder site.position ∨ v ∈ stack :=
  (List.mem_append.mp h).imp_left List.eq_of_mem_replicate

/-- Only operands are ever missing. -/
theorem drop_pad (stack : List Value) :
    (site.pad stack).drop (site.instr.demand site.context.pool) =
      stack.drop (site.instr.demand site.context.pool) := by
  rw [pad, List.drop_append, List.drop_replicate, List.length_replicate]
  rcases Nat.le_total (site.instr.demand site.context.pool) stack.length with hle | hle
  · rw [Nat.sub_eq_zero_of_le hle, Nat.sub_zero, Nat.zero_sub, List.replicate_zero, List.nil_append]
  · rw [Nat.sub_sub_self hle, List.drop_length, List.drop_eq_nil_of_le hle, Nat.sub_right_comm,
      Nat.sub_self, Nat.zero_sub]
    rfl

/-- A value of the padded stack comes from the instruction at the latest. -/
theorem origin_le_of_mem_pad {size : Nat} (hframe : frame.Within size site.position) {v : Value}
    (h : v ∈ site.pad frame.stack) : v.origin ≤ site.position := by
  rcases mem_pad h with rfl | h
  · exact Nat.le_refl site.position
  · have := hframe.origin_lt v h
    omega

/-- **What a step can do**, and the values below its operands, which it does not look at. -/
theorem step_does (h : site.step locals frame = (locals', .ok frame')) :
    ∃ action operands rest effect, Action.resolve site.context.pool site.instr = .ok action ∧
      site.pad frame.stack = operands ++ rest ∧
      rest = frame.stack.drop (site.instr.demand site.context.pool) ∧
      Action.Does site frame operands action effect ∧
      effect.flushes = site.instr.operation.isExit ∧ frame' = frame.apply rest effect := by
  obtain ⟨action, operands, rest, effect, hresolve, hpad, hlength, hperform, hyields, rfl⟩ :=
    step_eq_ok_pad h
  refine ⟨action, operands, rest, effect, hresolve, hpad, ?_,
    action.does_perform effect (congrArg Prod.snd hperform), hyields.2, rfl⟩
  rw [← drop_pad, hpad, ← hlength, List.drop_left]

/-- Apart from its own line, an instruction changes only lines from which values come. -/
theorem Reaches.eq_or_exists {stack : List Value} {line : Nat} (h : site.Reaches stack line) :
    line = site.position ∨ ∃ v ∈ stack, v.origin = line := by
  rcases h with h | ⟨-, top, htop, h⟩ | ⟨object, hobject, h⟩ | ⟨-, v, hv, h⟩
  · exact .inl h
  · exact .inr ⟨top, List.mem_of_head? htop, h⟩
  · obtain ⟨method, -, hobject⟩ := Option.bind_eq_some_iff.mp hobject
    exact .inr ⟨object, List.mem_of_getElem? hobject, h⟩
  · exact .inr ⟨v, List.mem_of_mem_drop hv, h⟩

/-- A step writes nothing behind its own line. -/
theorem blankFrom_of_step {size : Nat} (hframe : frame.Within size site.position)
    (hblank : frame.BlankFrom site.position) (h : site.step locals frame = (locals', .ok frame')) :
    frame'.BlankFrom (site.position + 1) := by
  intro line text htext
  by_cases hsame : frame'.lines[line]? = frame.lines[line]?
  · exact Nat.lt_succ_of_lt (hblank line text (hsame ▸ htext))
  · rcases (site.reaches_of_step h hsame).eq_or_exists with rfl | ⟨v, hv, rfl⟩
    · exact Nat.lt_succ_self _
    · exact Nat.lt_succ_of_le (origin_le_of_mem_pad hframe hv)

/-- A line from which no value on the stack comes is left as it is, and stays so. -/
theorem getElem?_lines_of_origin_ne {line : Nat} (hfree : ∀ v ∈ frame.stack, v.origin ≠ line)
    (hline : line < site.position) (h : site.step locals frame = (locals', .ok frame')) :
    frame'.lines[line]? = frame.lines[line]? ∧ ∀ v ∈ frame'.stack, v.origin ≠ line := by
  constructor
  · by_contra hchanged
    rcases (site.reaches_of_step h hchanged).eq_or_exists with heq | ⟨v, hv, heq⟩
    · omega
    · rcases mem_pad hv with rfl | hv
      · exact Nat.ne_of_gt hline heq
      · exact hfree v hv heq
  · intro v hv
    rcases origin_of_step h hv with horigin | ⟨w, hw, horigin⟩
    · omega
    · rw [horigin]
      exact hfree w hw

/-- **What a line holds** stays in front of what a step adds to it, unless the step is a constructor
call that takes the line along. -/
theorem exists_more_or_moves {size line : Nat} {held : String}
    (hframe : frame.Within size site.position) (hsize : site.position < size)
    (hblank : frame.BlankFrom site.position) (h : site.step locals frame = (locals', .ok frame'))
    (hheld : frame.lines[line]? = some (some held)) :
    (∃ more, frame'.lines[line]? = some (some (held ++ more))) ∨
      ∃ object arguments,
        site.instr.constructed? site.context.pool (site.pad frame.stack) = some object ∧
        object.origin = line ∧
        frame'.lines[site.position]? = some (some (held ++ "(" ++ arguments ++ ");")) ∧
        ∀ v ∈ frame'.stack, v.origin ≠ site.position := by
  obtain ⟨action, operands, rest, effect, hresolve, hpad, hrest, hdoes, -, rfl⟩ := step_does h
  -- the line is not blank, so it is not the one of the step itself
  have hlt : line < site.position := hblank line held hheld
  have hsame : (some (some held) : Option (Option String)) = some (some (held ++ "")) := by
    rw [String.append_empty]
  cases hdoes with
  | write text | declare text =>
    exact .inl ⟨"", ((List.getElem?_set_ne (Nat.ne_of_gt hlt)).trans hheld).trans hsame⟩
  | push form => exact .inl ⟨"", hheld.trans hsame⟩
  | shuffle hresults => exact .inl ⟨"", hheld.trans hsame⟩
  | @name top hoperands hmade hempty text objects results hresults =>
    -- a name is written to a blank line only
    have hne : top.origin ≠ line := by
      rintro rfl
      rw [hempty] at hheld
      cases hheld
    exact .inl ⟨"", ((List.getElem?_set_ne hne).trans hheld).trans hsame⟩
  | @move action object text arguments hobject hline =>
    -- only the line of the object that is constructed is taken along
    by_cases horigin : object.origin = line
    · refine .inr ⟨object, arguments, ?_, horigin, ?_, ?_⟩
      · rw [hpad]
        exact constructed?_append hresolve hobject rest
      · obtain rfl : held = text := by
          rw [horigin, hheld] at hline
          exact Option.some.inj (Option.some.inj hline)
        have hlength : site.position < (frame.lines.set object.origin none).length := by
          rwa [List.length_set, hframe.length_lines]
        exact List.getElem?_set_self hlength
      · intro v hv
        rw [hrest] at hv
        have := hframe.origin_lt v (List.mem_of_mem_drop hv)
        omega
    · refine .inl ⟨"", ?_⟩
      refine (List.getElem?_set_ne (Nat.ne_of_gt hlt)).trans ?_
      exact ((List.getElem?_set_ne horigin).trans hheld).trans hsame
  | exit hexit text hresults =>
    obtain ⟨more, hmore⟩ := Frame.exists_getElem?_foldl_appendLine (fun v : Value => v.text ++ ";")
      " /* Same line */ " rest hheld
    exact .inl ⟨more, (List.getElem?_set_ne (Nat.ne_of_gt hlt)).trans hmore⟩

/-- **An exit** writes every value below its operands on the line of the value, unless that is its
own line. -/
theorem holds_of_isExit {size : Nat} (hframe : frame.Within size site.position)
    (hsize : site.position < size) (hexit : site.instr.operation.isExit = true)
    (h : site.step locals frame = (locals', .ok frame')) {v : Value}
    (hv : v ∈ frame.stack.drop (site.instr.demand site.context.pool))
    (hne : v.origin ≠ site.position) : Frame.Holds frame'.lines v.origin (v.text ++ ";") := by
  obtain ⟨action, operands, rest, effect, -, -, hrest, hdoes, hflushes, rfl⟩ := step_does h
  have hlt : v.origin < frame.lines.length := by
    have := hframe.origin_lt v (List.mem_of_mem_drop hv)
    rw [hframe.length_lines]
    omega
  rw [← hrest] at hv
  cases hdoes with
  | exit hexit text hresults =>
    obtain ⟨before, behind, hheld⟩ := Frame.holds_foldl_appendLine (fun v : Value => v.text ++ ";")
      " /* Same line */ " hv hlt
    exact ⟨before, behind, (List.getElem?_set_ne (Ne.symm hne)).trans hheld⟩
  | _ => cases hflushes.trans hexit

/-- A return without a value leaves its own line as it writes it. -/
theorem getElem?_position_of_returnVoid {size : Nat} (hframe : frame.Within size site.position)
    (hsize : site.position < size) (hreturn : site.instr.operation = .returnVoid)
    (h : site.step locals frame = (locals', .ok frame')) :
    frame'.lines[site.position]? = some (some "return;") := by
  obtain ⟨action, operands, rest, effect, hresolve, -, hlength, hperform, -, rfl⟩ :=
    step_eq_ok_pad h
  obtain rfl : .nullary .returnVoid = action := by
    rw [Action.resolve, hreturn] at hresolve
    exact Except.ok.inj hresolve
  obtain rfl : operands = [] := by
    rw [Instruction.demand, hreturn] at hlength
    exact List.length_eq_zero_iff.mp hlength
  obtain rfl := Except.ok.inj (congrArg Prod.snd hperform)
  have hlength : site.position < (Frame.flush frame.lines rest).length := by
    rwa [Frame.length_flush, hframe.length_lines]
  exact List.getElem?_set_self hlength

end Site

/-! ### Runs of a block -/

namespace Context

variable {ctx : Context} {b : Block} {state : MethodState}

/-- The run of a block comes to the instruction behind `front`. -/
def ComesTo (ctx : Context) (b : Block) (state : MethodState) (front : List Instruction)
    (instr : Instruction) (frame : Frame) : Prop :=
  ∃ behind locals, b.body ctx.graph.code = front ++ instr :: behind ∧
    ctx.runBlock b state front = (locals, .ok frame)

/-- The object on which the instruction behind `front` calls a constructor. -/
def constructed? (ctx : Context) (b : Block) (front : List Instruction) (instr : Instruction)
    (frame : Frame) : Option Value :=
  instr.constructed? ctx.pool
    (Site.pad ⟨ctx, b.body ctx.graph.code, front.length, instr⟩ frame.stack)

/-- A constructor call behind `front` takes what a line holds to its own line, where it is in the
end. -/
def MovesBehind (ctx : Context) (b : Block) (state : MethodState) (lines : List (Option String))
    (front : List Instruction) (line : Nat) (held : String) : Prop :=
  ∃ between call frame object arguments, ctx.ComesTo b state (front ++ between) call frame ∧
    ctx.constructed? b (front ++ between) call frame = some object ∧ object.origin = line ∧
    frame.lines[line]? = some (some held) ∧
    lines[(front ++ between).length]? = some (some (held ++ "(" ++ arguments ++ ");"))

/-- What counts as left behind is on the stack. -/
theorem leftovers_subset {body : List Instruction} {stack : List Value} {v : Value}
    (h : v ∈ leftovers body stack) : v ∈ stack := by
  rw [leftovers] at h
  split at h
  · exact List.mem_of_mem_dropLast h
  · exact h

section

variable {front : List Instruction} {locals : Locals} {frame : Frame}
  (hrun : ctx.runBlock b state front = (locals, .ok frame))
include hrun

theorem within_of_runBlock : frame.Within (b.body ctx.graph.code).length front.length := by
  have hwithin := (within_entryFrame b _ state.objects).runFrom hrun
  rwa [Nat.zero_add] at hwithin

/-- The lines of the instructions that are still to come are blank. -/
theorem blankFrom_of_runBlock : frame.BlankFrom front.length := by
  have hentry : (entryFrame b (b.body ctx.graph.code).length state.objects).BlankFrom 0 := by
    intro line text h
    simp [entryFrame, List.getElem?_replicate] at h
  have h := runFrom_induction
    (motive := fun position _ frame =>
      frame.Within (b.body ctx.graph.code).length position ∧ frame.BlankFrom position)
    (fun h hstep => ⟨h.1.step hstep, Site.blankFrom_of_step h.1 h.2 hstep⟩) hrun
    ⟨within_entryFrame b _ state.objects, hentry⟩
  rw [Nat.zero_add] at h
  exact h.2

end

section

variable {after : MethodState} {lines : List (Option String)}
  (hevaluate : ctx.evaluate b state = (after, .ok lines))
include hevaluate

/-- What is left of a run that gives the lines of the block. -/
theorem exists_runFrom_behind {front behind : List Instruction} {locals : Locals} {frame : Frame}
    (hbody : b.body ctx.graph.code = front ++ behind)
    (hfront : ctx.runBlock b state front = (locals, .ok frame)) :
    ∃ locals' frame', ctx.runFrom (b.body ctx.graph.code) front.length behind locals frame =
        (locals', .ok frame') ∧
      lines = (leftovers (b.body ctx.graph.code) frame'.stack).foldl noteLeftover frame'.lines := by
  obtain ⟨locals', frame', hrun, hlines⟩ := evaluate_eq_ok hevaluate
  simp only [runBlock] at hfront hrun
  rw [hbody] at hrun
  obtain ⟨locals₁, frame₁, hfront', hbehind⟩ := runFrom_append_eq_ok hrun
  rw [← hbody] at hfront' hbehind
  obtain ⟨rfl, hframe⟩ := Prod.mk.inj (hfront.symm.trans hfront')
  obtain rfl := Except.ok.inj hframe
  rw [Nat.zero_add] at hbehind
  exact ⟨locals', frame', hbehind, hlines⟩

/-- The instruction to which a run comes can be evaluated. -/
theorem exists_step {front behind : List Instruction} {instr : Instruction} {locals : Locals}
    {frame : Frame} (hbody : b.body ctx.graph.code = front ++ instr :: behind)
    (hfront : ctx.runBlock b state front = (locals, .ok frame)) :
    ∃ locals' frame',
      Site.step ⟨ctx, b.body ctx.graph.code, front.length, instr⟩ locals frame =
        (locals', .ok frame') ∧
      ctx.runBlock b state (front ++ [instr]) = (locals', .ok frame') := by
  obtain ⟨_, _, hrun, -⟩ := exists_runFrom_behind hevaluate hbody hfront
  obtain ⟨locals', frame', hstep, -⟩ := runFrom_cons_eq_ok hrun
  refine ⟨locals', frame', hstep, runFrom_concat hfront ?_⟩
  rwa [Nat.zero_add]

/-- **A line from which no value on the stack comes** is as it will be in the end. -/
theorem getElem?_lines_of_origin_ne {front behind : List Instruction} {locals : Locals}
    {frame : Frame} {line : Nat} (hbody : b.body ctx.graph.code = front ++ behind)
    (hfront : ctx.runBlock b state front = (locals, .ok frame)) (hline : line < front.length)
    (hfree : ∀ v ∈ frame.stack, v.origin ≠ line) : lines[line]? = frame.lines[line]? := by
  obtain ⟨locals', frame', hrun, rfl⟩ := exists_runFrom_behind hevaluate hbody hfront
  have hend := runFrom_induction
    (motive := fun position _ frame' => line < position ∧
      frame'.lines[line]? = frame.lines[line]? ∧ ∀ v ∈ frame'.stack, v.origin ≠ line)
    (fun ⟨hlt, hsame, hfree⟩ hstep =>
      have hstay := Site.getElem?_lines_of_origin_ne hfree hlt hstep
      ⟨Nat.lt_succ_of_lt hlt, hstay.1.trans hsame, hstay.2⟩) hrun ⟨hline, rfl, hfree⟩
  rw [getElem?_foldl_noteLeftover fun v hv => hend.2.2 v (leftovers_subset hv)]
  exact hend.2.1

/-- **What a line holds** in the middle of a run is there in the end, in front of what has been
added, or a constructor call has taken it along. The induction is on the instructions that are still
to come. -/
theorem exists_more_or_moves {front behind : List Instruction} {locals : Locals} {frame : Frame}
    {line : Nat} {held : String} (hbody : b.body ctx.graph.code = front ++ behind)
    (hfront : ctx.runBlock b state front = (locals, .ok frame))
    (hheld : frame.lines[line]? = some (some held)) :
    ∃ more, lines[line]? = some (some (held ++ more)) ∨
      ctx.MovesBehind b state lines front line (held ++ more) := by
  induction behind generalizing front locals frame held with
  | nil =>
    obtain ⟨locals', frame', hrun, rfl⟩ := exists_runFrom_behind hevaluate hbody hfront
    cases hrun
    obtain ⟨more, hmore⟩ := Frame.exists_getElem?_foldl_appendLine Value.note " "
      (leftovers (b.body ctx.graph.code) frame.stack) hheld
    exact ⟨more, .inl hmore⟩
  | cons instr behind ih =>
    obtain ⟨locals₁, frame₁, hstep, hrun⟩ := exists_step hevaluate hbody hfront
    have hbehind : b.body ctx.graph.code = (front ++ [instr]) ++ behind := by simpa using hbody
    have hsize : front.length < (b.body ctx.graph.code).length := by simp [hbody]
    rcases Site.exists_more_or_moves (within_of_runBlock hfront) hsize
      (blankFrom_of_runBlock hfront) hstep hheld with
      ⟨more, hmore⟩ | ⟨object, arguments, hobject, horigin, hmoved, hfree⟩
    · obtain ⟨others, hothers⟩ := ih hbehind hrun hmore
      refine ⟨more ++ others, ?_⟩
      rw [← String.append_assoc]
      refine hothers.imp_right ?_
      rintro ⟨between, call, frame, object, arguments, hcomes, hmoves⟩
      refine ⟨instr :: between, call, frame, object, arguments, ?_⟩
      rw [List.append_cons]
      exact ⟨hcomes, hmoves⟩
    · refine ⟨"", .inr ⟨[], instr, frame, object, arguments, ?_⟩⟩
      rw [List.append_nil, String.append_empty]
      refine ⟨⟨behind, locals, hbody, hfront⟩, hobject, horigin, hheld, ?_⟩
      have hlt : front.length < (front ++ [instr]).length := by simp
      rw [getElem?_lines_of_origin_ne hevaluate hbehind hrun hlt hfree]
      exact hmoved

end

end Context

/-! ### Declarations -/

namespace Frame

/-- Where a value comes from a `new`, its line declares it, if it holds anything. -/
def Declares (frame : Frame) (body : List Instruction) (v : Value) : Prop :=
  body[v.origin]?.map (·.operation) = some .newObject →
    ∀ held, frame.lines[v.origin]? = some (some held) → held = v.declaration

/-- The values on the stack in front of the instruction at a position: each is declared by its line
and comes from an instruction before, but for the caught exception. -/
def Declared (frame : Frame) (body : List Instruction) (exception : Option Value) (position : Nat) :
    Prop :=
  ∀ v ∈ frame.stack, exception = some v ∨ v.origin < position ∧ frame.Declares body v

variable {site : Site} {locals locals' : Locals} {frame frame' : Frame} {exception : Option Value}

/-- A step keeps the declarations, unless it is a throw: that leaves an object on the stack, whose
line may hold more by then. -/
theorem Declared.step {size : Nat} (hframe : frame.Declared site.body exception site.position)
    (hwithin : frame.Within size site.position) (hsize : site.position < size)
    (hblank : frame.BlankFrom site.position) (hthrow : site.instr.operation ≠ .throw)
    (h : site.step locals frame = (locals', .ok frame')) :
    frame'.Declared site.body exception (site.position + 1) := by
  obtain ⟨action, operands, rest, effect, -, hpad, hrest, hdoes, hflushes, hframe'⟩ :=
    Site.step_does h
  have hbefore {v : Value} (hv : v ∈ rest) : v ∈ frame.stack := by
    rw [hrest] at hv
    exact List.mem_of_mem_drop hv
  -- a value that was there before, whose line is as it was or blank
  have hstay {v : Value} (hv : v ∈ frame.stack) (hsame : v.origin < site.position →
      site.body[v.origin]?.map (·.operation) = some .newObject →
      ∀ held, frame'.lines[v.origin]? = some (some held) →
        frame.lines[v.origin]? = some (some held)) :
      exception = some v ∨ v.origin < site.position + 1 ∧ frame'.Declares site.body v := by
    refine (hframe v hv).imp_right fun ⟨hlt, hdeclares⟩ => ⟨Nat.lt_succ_of_lt hlt, ?_⟩
    exact fun hnew held hheld => hdeclares hnew held (hsame hlt hnew held hheld)
  -- a value of the instruction itself, whose line is blank
  have hown {v : Value} (hv : v.origin = site.position) (hsame : frame'.lines = frame.lines) :
      exception = some v ∨ v.origin < site.position + 1 ∧ frame'.Declares site.body v := by
    refine .inr ⟨Nat.lt_succ_of_le (Nat.le_of_eq hv), fun _ held hheld => ?_⟩
    have := hblank v.origin held (hsame ▸ hheld)
    omega
  intro v hv
  cases hdoes with
  | write text =>
    subst hframe'
    exact hstay (hbefore hv) fun hlt _ held hheld =>
      (List.getElem?_set_ne (Nat.ne_of_gt hlt)).symm.trans hheld
  | push form =>
    subst hframe'
    rcases List.mem_cons.mp hv with rfl | hv
    · exact hown rfl rfl
    · exact hstay (hbefore hv) fun _ _ _ hheld => hheld
  | shuffle hresults =>
    subst hframe'
    have hmem : v ∈ operands ++ rest :=
      List.mem_append.mpr ((List.mem_append.mp hv).imp_left (hresults v))
    rw [← hpad] at hmem
    rcases Site.mem_pad hmem with rfl | hmem
    · exact hown rfl rfl
    · exact hstay hmem fun _ _ _ hheld => hheld
  | @name top hoperands hmade hempty text objects results hresults =>
    subst hframe'
    -- an instruction does not make both an array and an object
    have hnot : site.body[top.origin]?.map (·.operation) ≠ some .newObject := by
      intro hnew
      rw [Site.operationAt?, hnew] at hmade
      cases hmade
    rcases List.mem_append.mp hv with hv | hv
    · have htop : top.origin ≤ site.position :=
        Site.origin_le_of_mem_pad hwithin (by simp [hpad, hoperands])
      have horigin := hresults v hv
      refine .inr ⟨by omega, fun hnew => ?_⟩
      rw [horigin] at hnew
      exact absurd hnew hnot
    · refine hstay (hbefore hv) fun _ hnew held hheld => ?_
      have hne : top.origin ≠ v.origin := fun heq => hnot (heq ▸ hnew)
      exact (List.getElem?_set_ne hne).symm.trans hheld
  | declare type =>
    subst hframe'
    rcases List.mem_cons.mp hv with rfl | hv
    · refine .inr ⟨Nat.lt_succ_self _, fun _ held hheld => ?_⟩
      have hlength : site.position < frame.lines.length := by rwa [hwithin.length_lines]
      have hset := (List.getElem?_set_self hlength).symm.trans hheld
      exact (Option.some.inj (Option.some.inj hset)).symm
    · exact hstay (hbefore hv) fun hlt _ held hheld =>
        (List.getElem?_set_ne (Nat.ne_of_gt hlt)).symm.trans hheld
  | @move action object text arguments hobject hline =>
    subst hframe'
    refine hstay (hbefore hv) fun hlt _ held hheld => ?_
    have hheld' : (frame.lines.set object.origin none)[v.origin]? = some (some held) :=
      (List.getElem?_set_ne (Nat.ne_of_gt hlt)).symm.trans hheld
    rw [List.getElem?_set] at hheld'
    split at hheld'
    · split at hheld' <;> cases hheld'
    · exact hheld'
  | exit hexit text hresults =>
    have hreturn := (Operation.isExit_iff.mp hflushes.symm).resolve_right hthrow
    rw [site.stack_of_isReturn h hreturn] at hv
    cases hv

end Frame

/-- The caught exception, as a handler finds it on the stack. -/
def Block.exception? (b : Block) : Option Value :=
  b.caught.map (Value.ofVariable 0 "exception" ·)

namespace Context

variable {ctx : Context} {b : Block} {state : MethodState}

/-- **New objects are declared by their lines**, as long as nothing is thrown. -/
theorem declared_of_runBlock {front behind : List Instruction} {locals : Locals} {frame : Frame}
    (hbody : b.body ctx.graph.code = front ++ behind)
    (hrun : ctx.runBlock b state front = (locals, .ok frame))
    (hthrow : ∀ a ∈ front, a.operation ≠ .throw) :
    frame.Declared (b.body ctx.graph.code) b.exception? front.length := by
  induction front using List.reverseRecOn generalizing behind locals frame with
  | nil =>
    cases hrun
    exact fun v hv => .inl (Option.mem_toList.mp hv)
  | append_singleton front a ih =>
    obtain ⟨locals₁, frame₁, hfront, hlast⟩ := runFrom_append_eq_ok hrun
    obtain ⟨locals₂, frame₂, hstep, hend⟩ := runFrom_cons_eq_ok hlast
    cases hend
    rw [Nat.zero_add] at hstep
    rw [List.append_assoc] at hbody
    have hsize : front.length < (b.body ctx.graph.code).length := by simp [hbody]
    have hdeclared := ih hbody hfront fun a ha => hthrow a (List.mem_append_left _ ha)
    rw [List.length_append, List.length_singleton]
    exact hdeclared.step (within_of_runBlock hfront) hsize (blankFrom_of_runBlock hfront)
      (hthrow a (by simp)) hstep

/-! ### What is kept -/

/-- What the lines of an evaluated block keep of the values and lines of its run. -/
structure Keeps (ctx : Context) (b : Block) (state : MethodState) (lines : List (Option String)) :
    Prop where
  /-- A return that is not the first instruction writes out what lies below its operands. -/
  returns : ∀ {front instr frame}, ctx.ComesTo b state front instr frame → front ≠ [] →
    instr.operation.isReturn = true → ∀ v ∈ frame.stack.drop (instr.demand ctx.pool),
      Frame.Holds lines v.origin (v.text ++ ";")
  /-- A return that is the first instruction keeps nothing but itself. -/
  first : ∀ {instr frame}, ctx.ComesTo b state [] instr frame → instr.operation = .returnVoid →
    lines[0]? = some (some "return;")
  /-- A throw writes out what lies below the exception, and a constructor call behind it may take
  that along. -/
  throws : ∀ {front instr frame}, ctx.ComesTo b state front instr frame →
    instr.operation = .throw → ∀ v ∈ frame.stack.drop (instr.demand ctx.pool),
      Frame.Holds lines v.origin (v.text ++ ";") ∨ ∃ before behind,
        ctx.MovesBehind b state lines (front ++ [instr]) v.origin
          (before ++ (v.text ++ ";") ++ behind)
  /-- What is left on the stack at the end is noted, but for the exception of a throw. -/
  leftovers : ∀ {locals frame},
    ctx.runBlock b state (b.body ctx.graph.code) = (locals, .ok frame) → ∀ v ∈ frame.stack,
      Frame.Holds lines v.origin v.note ∨
        ((b.body ctx.graph.code).getLast?.any (·.operation == .throw) = true ∧ frame.stack = [v])
  /-- What a line holds stays in front of what is added, or a constructor call takes it along. -/
  held : ∀ {front behind locals frame line held}, b.body ctx.graph.code = front ++ behind →
    ctx.runBlock b state front = (locals, .ok frame) → frame.lines[line]? = some (some held) →
      ∃ more, lines[line]? = some (some (held ++ more)) ∨
        ctx.MovesBehind b state lines front line (held ++ more)
  /-- What a constructor call takes along is the declaration of the new object, if nothing has been
  thrown and the object is not the caught exception. -/
  declaration : ∀ {front call frame object held}, ctx.ComesTo b state front call frame →
    ctx.constructed? b front call frame = some object →
    (b.body ctx.graph.code)[object.origin]?.map (·.operation) = some .newObject →
    (∀ a ∈ front, a.operation ≠ .throw) → b.exception? ≠ some object →
    frame.lines[object.origin]? = some (some held) → held = object.declaration

section

variable {after : MethodState} {lines : List (Option String)}
  (hevaluate : ctx.evaluate b state = (after, .ok lines))
include hevaluate

/-- Behind an exit, the lines hold what it finds below its operands, except on its own line. -/
theorem exists_holds_of_isExit {front : List Instruction} {instr : Instruction} {frame : Frame}
    (hcomes : ctx.ComesTo b state front instr frame) (hexit : instr.operation.isExit = true)
    (hfirst : front ≠ [] ∨ 0 < instr.demand ctx.pool) :
    ∃ behind locals' frame', b.body ctx.graph.code = (front ++ [instr]) ++ behind ∧
      ctx.runBlock b state (front ++ [instr]) = (locals', .ok frame') ∧
      (instr.operation.isReturn = true → frame'.stack = []) ∧
      ∀ v ∈ frame.stack.drop (instr.demand ctx.pool),
        v.origin < front.length ∧ Frame.Holds frame'.lines v.origin (v.text ++ ";") := by
  obtain ⟨behind, locals, hbody, hfront⟩ := hcomes
  obtain ⟨locals', frame', hstep, hrun⟩ := exists_step hevaluate hbody hfront
  have hwithin := within_of_runBlock hfront
  have hsize : front.length < (b.body ctx.graph.code).length := by simp [hbody]
  refine ⟨behind, locals', frame', by simpa using hbody, hrun, Site.stack_of_isReturn _ hstep,
    fun v hv => ?_⟩
  have horigin : v.origin < front.length := by
    rcases List.eq_nil_or_concat front with rfl | ⟨others, last, rfl⟩
    · -- only the caught exception can be there, and the exit takes it
      cases hfront
      have hdrop : (entryFrame b (b.body ctx.graph.code).length state.objects).stack.drop
          (instr.demand ctx.pool) = [] := by
        refine List.drop_eq_nil_of_le (Nat.le_trans ?_ (hfirst.resolve_left (by simp)))
        rw [entryFrame, Option.length_toList]
        split <;> simp
      rw [hdrop] at hv
      cases hv
    · have := hwithin.origin_lt v (List.mem_of_mem_drop hv)
      simp only [List.concat_eq_append, List.length_append, List.length_singleton] at this ⊢
      omega
  exact ⟨horigin, Site.holds_of_isExit hwithin hsize hexit hstep hv (Nat.ne_of_lt horigin)⟩

/-- A return that is not the first instruction writes out what lies below its operands, and the
block is over for the stack. -/
theorem holds_of_isReturn {front : List Instruction} {instr : Instruction} {frame : Frame}
    (hcomes : ctx.ComesTo b state front instr frame) (hfront : front ≠ [])
    (hreturn : instr.operation.isReturn = true) {v : Value}
    (hv : v ∈ frame.stack.drop (instr.demand ctx.pool)) :
    Frame.Holds lines v.origin (v.text ++ ";") := by
  obtain ⟨behind, locals', frame', hbody, hrun, hempty, hall⟩ :=
    exists_holds_of_isExit hevaluate hcomes (Operation.isExit_iff.mpr (.inl hreturn)) (.inl hfront)
  obtain ⟨hlt, before, after, hheld⟩ := hall v hv
  have hlt' : v.origin < (front ++ [instr]).length := by
    rw [List.length_append]
    omega
  have hsame := getElem?_lines_of_origin_ne hevaluate hbody hrun hlt'
    (by rw [hempty hreturn]; exact List.forall_mem_nil _)
  exact ⟨before, after, hsame.trans hheld⟩

/-- A throw writes out what lies below the exception; a constructor call behind it may take that
along. -/
theorem holds_or_moves_of_throw {front : List Instruction} {instr : Instruction} {frame : Frame}
    (hcomes : ctx.ComesTo b state front instr frame) (hthrow : instr.operation = .throw) {v : Value}
    (hv : v ∈ frame.stack.drop (instr.demand ctx.pool)) :
    Frame.Holds lines v.origin (v.text ++ ";") ∨ ∃ before behind,
      ctx.MovesBehind b state lines (front ++ [instr]) v.origin
        (before ++ (v.text ++ ";") ++ behind) := by
  have hdemand : 0 < instr.demand ctx.pool := by
    rw [Instruction.demand, hthrow]
    exact Nat.one_pos
  obtain ⟨behind, locals', frame', hbody, hrun, -, hall⟩ :=
    exists_holds_of_isExit hevaluate hcomes (Operation.isExit_iff.mpr (.inr hthrow)) (.inr hdemand)
  obtain ⟨-, before, added, hheld⟩ := hall v hv
  obtain ⟨more, hmore | hmoves⟩ := exists_more_or_moves hevaluate hbody hrun hheld
  · exact .inl ⟨before, added ++ more, by rw [hmore, String.append_assoc]⟩
  · exact .inr ⟨before, added ++ more, by rwa [← String.append_assoc]⟩

/-- A return that is the first instruction leaves its line as it writes it, without the
exception. -/
theorem getElem?_zero_of_returnVoid {instr : Instruction} {frame : Frame}
    (hcomes : ctx.ComesTo b state [] instr frame) (hreturn : instr.operation = .returnVoid) :
    lines[0]? = some (some "return;") := by
  obtain ⟨behind, locals, hbody, hfront⟩ := hcomes
  obtain ⟨locals', frame', hstep, hrun⟩ := exists_step hevaluate hbody hfront
  have hempty : frame'.stack = [] := Site.stack_of_isReturn _ hstep (by rw [hreturn]; rfl)
  have hline : frame'.lines[0]? = some (some "return;") :=
    Site.getElem?_position_of_returnVoid (within_of_runBlock hfront) (by simp [hbody]) hreturn hstep
  have hbehind : b.body ctx.graph.code = ([] ++ [instr]) ++ behind := hbody
  rw [← hline]
  exact getElem?_lines_of_origin_ne hevaluate hbehind hrun Nat.one_pos
    (by rw [hempty]; exact List.forall_mem_nil _)

/-- **What a block leaves behind** is noted on the lines, but for the exception of a throw. -/
theorem holds_note_or_throw (hhandler : b.isHandler = true → b.body ctx.graph.code ≠ [])
    {locals : Locals} {frame : Frame}
    (hrun : ctx.runBlock b state (b.body ctx.graph.code) = (locals, .ok frame)) {v : Value}
    (hv : v ∈ frame.stack) :
    Frame.Holds lines v.origin v.note ∨
      ((b.body ctx.graph.code).getLast?.any (·.operation == .throw) = true ∧
        frame.stack = [v]) := by
  obtain ⟨_, frame', hrun', rfl⟩ := evaluate_eq_ok hevaluate
  obtain ⟨rfl, hframe⟩ := Prod.mk.inj (hrun.symm.trans hrun')
  obtain rfl := Except.ok.inj hframe
  by_cases hthrow : (b.body ctx.graph.code).getLast?.any (·.operation == .throw) = true
  · obtain ⟨a, ha, hop⟩ := (Option.any_eq_true _ _).mp hthrow
    obtain ⟨front, hbody⟩ := List.getLast?_eq_some_iff.mp ha
    rw [runBlock, hbody] at hrun
    obtain ⟨locals₁, frame₁, -, hlast⟩ := runFrom_append_eq_ok hrun
    obtain ⟨locals₂, frame₂, hstep, hend⟩ := runFrom_cons_eq_ok hlast
    cases hend
    obtain ⟨thrown, -, hstack⟩ := Site.stack_of_throw _ hstep (beq_iff_eq.mp hop)
    rw [hstack, List.mem_singleton] at hv
    exact .inr ⟨hthrow, hv ▸ hstack⟩
  · refine .inl ?_
    rw [leftovers, if_neg hthrow]
    refine Frame.holds_foldl_appendLine Value.note " " hv ?_
    have hwithin := within_of_runBlock hrun
    have := hwithin.origin_lt v hv
    rw [hwithin.length_lines]
    rcases Nat.eq_zero_or_pos (b.body ctx.graph.code).length with hzero | hpos
    · -- nothing has been evaluated, so the value is the caught exception
      have hnil := List.eq_nil_of_length_eq_zero hzero
      rw [hnil] at hrun
      cases hrun
      obtain ⟨type, hcaught, -⟩ := Option.map_eq_some_iff.mp (Option.mem_toList.mp hv)
      exact absurd hnil (hhandler (by rw [Block.isHandler, hcaught]; rfl))
    · omega

end

end Context

/-- **Pending values are kept**, in every block that can be evaluated and is no empty handler. What
a return or a throw finds below its operands is written on the line of each value, what the block
leaves on the stack is noted there, and what a line holds at any time is there in the end; only a
constructor call takes a line along, which for a new object is its declaration. The exception to the
first is a handler that begins with a return: it loses the caught exception. -/
theorem pending_values_kept {ctx : Context} {b : Block} {state after : MethodState}
    {lines : List (Option String)} (hevaluate : ctx.evaluate b state = (after, .ok lines))
    (hhandler : b.isHandler = true → b.body ctx.graph.code ≠ []) : ctx.Keeps b state lines where
  returns hcomes hfront hreturn _ := Context.holds_of_isReturn hevaluate hcomes hfront hreturn
  first := Context.getElem?_zero_of_returnVoid hevaluate
  throws hcomes hthrow _ := Context.holds_or_moves_of_throw hevaluate hcomes hthrow
  leftovers hrun _ := Context.holds_note_or_throw hevaluate hhandler hrun
  held := Context.exists_more_or_moves hevaluate
  declaration := by
    rintro front call frame object held ⟨behind, locals, hbody, hrun⟩ hobject hnew hthrow hne hheld
    obtain ⟨method, -, hobject⟩ := Option.bind_eq_some_iff.mp hobject
    rcases Site.mem_pad (List.mem_of_getElem? hobject) with rfl | hmem
    · exact absurd (Context.blankFrom_of_runBlock hrun _ held hheld) (Nat.lt_irrefl _)
    · have hdeclared := Context.declared_of_runBlock hbody hrun hthrow object hmem
      exact (hdeclared.resolve_left hne).2 hnew held hheld

/-- A handler that returns 1, with the exception below. -/
theorem pending_values_kept_of_value_return :
    ∃ g bs block after lines,
      (Code.ofParts 1 1 [0x00, 0xb1, 0x04, 0xac] [⟨0, 1, 2, 0⟩] []).graph ⟨#[]⟩ = .ok g ∧
      g.blocks = .ok bs ∧ block ∈ bs ∧ block.isHandler = true ∧ block.body g.code ≠ [] ∧
      Context.evaluate ⟨"A", ⟨#[]⟩, g, true⟩ block ⟨⟨[], []⟩, 0⟩ = (after, .ok lines) ∧
      lines = [some "exception;", some "return 1;"] ∧
      Context.Keeps ⟨"A", ⟨#[]⟩, g, true⟩ block ⟨⟨[], []⟩, 0⟩ lines := by
  have hok : (do
      let g ← (Code.ofParts 1 1 [0x00, 0xb1, 0x04, 0xac] [⟨0, 1, 2, 0⟩] []).graph ⟨#[]⟩
      let bs ← g.blocks
      return (bs.filter Block.isHandler).map fun b : Block => ((b.body g.code).length,
        (Context.evaluate ⟨"A", ⟨#[]⟩, g, true⟩ b ⟨⟨[], []⟩, 0⟩).2)) =
      .ok [(2, .ok [some "exception;", some "return 1;"])] := by
    decide +kernel
  obtain ⟨g, hgraph, h⟩ := Result.bind_eq_ok.mp hok
  obtain ⟨bs, hblocks, h⟩ := Result.bind_eq_ok.mp h
  obtain ⟨block, hfilter, hblock⟩ := List.map_eq_singleton_iff.mp (Result.pure_eq_ok.mp h)
  obtain ⟨hmem, hhandler⟩ := List.mem_filter.mp (hfilter ▸ List.mem_singleton_self block)
  obtain ⟨hlength, hlines⟩ := Prod.mk.inj hblock
  have hbody : block.body g.code ≠ [] := by
    intro hnil
    rw [hnil] at hlength
    cases hlength
  exact ⟨g, bs, block, _, _, hgraph, hblocks, hmem, hhandler, hbody, Prod.ext rfl hlines, rfl,
    pending_values_kept (Prod.ext rfl hlines) fun _ => hbody⟩

/-- A handler that returns at once: the exception, which is pending there, is on no line. -/
theorem exception_lost_at_return :
    ∃ g bs block instr frame after v,
      (Code.ofParts 1 1 [0x00, 0xb1, 0xb1] [⟨0, 1, 2, 0⟩] []).graph ⟨#[]⟩ = .ok g ∧
      g.blocks = .ok bs ∧ block ∈ bs ∧
      Context.ComesTo ⟨"A", ⟨#[]⟩, g, true⟩ block ⟨⟨[], []⟩, 0⟩ [] instr frame ∧
      instr.operation.isReturn = true ∧ v ∈ frame.stack.drop (instr.demand ⟨#[]⟩) ∧
      Context.evaluate ⟨"A", ⟨#[]⟩, g, true⟩ block ⟨⟨[], []⟩, 0⟩ = (after, .ok [some "return;"]) ∧
      ∀ line, ¬ Frame.Holds [some "return;"] line (v.text ++ ";") := by
  have hok : (do
      let g ← (Code.ofParts 1 1 [0x00, 0xb1, 0xb1] [⟨0, 1, 2, 0⟩] []).graph ⟨#[]⟩
      let bs ← g.blocks
      return (bs.filter Block.isHandler).map fun b : Block => (b.body g.code, b.exception?)) =
      .ok [([⟨2, 2, ⟨0xb1, "return", .fixed [], .returnVoid⟩, []⟩],
        some (.ofVariable 0 "exception" "Throwable"))] := by
    decide +kernel
  have hevaluate : (do
      let g ← (Code.ofParts 1 1 [0x00, 0xb1, 0xb1] [⟨0, 1, 2, 0⟩] []).graph ⟨#[]⟩
      let bs ← g.blocks
      return (bs.filter Block.isHandler).map fun b : Block =>
        (Context.evaluate ⟨"A", ⟨#[]⟩, g, true⟩ b ⟨⟨[], []⟩, 0⟩).2) =
      .ok [.ok [some "return;"]] := by
    decide +kernel
  obtain ⟨g, hgraph, h⟩ := Result.bind_eq_ok.mp hok
  obtain ⟨bs, hblocks, h⟩ := Result.bind_eq_ok.mp h
  obtain ⟨block, hfilter, hblock⟩ := List.map_eq_singleton_iff.mp (Result.pure_eq_ok.mp h)
  obtain ⟨hmem, -⟩ := List.mem_filter.mp (hfilter ▸ List.mem_singleton_self block)
  obtain ⟨hbody, hexception⟩ := Prod.mk.inj hblock
  obtain ⟨g', hgraph', h⟩ := Result.bind_eq_ok.mp hevaluate
  obtain rfl := Except.ok.inj (hgraph.symm.trans hgraph')
  obtain ⟨bs', hblocks', h⟩ := Result.bind_eq_ok.mp h
  obtain rfl := Except.ok.inj (hblocks.symm.trans hblocks')
  rw [hfilter] at h
  have hlines := List.head_eq_of_cons_eq (Result.pure_eq_ok.mp h)
  refine ⟨g, bs, block, _, _, _, _, hgraph, hblocks, hmem, ⟨[], _, hbody, rfl⟩, rfl,
    Option.mem_toList.mpr hexception, Prod.ext rfl hlines, ?_⟩
  rintro line ⟨before, behind, hheld⟩
  cases line with
  | zero =>
    have hlengths := congrArg String.length (Option.some.inj (Option.some.inj hheld))
    simp only [String.length_append] at hlengths
    have hshort : "return;".length < "exception".length := by decide
    have htext : (Value.ofVariable 0 "exception" "Throwable").text.length = "exception".length :=
      rfl
    omega
  | succ line => cases hheld

end JvmSource
