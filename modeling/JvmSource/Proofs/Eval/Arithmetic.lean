import JvmSource.Proofs.Eval.Shuffle
import JvmSource.Proofs.Locals
import JvmSource.Proofs.Text.Expression

/-!
# Arithmetic and its text

Instructions that compute with `int` and `long` numbers build expressions (`expressions?`): each is
a node over those on top of the stack. The evaluator builds their texts instead, and decides on the
parentheses from the texts alone. The two stacks go side by side (`Value.Spells`): an instruction
that can be evaluated without underflow has an expression, and its value the text of the expression
(`Site.exists_step_of_graft?`); one that has no expression finds too few operands
(`Site.step_of_graft?_eq_none`).

Loads are labelled by the names of their slots, and these must not change on the way. A slot is
*named by default* if it is known under a name made up from its number, or will be
(`Locals.NamesByDefault`): the first use of a slot binds it, under the name that it is known by
already, and the use of one slot changes no name of another.

Since an expression can be read off its text in one way only, values with the same text have the
same expression, wherever the two come from: `expression_text_unambiguous`.
-/

namespace JvmSource

/-- Whether the operation is a constant, a load or an operator of `int` or `long` numbers. -/
def Operation.isArithmetic : Operation → Bool
  | pushInt _ | pushLong _ | pushOperand => true
  | load .int _ | load .long _ | negate .int | negate .long | binary _ .int | binary _ .long
  | shift _ .int | shift _ .long => true
  | _ => false

/-! ### Expressions of instructions -/

/-- The expressions on the stack, the top first, behind an instruction. A load is labelled by the
name of its slot. -/
def Instruction.graft? (names : Nat → String) (a : Instruction) (trees : List Expression) :
    Option (List Expression) :=
  match a.operation, trees with
  | .pushInt value, trees => some (.int value :: trees)
  | .pushLong value, trees => some (.long value :: trees)
  | .pushOperand, trees => some (.int (a.operand 0) :: trees)
  | .load _ slot, trees => some (.named (names (Action.slotOf a slot)) :: trees)
  | .negate _, e :: trees => some (.negate e :: trees)
  | .binary operator _, right :: left :: trees => some (.binary operator left right :: trees)
  | .shift operator _, right :: left :: trees => some (.shift operator left right :: trees)
  | _, _ => none

/-- The expressions on the stack behind a sequence of instructions. -/
def expressions? (names : Nat → String) :
    List Instruction → List Expression → Option (List Expression)
  | [], trees => some trees
  | a :: rest, trees => (a.graft? names trees).bind (expressions? names rest)

/-! ### Names of slots -/

namespace Locals

/-- The name of a slot: that of its variable, or else the one that is made up for it. -/
def nameOf (locals : Locals) (slot : Nat) : String :=
  match locals.get? slot with
  | some v => v.name
  | none => "var" ++ Text.decimal slot

/-- The slot is named by default: its variable has a made up name, or it will get one, since no row
of the table is about it. -/
def NamesByDefault (locals : Locals) (slot : Nat) : Prop :=
  (locals.nameOf slot = "arg" ++ Text.decimal slot ∨
    locals.nameOf slot = "var" ++ Text.decimal slot) ∧
  (locals.get? slot = none → ∀ row ∈ locals.table, row.slot ≠ slot)

/-- The instructions compute with numbers and with variables that are named by default. -/
def Computes (locals : Locals) (code : List Instruction) : Prop :=
  ∀ a ∈ code, a.operation.isArithmetic = true ∧
    ∀ type slot, a.operation = .load type slot → locals.NamesByDefault (Action.slotOf a slot)

variable {locals : Locals} {slot : Nat}

/-- A slot that is named by default and not bound yet gets the name that is made up for it. -/
theorem NamesByDefault.newName_eq (h : locals.NamesByDefault slot)
    (hnone : locals.get? slot = none) (pc : Nat) :
    newName locals.table slot pc = "var" ++ Text.decimal slot := by
  have hrows : locals.table.filter (·.slot == slot) = [] := by
    simpa using h.2 hnone
  rw [newName, tableName?, hrows]
  rfl

/-- A slot that is named by default is used under its name, and keeps it. -/
theorem NamesByDefault.getOrBind (h : locals.NamesByDefault slot) (type : String) (pc : Nat) :
    (locals.getOrBind slot type pc).1.name = locals.nameOf slot ∧
      (locals.getOrBind slot type pc).2.nameOf = locals.nameOf := by
  cases hslot : locals.get? slot with
  | some v =>
    have hbound : locals.getOrBind slot type pc = (v, locals) := by rw [Locals.getOrBind, hslot]
    rw [hbound, nameOf, hslot]
    exact ⟨rfl, rfl⟩
  | none =>
    have hname : locals.nameOf slot = "var" ++ Text.decimal slot := by rw [nameOf, hslot]
    rw [getOrBind_of_get?_eq_none hslot, h.newName_eq hslot, hname]
    refine ⟨rfl, funext fun other => ?_⟩
    by_cases hother : other = slot
    · rw [hother, hname, nameOf, get?_bind_self]
    · rw [nameOf, get?_bind_of_ne locals _ hother, nameOf]

/-- The use of a slot changes no default name. -/
theorem NamesByDefault.of_getOrBind {other : Nat} (hother : locals.NamesByDefault other)
    (h : locals.NamesByDefault slot) (type : String) (pc : Nat) :
    (locals.getOrBind slot type pc).2.NamesByDefault other := by
  refine ⟨by rw [(h.getOrBind type pc).2]; exact hother.1, fun hnone => ?_⟩
  rw [table_getOrBind]
  refine hother.2 ?_
  by_contra hsome
  obtain ⟨v, hv⟩ := Option.ne_none_iff_exists'.mp hsome
  rw [get?_getOrBind_of_eq_some hv] at hnone
  cases hnone

end Locals

/-! ### Values and expressions -/

/-- The text of the value is that of the expression, whose names are made up. -/
def Value.Spells (v : Value) (e : Expression) : Prop :=
  e.IsMadeUp ∧ v.text.toList = e.text

/-- The text of the value as an operand is that of the expression as an operand. -/
theorem Value.Spells.toList_operandText {v : Value} {e : Expression} (h : v.Spells e) :
    v.operandText.toList = e.operandText := by
  rw [operandText, Text.holds, h.2, Expression.operandText, Expression.enclosed]
  have hspace := Expression.space_notMem_text_iff h.1
  by_cases hatom : e.isAtom = true
  · rw [if_pos hatom, if_neg (by simpa using hspace.mpr hatom), h.2]
  · rw [if_neg hatom, if_pos (by simpa using mt hspace.mp hatom)]
    simp [h.2]

namespace Value.Spells

variable {v w : Value} {e e' : Expression} {position : Nat} {type : String}

/-- The text of a negated value is that of the negated expression. -/
theorem negate (h : v.Spells e) :
    (ofCode position ("- " ++ v.operandText) type).Spells (.negate e) := by
  refine ⟨h.1, ?_⟩
  show ("- " ++ v.operandText).toList = _
  rw [String.toList_append, h.toList_operandText]
  rfl

/-- The text of an operator between two values is that of the operator between their expressions. -/
theorem binary (h : v.Spells e) (h' : w.Spells e') (operator : BinaryOperator) :
    (ofCode position (v.operandText ++ " " ++ operator.symbol ++ " " ++ w.operandText) type).Spells
      (.binary operator e e') := by
  refine ⟨⟨h.1, h'.1⟩, ?_⟩
  show (v.operandText ++ " " ++ operator.symbol ++ " " ++ w.operandText).toList = _
  simp only [String.toList_append, h.toList_operandText, h'.toList_operandText, List.append_assoc]
  rfl

/-- The text of a shift between two values is that of the shift between their expressions. -/
theorem shift (h : v.Spells e) (h' : w.Spells e') (operator : ShiftOperator) :
    (ofCode position
      ("(" ++ v.text ++ ") " ++ operator.symbol ++ " (" ++ w.text ++ ")") type).Spells
        (.shift operator e e') := by
  refine ⟨⟨h.1, h'.1⟩, ?_⟩
  show ("(" ++ v.text ++ ") " ++ operator.symbol ++ " (" ++ w.text ++ ")").toList = _
  simp only [String.toList_append, h.2, h'.2, List.append_assoc]
  rfl

/-- Values with the same text spell the same expression. -/
theorem eq_of_text_eq (h : v.Spells e) (h' : w.Spells e') (htext : v.text = w.text) : e = e' :=
  Expression.eq_of_text_eq h.1 h'.1 (by rw [← h.2, ← h'.2, htext])

theorem exists_getElem? {values : List Value} {trees : List Expression} {i : Nat}
    (h : List.Forall₂ Value.Spells values trees) (hv : values[i]? = some v) :
    ∃ e, trees[i]? = some e ∧ v.Spells e := by
  obtain ⟨hi, rfl⟩ := List.getElem?_eq_some_iff.mp hv
  have hi' : i < trees.length := h.length_eq ▸ hi
  exact ⟨trees[i], List.getElem?_eq_getElem hi', h.get hi hi'⟩

end Value.Spells

/-! ### Steps -/

/-- A stack that is too short runs dry, if the operands may be of any type. -/
theorem takeOperands_any_of_lt {count : Nat} {stack : List Value} (h : stack.length < count)
    (offset : Nat) :
    takeOperands offset (List.replicate count none) stack = .error (.stackUnderflow offset) := by
  induction stack generalizing count with
  | nil =>
    cases count with
    | zero => cases h
    | succ count => rfl
  | cons v stack ih =>
    cases count with
    | zero => cases h
    | succ count =>
      rw [List.replicate_succ, takeOperands, ih (Nat.lt_of_succ_lt_succ h)]
      rfl

namespace Site

variable {site : Site} {locals : Locals} {frame : Frame} {names : Nat → String}
  {trees trees' : List Expression}

/-- **An arithmetic instruction** that finds its operands leaves a value with the text of its
expression. It changes no default name. -/
theorem exists_step_of_graft? (site : Site)
    (hload : ∀ type slot, site.instr.operation = .load type slot →
      locals.NamesByDefault (Action.slotOf site.instr slot))
    (hstack : List.Forall₂ Value.Spells frame.stack trees)
    (hgraft : site.instr.graft? locals.nameOf trees = some trees') :
    ∃ locals' frame', site.step locals frame = (locals', .ok frame') ∧
      List.Forall₂ Value.Spells frame'.stack trees' ∧ locals'.nameOf = locals.nameOf ∧
      ∀ slot, locals.NamesByDefault slot → locals'.NamesByDefault slot := by
  have hsame : locals.nameOf = locals.nameOf ∧
      ∀ slot, locals.NamesByDefault slot → locals.NamesByDefault slot :=
    ⟨rfl, fun _ => id⟩
  rw [Instruction.graft?.eq_def] at hgraft
  split at hgraft
  · next value hop =>
    cases hgraft
    refine ⟨_, _, step_of_perform [] (by rw [Action.resolve, hop]) rfl rfl rfl, ?_, hsame⟩
    exact .cons ⟨trivial, rfl⟩ hstack
  · next value hop =>
    cases hgraft
    refine ⟨_, _, step_of_perform [] (by rw [Action.resolve, hop]) rfl rfl rfl, ?_, hsame⟩
    exact .cons ⟨trivial, by simp [Value.text, Literal.text, Expression.text]⟩ hstack
  · next hop =>
    cases hgraft
    refine ⟨_, _, step_of_perform [] (by rw [Action.resolve, hop]) rfl rfl rfl, ?_, hsame⟩
    exact .cons ⟨trivial, rfl⟩ hstack
  · next type slot hop =>
    cases hgraft
    -- a load: the only instruction that may bind a variable, under its default name
    have hdefault := hload type slot hop
    obtain ⟨hused, hkept⟩ := hdefault.getOrBind type.display site.instr.offset
    refine ⟨_, _, step_of_perform [] (by rw [Action.resolve, hop]) rfl rfl rfl, ?_, ?_⟩
    · exact .cons ⟨⟨Action.slotOf site.instr slot, hdefault.1⟩, congrArg String.toList hused⟩ hstack
    · exact ⟨hkept, fun other hother => hother.of_getOrBind hdefault _ _⟩
  · next type e trees hop =>
    cases hgraft
    -- the stack spells a tree exactly where there is one, so the operand is on it
    obtain ⟨v, rest, hv, hrest, hframe⟩ := List.forall₂_cons_right_iff.mp hstack
    refine ⟨_, _, step_of_perform [v] (by rw [Action.resolve, hop]) rfl rfl hframe, ?_, hsame⟩
    exact .cons hv.negate hrest
  · next operator type right left trees hop =>
    cases hgraft
    obtain ⟨w, below, hw, hbelow, hframe⟩ := List.forall₂_cons_right_iff.mp hstack
    obtain ⟨v, rest, hv, hrest, rfl⟩ := List.forall₂_cons_right_iff.mp hbelow
    refine ⟨_, _, step_of_perform [w, v] (by rw [Action.resolve, hop]) rfl rfl hframe, ?_, hsame⟩
    exact .cons (hv.binary hw operator) hrest
  · next operator type right left trees hop =>
    cases hgraft
    obtain ⟨w, below, hw, hbelow, hframe⟩ := List.forall₂_cons_right_iff.mp hstack
    obtain ⟨v, rest, hv, hrest, rfl⟩ := List.forall₂_cons_right_iff.mp hbelow
    refine ⟨_, _, step_of_perform [w, v] (by rw [Action.resolve, hop]) rfl rfl hframe, ?_, hsame⟩
    exact .cons (hv.shift hw operator) hrest
  · cases hgraft

/-- An instruction whose operands may be of any type finds too few of them on a stack that is too
short. -/
theorem step_of_short {action : Action} (count : Nat) (hrecover : site.context.recover = false)
    (hresolve : Action.resolve site.context.pool site.instr = .ok action)
    (hwants : action.wants = List.replicate count none) (hshort : frame.stack.length < count)
    (locals : Locals) :
    site.step locals frame = (locals, .error (.stackUnderflow site.instr.offset)) := by
  rw [step_of_resolve_ok site hresolve, operands, hrecover, hwants,
    takeOperands_any_of_lt hshort site.instr.offset]
  rfl

/-- **An arithmetic instruction without an expression** finds too few operands. -/
theorem step_of_graft?_eq_none (hop : site.instr.operation.isArithmetic = true)
    (hrecover : site.context.recover = false) (hlength : frame.stack.length = trees.length)
    (hgraft : site.instr.graft? names trees = none) (locals : Locals) :
    site.step locals frame = (locals, .error (.stackUnderflow site.instr.offset)) := by
  rw [Instruction.graft?.eq_def] at hgraft
  cases hoperation : site.instr.operation with
  | pushInt | pushLong | pushOperand | load =>
    rw [hoperation] at hgraft
    cases hgraft
  | negate type =>
    rw [hoperation] at hgraft
    refine step_of_short 1 hrecover (by rw [Action.resolve, hoperation]) rfl ?_ locals
    rcases trees with _ | ⟨e, trees⟩
    · simp [hlength]
    · cases hgraft
  | binary operator type | shift operator type =>
    rw [hoperation] at hgraft
    refine step_of_short 2 hrecover (by rw [Action.resolve, hoperation]) rfl ?_ locals
    rcases trees with _ | ⟨right, _ | ⟨left, trees⟩⟩
    · simp [hlength]
    · simp [hlength]
    · cases hgraft
  | _ =>
    rw [hoperation] at hop
    cases hop

end Site

/-! ### Runs -/

/-- The instructions behind the first one compute with default names as well, if these are kept. -/
theorem Locals.Computes.step {locals locals' : Locals} {a : Instruction} {rest : List Instruction}
    (h : locals.Computes (a :: rest))
    (hkept : ∀ slot, locals.NamesByDefault slot → locals'.NamesByDefault slot) :
    locals'.Computes rest := by
  intro b hb
  obtain ⟨hop, hload⟩ := h b (List.mem_cons_of_mem a hb)
  exact ⟨hop, fun type slot hslot => hkept _ (hload type slot hslot)⟩

namespace Context

variable {ctx : Context} {body code : List Instruction} {position : Nat} {locals : Locals}
  {frame : Frame} {trees trees' : List Expression}

/-- **The values of a run** have the texts of its expressions. -/
theorem exists_runFrom_of_expressions? (hcode : locals.Computes code)
    (hstack : List.Forall₂ Value.Spells frame.stack trees)
    (h : expressions? locals.nameOf code trees = some trees') :
    ∃ locals' frame', ctx.runFrom body position code locals frame = (locals', .ok frame') ∧
      List.Forall₂ Value.Spells frame'.stack trees' := by
  induction code generalizing position locals frame trees with
  | nil =>
    cases h
    exact ⟨locals, frame, rfl, hstack⟩
  | cons a rest ih =>
    obtain ⟨between, hgraft, hrest⟩ := Option.bind_eq_some_iff.mp h
    obtain ⟨locals₁, frame₁, hstep, hstack₁, hnames, hkept⟩ := Site.exists_step_of_graft?
      ⟨ctx, body, position, a⟩ (hcode a List.mem_cons_self).2 hstack hgraft
    rw [← hnames] at hrest
    rw [runFrom, hstep]
    exact ih (hcode.step hkept) hstack₁ hrest

/-- **A run without expressions** finds too few operands. -/
theorem runFrom_of_expressions?_eq_none (hcode : locals.Computes code)
    (hrecover : ctx.recover = false) (hstack : List.Forall₂ Value.Spells frame.stack trees)
    (h : expressions? locals.nameOf code trees = none) :
    ∃ offset,
      (ctx.runFrom body position code locals frame).2 = .error (.stackUnderflow offset) := by
  induction code generalizing position locals frame trees with
  | nil => cases h
  | cons a rest ih =>
    cases hgraft : a.graft? locals.nameOf trees with
    | none =>
      rw [runFrom, Site.step_of_graft?_eq_none (hcode a List.mem_cons_self).1 hrecover
        hstack.length_eq hgraft]
      exact ⟨a.offset, rfl⟩
    | some between =>
      rw [expressions?, hgraft, Option.bind_some] at h
      obtain ⟨locals₁, frame₁, hstep, hstack₁, hnames, hkept⟩ := Site.exists_step_of_graft?
        ⟨ctx, body, position, a⟩ (hcode a List.mem_cons_self).2 hstack hgraft
      rw [← hnames] at h
      rw [runFrom, hstep]
      exact ih (hcode.step hkept) hstack₁ h

/-- A run that does not underflow has expressions. -/
theorem exists_expressions?_of_runFrom (hcode : locals.Computes code)
    (hstack : List.Forall₂ Value.Spells frame.stack trees)
    (hflow : ∀ offset, ((ctx.recovering false).runFrom body position code locals frame).2 ≠
      .error (.stackUnderflow offset)) :
    ∃ trees', expressions? locals.nameOf code trees = some trees' := by
  refine Option.ne_none_iff_exists'.mp fun hnone => ?_
  have hrecover : (ctx.recovering false).recover = false := rfl
  obtain ⟨offset, hunderflow⟩ := runFrom_of_expressions?_eq_none hcode hrecover hstack hnone
  exact hflow offset hunderflow

end Context

/-! ### Unambiguous texts -/

/-- **The text of an expression is unambiguous.** Any two sequences of arithmetic instructions that
do not underflow can be evaluated, and of the values that they leave, those with the same text have
the same expression. -/
theorem expression_text_unambiguous (ctx ctx' : Context) (body body' code code' : List Instruction)
    (position position' : Nat) (locals locals' : Locals) (lines lines' : List (Option String))
    (objects objects' : Nat) (hcode : locals.Computes code) (hcode' : locals'.Computes code')
    (hflow : ∀ offset, ((ctx.recovering false).runFrom body position code locals
      ⟨[], lines, objects⟩).2 ≠ .error (.stackUnderflow offset))
    (hflow' : ∀ offset, ((ctx'.recovering false).runFrom body' position' code' locals'
      ⟨[], lines', objects'⟩).2 ≠ .error (.stackUnderflow offset)) :
    ∃ last frame trees last' frame' trees',
      ctx.runFrom body position code locals ⟨[], lines, objects⟩ = (last, .ok frame) ∧
      ctx'.runFrom body' position' code' locals' ⟨[], lines', objects'⟩ = (last', .ok frame') ∧
      expressions? locals.nameOf code [] = some trees ∧
      expressions? locals'.nameOf code' [] = some trees' ∧
      frame.stack.length = trees.length ∧ frame'.stack.length = trees'.length ∧
      ∀ (i j : Nat) (v v' : Value), frame.stack[i]? = some v → frame'.stack[j]? = some v' →
        v.text = v'.text → trees[i]? = trees'[j]? := by
  have hempty (lines : List (Option String)) (objects : Nat) :
      List.Forall₂ Value.Spells (⟨[], lines, objects⟩ : Frame).stack [] := .nil
  obtain ⟨trees, htrees⟩ := Context.exists_expressions?_of_runFrom hcode .nil hflow
  obtain ⟨trees', htrees'⟩ := Context.exists_expressions?_of_runFrom hcode' .nil hflow'
  obtain ⟨last, frame, hrun, hspells⟩ :=
    Context.exists_runFrom_of_expressions? hcode (hempty lines objects) htrees
  obtain ⟨last', frame', hrun', hspells'⟩ :=
    Context.exists_runFrom_of_expressions? hcode' (hempty lines' objects') htrees'
  refine ⟨last, frame, trees, last', frame', trees', hrun, hrun', htrees, htrees',
    hspells.length_eq, hspells'.length_eq, ?_⟩
  intro i j v v' hv hv' htext
  obtain ⟨e, he, hspell⟩ := Value.Spells.exists_getElem? hspells hv
  obtain ⟨e', he', hspell'⟩ := Value.Spells.exists_getElem? hspells' hv'
  rw [he, he', hspell.eq_of_text_eq hspell' htext]

/-- The difference of -1 and a variable with its sign changed, as `int` and as `long` numbers. -/
theorem expression_text_unambiguous_of_negations :
    let minusOne : Instruction := ⟨0, 0, ⟨0x02, "iconst_m1", .fixed [], .pushInt (-1)⟩, []⟩
    let code : List Instruction := [minusOne,
      ⟨1, 1, ⟨0x1b, "iload_1", .fixed [], .load .int (some 1)⟩, []⟩,
      ⟨2, 2, ⟨0x64, "isub", .fixed [], .binary .sub .int⟩, []⟩,
      ⟨3, 3, ⟨0x74, "ineg", .fixed [], .negate .int⟩, []⟩]
    let code' : List Instruction := [minusOne,
      ⟨1, 1, ⟨0x1f, "lload_1", .fixed [], .load .long (some 1)⟩, []⟩,
      ⟨2, 2, ⟨0x65, "lsub", .fixed [], .binary .sub .long⟩, []⟩,
      ⟨3, 3, ⟨0x75, "lneg", .fixed [], .negate .long⟩, []⟩]
    let ctx : Context := ⟨"A", ⟨#[]⟩, ⟨[], [], [], [], []⟩, false⟩
    let names := Locals.nameOf ⟨[], []⟩
    ∃ v v' trees trees', (ctx.runFrom code 0 code ⟨[], []⟩ ⟨[], [], 0⟩).2 = .ok ⟨[v], [], 0⟩ ∧
      (ctx.runFrom code' 0 code' ⟨[], []⟩ ⟨[], [], 0⟩).2 = .ok ⟨[v'], [], 0⟩ ∧
      v.text = "- (-1 - var1)" ∧ v'.text = "- (-1 - var1)" ∧
      expressions? names code [] = some trees ∧ expressions? names code' [] = some trees' ∧
      trees[0]? = trees'[0]? := by
  intro minusOne code code' ctx names
  have hdefault (slot : Nat) : Locals.NamesByDefault ⟨[], []⟩ slot := ⟨.inr rfl, by simp⟩
  have hcode : Locals.Computes ⟨[], []⟩ code := fun a ha =>
    ⟨(by decide : ∀ a ∈ code, a.operation.isArithmetic = true) a ha, fun _ _ _ => hdefault _⟩
  have hcode' : Locals.Computes ⟨[], []⟩ code' := fun a ha =>
    ⟨(by decide : ∀ a ∈ code', a.operation.isArithmetic = true) a ha, fun _ _ _ => hdefault _⟩
  have hvalue : (ctx.runFrom code 0 code ⟨[], []⟩ ⟨[], [], 0⟩).2 =
      .ok ⟨[.ofCode 3 "- (-1 - var1)" "int"], [], 0⟩ := by
    decide +kernel
  have hvalue' : (ctx.runFrom code' 0 code' ⟨[], []⟩ ⟨[], [], 0⟩).2 =
      .ok ⟨[.ofCode 3 "- (-1 - var1)" "long"], [], 0⟩ := by
    decide +kernel
  have hflow (offset : Nat) : (ctx.runFrom code 0 code ⟨[], []⟩ ⟨[], [], 0⟩).2 ≠
      .error (.stackUnderflow offset) := by
    simp [hvalue]
  have hflow' (offset : Nat) : (ctx.runFrom code' 0 code' ⟨[], []⟩ ⟨[], [], 0⟩).2 ≠
      .error (.stackUnderflow offset) := by
    simp [hvalue']
  obtain ⟨last, frame, trees, last', frame', trees', hrun, hrun', htrees, htrees', -, -, hsame⟩ :=
    expression_text_unambiguous ctx ctx code code' code code' 0 0 ⟨[], []⟩ ⟨[], []⟩ [] [] 0 0
      hcode hcode' hflow hflow'
  rw [hrun] at hvalue
  rw [hrun'] at hvalue'
  obtain rfl := Except.ok.inj hvalue
  obtain rfl := Except.ok.inj hvalue'
  exact ⟨_, _, trees, trees', congrArg Prod.snd hrun, congrArg Prod.snd hrun', rfl, rfl, htrees,
    htrees', hsame 0 0 _ _ rfl rfl rfl⟩

end JvmSource
