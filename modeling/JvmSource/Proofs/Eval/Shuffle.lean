import JvmSource.Proofs.Eval.Balance
import JvmSource.Proofs.Eval.Discipline

/-!
# Shuffles of the stack

On the machine a `long` or a `double` takes two slots of the stack, and `dup_x2` copies the top
below the next two slots: below two narrow values or below one wide value (`Shuffles`). The relation
has a constructor for each of the forms, with one cell for each value, and is defined on legal
stacks only.

The evaluator has one cell for each value and takes the cells for slots. So it does what the machine
does where all values are narrow, and `dup_x2` over a wide value goes one value too deep
(`shuffles_follow_machine`). There the two stacks can only be the same by chance, if the value one
deeper is the top once more.

The lemmas on steps whose operands may be of any type (`Site.step_of_perform`,
`Site.step_of_results`) are used of other instructions as well.
-/

namespace JvmSource

/-- Whether the value takes two slots on the stack of the machine. -/
def Value.isWide (v : Value) : Bool :=
  v.type == "long" || v.type == "double"

/-- **The shuffles of the machine**, with one cell for each value, the top first. -/
inductive Shuffles : Operation → List Value → List Value → Prop where
  | dupX1 {v₁ v₂ : Value} (rest : List Value) (h₁ : v₁.isWide = false) (h₂ : v₂.isWide = false) :
    Shuffles .dupX1 (v₁ :: v₂ :: rest) (v₁ :: v₂ :: v₁ :: rest)
  | swap {v₁ v₂ : Value} (rest : List Value) (h₁ : v₁.isWide = false) (h₂ : v₂.isWide = false) :
    Shuffles .swap (v₁ :: v₂ :: rest) (v₂ :: v₁ :: rest)
  | dupX2 {v₁ v₂ v₃ : Value} (rest : List Value) (h₁ : v₁.isWide = false) (h₂ : v₂.isWide = false)
    (h₃ : v₃.isWide = false) :
    Shuffles .dupX2 (v₁ :: v₂ :: v₃ :: rest) (v₁ :: v₂ :: v₃ :: v₁ :: rest)
  /-- The copy goes below the two slots of a wide value. -/
  | dupX2Wide {v₁ v₂ : Value} (rest : List Value) (h₁ : v₁.isWide = false) (h₂ : v₂.isWide = true) :
    Shuffles .dupX2 (v₁ :: v₂ :: rest) (v₁ :: v₂ :: v₁ :: rest)

/-! ### Shuffles of cells -/

/-- Operands that may be of any type are taken as they are. -/
theorem takeOperands_any (offset : Nat) (operands rest : List Value) :
    takeOperands offset (List.replicate operands.length none) (operands ++ rest) =
      .ok (operands, rest) := by
  induction operands with
  | nil => rfl
  | cons v operands ih =>
    rw [List.length_cons, List.replicate_succ, List.cons_append, takeOperands, ih]
    rfl

namespace Site

variable {site : Site} {locals : Locals} {frame : Frame} {action : Action}
  {operands rest : List Value}

/-- A step that finds its operands, with or without recovery. -/
theorem step_of_takeOperands {locals' : Locals} {effect : Effect}
    (hresolve : Action.resolve site.context.pool site.instr = .ok action)
    (htaken : takeOperands site.instr.offset action.wants frame.stack = .ok (operands, rest))
    (hperform : action.perform site frame locals operands = (locals', .ok effect)) :
    site.step locals frame = (locals', .ok (frame.apply rest effect)) := by
  have hoperands : site.operands action frame.stack = .ok (operands, rest) := by
    rw [Site.operands]
    split
    · rw [takeRecovering_eq (htaken ▸ Result.failsOnly_ok _), htaken]
    · exact htaken
  rw [step_of_resolve_ok site hresolve, hoperands, conclude, hperform]
  rfl

/-- A step whose operands may be of any type, and are there. -/
theorem step_of_perform {locals' : Locals} {effect : Effect} (operands : List Value)
    (hresolve : Action.resolve site.context.pool site.instr = .ok action)
    (hwants : action.wants = List.replicate operands.length none)
    (hperform : action.perform site frame locals operands = (locals', .ok effect))
    (hstack : frame.stack = operands ++ rest) :
    site.step locals frame = (locals', .ok (frame.apply rest effect)) := by
  refine step_of_takeOperands hresolve ?_ hperform
  rw [hwants, hstack, takeOperands_any]

/-- An action that only puts values in the place of its operands. -/
theorem step_of_results (operands results : List Value)
    (hresolve : Action.resolve site.context.pool site.instr = .ok action)
    (hwants : action.wants = List.replicate operands.length none)
    (hperform : action.perform site frame locals operands = (locals, .ok { results }))
    (hstack : frame.stack = operands ++ rest) :
    site.step locals frame = (locals, .ok (frame.withStack (results ++ rest))) :=
  step_of_perform operands hresolve hwants hperform hstack

/-- `dup_x2` takes three cells, whatever they hold. -/
theorem step_dupX2 {v₁ v₂ v₃ : Value} (hop : site.instr.operation = .dupX2)
    (hstack : frame.stack = v₁ :: v₂ :: v₃ :: rest) (locals : Locals) :
    site.step locals frame = (locals, .ok (frame.withStack (v₁ :: v₂ :: v₃ :: v₁ :: rest))) :=
  step_of_results [v₁, v₂, v₃] [v₁, v₂, v₃, v₁] (by rw [Action.resolve, hop]) rfl rfl hstack

/-- **Among narrow values** a shuffle of cells is that of the machine. -/
theorem step_of_shuffles {stack : List Value}
    (h : Shuffles site.instr.operation frame.stack stack)
    (hnarrow : site.instr.operation = .dupX2 → ∀ v, frame.stack[1]? = some v → v.isWide = false)
    (locals : Locals) : site.step locals frame = (locals, .ok (frame.withStack stack)) := by
  generalize hop : site.instr.operation = op at h hnarrow
  generalize hstack : frame.stack = before at h hnarrow
  cases h with
  | @dupX1 v₁ v₂ rest =>
    exact step_of_results [v₁, v₂] [v₁, v₂, v₁] (by rw [Action.resolve, hop]) rfl rfl hstack
  | @swap v₁ v₂ rest =>
    exact step_of_results [v₁, v₂] [v₂, v₁] (by rw [Action.resolve, hop]) rfl rfl hstack
  | dupX2 rest => exact step_dupX2 hop hstack locals
  | dupX2Wide rest h₁ h₂ =>
    rw [hnarrow rfl _ rfl] at h₂
    cases h₂

/-- `dup_x2` always leaves one cell more than the three that it takes. -/
theorem length_stack_of_dupX2 {locals' : Locals} {frame' : Frame}
    (hop : site.instr.operation = .dupX2)
    (h : site.step locals frame = (locals', .ok frame')) : 4 ≤ frame'.stack.length := by
  obtain ⟨action, operands, rest, effect, -, -, -, -, ⟨hresults, hflushes⟩, rfl⟩ := step_eq_ok_pad h
  rw [Instruction.yield, hop] at hresults
  rw [Frame.apply, List.length_append, hresults]
  exact Nat.le_add_right 4 _

end Site

/-- **The shuffles follow the machine among narrow values.** Where the operands of a shuffle are
legal on the machine and it is not a `dup_x2` over a wide value, the instruction leaves the stack
that the machine prescribes, and changes nothing else. Over a wide value, `dup_x2` leaves that stack
only if the value below happens to be the top once more. -/
theorem shuffles_follow_machine (site : Site) (locals : Locals) (frame : Frame) {stack : List Value}
    (h : Shuffles site.instr.operation frame.stack stack) :
    ((site.instr.operation = .dupX2 → ∀ v, frame.stack[1]? = some v → v.isWide = false) →
      site.step locals frame = (locals, .ok (frame.withStack stack))) ∧
    ∀ v₁ v₂ rest, site.instr.operation = .dupX2 → frame.stack = v₁ :: v₂ :: rest →
      v₂.isWide = true → ∀ locals' frame', site.step locals frame = (locals', .ok frame') →
        (frame'.stack = stack ↔ rest.head? = some v₁) := by
  refine ⟨fun hnarrow => Site.step_of_shuffles h hnarrow locals, ?_⟩
  intro v₁ v₂ rest hop hstack hwide locals' frame' hstep
  have hmachine : stack = v₁ :: v₂ :: v₁ :: rest := by
    rw [hop, hstack] at h
    cases h with
    | dupX2 rest h₁ h₂ =>
      rw [hwide] at h₂
      cases h₂
    | dupX2Wide => rfl
  subst hmachine
  cases rest with
  | nil =>
    -- nothing stands below, and the instruction pads the stack
    have hlength := Site.length_stack_of_dupX2 hop hstep
    refine iff_of_false (fun heq => ?_) (by simp)
    rw [heq] at hlength
    exact absurd hlength (by simp)
  | cons v₃ rest =>
    obtain ⟨rfl, hframe'⟩ := Prod.mk.inj ((Site.step_dupX2 hop hstack locals).symm.trans hstep)
    obtain rfl := Except.ok.inj hframe'
    -- the copy of the top is one value too deep
    show v₁ :: v₂ :: v₃ :: v₁ :: rest = v₁ :: v₂ :: v₁ :: v₃ :: rest ↔ some v₃ = some v₁
    constructor
    · intro heq
      simp only [List.cons.injEq] at heq
      exact congrArg some heq.2.2.1
    · intro heq
      rw [Option.some.inj heq]

/-- `dup_x2` with three narrow values. -/
theorem shuffles_follow_machine_of_narrow :
    let dupX2 : Instruction := ⟨3, 3, ⟨0x5b, "dup_x2", .fixed [], .dupX2⟩, []⟩
    let site : Site := ⟨⟨"A", ⟨#[]⟩, ⟨[dupX2], [], [], [], []⟩, true⟩, [dupX2], 0, dupX2⟩
    let v (n : Nat) : Value := .ofLiteral n (.int n)
    let frame : Frame := ⟨[v 2, v 1, v 0], [none], 0⟩
    Shuffles .dupX2 frame.stack [v 2, v 1, v 0, v 2] ∧
      site.step ⟨[], []⟩ frame = (⟨[], []⟩, .ok (frame.withStack [v 2, v 1, v 0, v 2])) := by
  intro dupX2 site v frame
  have hshuffles : Shuffles .dupX2 frame.stack [v 2, v 1, v 0, v 2] := .dupX2 [] rfl rfl rfl
  refine ⟨hshuffles, (shuffles_follow_machine site ⟨[], []⟩ frame hshuffles).1 ?_⟩
  rintro - v hv
  obtain rfl := Option.some.inj hv
  rfl

/-- The copy of `dup_x2` goes below the value that stands under a `long`. -/
theorem copy_below_wide_too_deep :
    ∃ g block instr locals frame stack frame',
      (Code.ofParts 4 4 [0x06, 0x0a, 0x05, 0x5b, 0x57, 0x3f, 0x3d, 0x3e, 0xb1] [] []).graph ⟨#[]⟩ =
        .ok g ∧
      g.blocks = .ok [block] ∧ (block.body g.code)[3]? = some instr ∧
      Context.runBlock ⟨"A", ⟨#[]⟩, g, true⟩ block ⟨⟨[], []⟩, 0⟩ ((block.body g.code).take 3) =
        (locals, .ok frame) ∧
      Shuffles instr.operation frame.stack stack ∧
      Site.step ⟨⟨"A", ⟨#[]⟩, g, true⟩, block.body g.code, 3, instr⟩ locals frame =
        (locals, .ok frame') ∧
      frame'.stack ≠ stack := by
  have hok : (do
      let g ← (Code.ofParts 4 4 [0x06, 0x0a, 0x05, 0x5b, 0x57, 0x3f, 0x3d, 0x3e, 0xb1] [] []).graph
        ⟨#[]⟩
      let bs ← g.blocks
      return bs.map fun b : Block => ((b.body g.code)[3]?.map Instruction.operation,
        (Context.runBlock ⟨"A", ⟨#[]⟩, g, true⟩ b ⟨⟨[], []⟩, 0⟩ ((b.body g.code).take 3)).2.map
          Frame.stack)) =
      .ok [(some .dupX2,
        .ok [.ofLiteral 2 (.int 2), .ofLiteral 1 (.long 1), .ofLiteral 0 (.int 3)])] := by
    decide +kernel
  obtain ⟨g, hgraph, h⟩ := Result.bind_eq_ok.mp hok
  obtain ⟨bs, hblocks, h⟩ := Result.bind_eq_ok.mp h
  obtain ⟨block, rfl, hblock⟩ := List.map_eq_singleton_iff.mp (Result.pure_eq_ok.mp h)
  obtain ⟨hinstr, hframe⟩ := Prod.mk.inj hblock
  obtain ⟨instr, hinstr, hop⟩ := Option.map_eq_some_iff.mp hinstr
  obtain ⟨frame, hframe, hstack⟩ := Result.map_eq_ok.mp hframe
  have hshuffles : Shuffles instr.operation frame.stack [.ofLiteral 2 (.int 2),
      .ofLiteral 1 (.long 1), .ofLiteral 2 (.int 2), .ofLiteral 0 (.int 3)] := by
    rw [hop, hstack]
    exact .dupX2Wide _ rfl rfl
  refine ⟨g, block, instr, _, frame, _, _, hgraph, hblocks, hinstr, Prod.ext rfl hframe, hshuffles,
    Site.step_dupX2 hop hstack _, ?_⟩
  simp [Frame.withStack, Value.ofLiteral]

end JvmSource
