import JvmSource.Proofs.Eval.Step
import JvmSource.Proofs.Locals

/-!
# The moments of an evaluation

The evaluation of some blocks is a sequence of moments: at each one an instruction is about to be
evaluated, with the variables and the frame that it finds (`Context.moments`). Each moment finds the
variables that the one before has left, also where a block begins (`Moment.Trail`). Frames do not go
from one block to the next, so the trail is one of variables only.

Variables are changed only by accesses to them, and an access binds its slot if it is not bound yet
and does nothing else (`Site.locals_step`). So along a trail a binding is never changed
(`Moment.Trail.get?_eq_some`), and a slot that is not bound is bound at its first access
(`Moment.Trail.name_of_access`). Both are inductions on the trail, and know nothing of blocks.

What an access shows is the name of the variable that the slot is bound to behind it
(`Moment.exists_shows`): in the value that a load pushes, or in the statement of a store or an
increment. So every access to a slot that is bound at the start shows the name of its variable
(`Context.shows_of_mem_moments`), and every access to another slot shows the name that goes with the
first one (`Context.shows_newName_of_mem_moments`).

If a method can be evaluated, each of its instructions has its moment (`Context.covers_moments`), so
these facts are about all accesses in its text.
-/

namespace JvmSource

/-! ### Accesses -/

namespace Instruction

/-- The slot of the variable that the instruction loads, stores or increments. Other instructions
access none. -/
def slot? (instr : Instruction) : Option Nat :=
  match instr.operation with
  | .load _ slot | .loadReference slot | .store _ slot => some (Action.slotOf instr slot)
  | .increment => some instr.indexOperand.toNat
  | _ => none

/-- The offset at which an access looks for a name: a store is looked up behind the instruction,
where the range of its variable begins. -/
def accessOffset (instr : Instruction) : Nat :=
  match instr.operation with
  | .store .. => instr.offset + instr.size
  | _ => instr.offset

end Instruction

namespace Action

/-- The slot of the variable that an action loads, assigns or increments. -/
def slot? : Action → Option Nat
  | access (.load _ slot) | access (.loadReference slot) | access (.increment slot _)
  | assign _ slot => some slot
  | _ => none

/-- The offset at which an action of the instruction looks for a name. -/
def accessOffset (instr : Instruction) : Action → Nat
  | assign .. => instr.offset + instr.size
  | _ => instr.offset

/-- An action accesses the slot that its instruction does, and looks for a name at the same
offset. -/
theorem accesses_of_resolve {pool : Pool} {instr : Instruction} {action : Action}
    (h : resolve pool instr = .ok action) :
    action.slot? = instr.slot? ∧ action.accessOffset instr = instr.accessOffset := by
  have hgives : Result.GivesOnly (fun action =>
      action.slot? = instr.slot? ∧ action.accessOffset instr = instr.accessOffset)
      (resolve pool instr) := by
    rw [resolve]
    split <;> simp [slot?, accessOffset, Instruction.slot?, Instruction.accessOffset, *]
  exact hgives action h

/-- Only an access to a variable changes the variables: it binds its slot. -/
theorem locals_perform (action : Action) (site : Site) (frame : Frame) (locals : Locals)
    (operands : List Value) :
    (action.perform site frame locals operands).1 = locals ∨
      ∃ slot type, action.slot? = some slot ∧ (action.perform site frame locals operands).1 =
        (locals.getOrBind slot type (action.accessOffset site.instr)).2 := by
  unfold perform
  split
  · next a =>
    cases a with
    | load type slot => exact .inr ⟨slot, type.display, rfl, rfl⟩
    | loadReference slot => exact .inl rfl
    | increment slot delta => exact .inr ⟨slot, Ty.int.display, rfl, rfl⟩
  · next type slot value => exact .inr ⟨slot, _, rfl, rfl⟩
  all_goals exact .inl rfl

end Action

namespace Site

variable {site : Site} {locals locals' : Locals} {frame frame' : Frame}

/-- **A step changes the variables** only by binding the slot that its instruction accesses. -/
theorem locals_step (site : Site) (locals : Locals) (frame : Frame) :
    (site.step locals frame).1 = locals ∨ ∃ slot type, site.instr.slot? = some slot ∧
      (site.step locals frame).1 = (locals.getOrBind slot type site.instr.accessOffset).2 := by
  cases hresolve : Action.resolve site.context.pool site.instr with
  | error e => exact .inl (by rw [step_of_resolve_error site hresolve])
  | ok action =>
    obtain ⟨hslot, hoffset⟩ := Action.accesses_of_resolve hresolve
    rw [step_of_resolve_ok site hresolve, ← hslot, ← hoffset]
    cases hoperands : site.operands action frame.stack with
    | error e => exact .inl rfl
    | ok taken => exact action.locals_perform site frame locals taken.1

/-- An access without operands leaves the stack as it is below what it pushes. -/
theorem step_access {a : Action.Access}
    (h : Action.resolve site.context.pool site.instr = .ok (.access a)) (locals : Locals)
    (frame : Frame) :
    site.step locals frame =
      ((a.effect site locals).1, (a.effect site locals).2.map (frame.apply frame.stack)) := by
  have hoperands : site.operands (.access a) frame.stack = .ok ([], frame.stack) := by
    rw [operands]
    split <;> rfl
  rw [step_of_resolve_ok site h, hoperands]
  rfl

/-- The value that an assignment takes: the top of the stack, or a placeholder if there is none. -/
def assigned (site : Site) (frame : Frame) : Value :=
  frame.stack.head?.getD (placeholder site.position)

/-- What a step that assigns does: the effect of the assignment, on the value that it takes. -/
theorem step_assign_eq_ok {type : Option Ty} {slot : Nat}
    (h : Action.resolve site.context.pool site.instr = .ok (.assign type slot))
    (hstep : site.step locals frame = (locals', .ok frame')) :
    ∃ rest effect, Action.assignEffect site locals type slot (site.assigned frame) =
      (locals', .ok effect) ∧ frame' = frame.apply rest effect := by
  obtain ⟨action, operands, rest, effect, hresolve, hoperands, hperform, rfl⟩ := step_eq_ok hstep
  obtain rfl := Except.ok.inj (h.symm.trans hresolve)
  obtain ⟨missing, happend, hlength, hempty⟩ := operands_eq_ok hoperands
  obtain ⟨value, rfl⟩ := List.length_eq_one_iff.mp hlength
  have hvalue : site.assigned frame = value := by
    rw [assigned]
    rcases hempty with rfl | rfl
    · rw [List.replicate_zero, List.nil_append] at happend
      rw [happend]
      rfl
    · -- nothing is left below, so either the value or a placeholder was all there was
      rw [List.append_nil] at happend
      cases missing with
      | zero =>
        rw [List.replicate_zero, List.nil_append] at happend
        rw [happend]
        rfl
      | succ missing =>
        obtain ⟨hfirst, hrest⟩ := List.cons.inj happend
        rw [(List.append_eq_nil_iff.mp hrest).2]
        exact hfirst
  exact ⟨rest, effect, hvalue ▸ hperform, rfl⟩

end Site

/-! ### Moments -/

/-- A moment of an evaluation: an instruction that is about to be evaluated, with the variables and
the frame that it finds. -/
structure Moment where
  site : Site
  locals : Locals
  frame : Frame

namespace Moment

/-- What comes of the moment: the variables, and the frame if the instruction can be evaluated. -/
def next (m : Moment) : Locals × Result Frame :=
  m.site.step m.locals m.frame

/-- The slot of the variable that is accessed at the moment. -/
def slot? (m : Moment) : Option Nat :=
  m.site.instr.slot?

/-- The access shows its variable under the name, where `after` is the frame behind it: in the value
that a load pushes, or in the statement on the line of a store or an increment. -/
def Shows (m : Moment) (after : Frame) (name : String) : Prop :=
  match m.site.instr.operation with
  | .load .. | .loadReference _ =>
    ∃ type, after.stack = Value.ofVariable m.site.position name type :: m.frame.stack
  | .store .. => ∃ type text, assignedText type (m.site.assigned m.frame) = .ok text ∧
    after.lines[m.site.position]? = some (some (name ++ " = " ++ text ++ ";"))
  | .increment => after.lines[m.site.position]? =
    some (some (Action.incrementText name (m.site.instr.operand 1)))
  | _ => False

/-- The line that an effect writes at its own position. -/
theorem getElem?_lines_apply_write {site : Site} {frame : Frame}
    (h : site.position < frame.lines.length) (rest : List Value) (line : String) :
    (frame.apply rest (site.write line)).lines[site.position]? = some (some line) := by
  simp [Frame.apply, Site.write, h]

/-- **What an access shows** is the variable that its slot is bound to behind it. -/
theorem exists_shows {m : Moment} {slot : Nat} {locals : Locals} {after : Frame}
    (hslot : m.slot? = some slot) (hline : m.site.position < m.frame.lines.length)
    (hnext : m.next = (locals, .ok after)) :
    ∃ v, locals.get? slot = some v ∧ m.Shows after v.name := by
  rw [slot?, Instruction.slot?] at hslot
  rw [next] at hnext
  unfold Shows
  split at hslot
  · next type s hop =>
    obtain rfl := Option.some.inj hslot
    -- a load binds the slot if it is free, and shows the name it is bound to
    rw [Site.step_access (a := .load type _) (by rw [Action.resolve, hop])] at hnext
    obtain ⟨rfl, hafter⟩ := Prod.mk.inj hnext
    obtain rfl := Except.ok.inj hafter
    exact ⟨_, Locals.get?_getOrBind .., _, rfl⟩
  · next s hop =>
    obtain rfl := Option.some.inj hslot
    -- a load of a reference fails if the slot is free
    rw [Site.step_access (a := .loadReference _) (by rw [Action.resolve, hop])] at hnext
    obtain ⟨rfl, hafter⟩ := Prod.mk.inj hnext
    obtain ⟨effect, heffect, rfl⟩ := Result.map_eq_ok.mp hafter
    obtain ⟨v, hv, heffect⟩ := Result.bind_eq_ok.mp heffect
    obtain rfl := Result.pure_eq_ok.mp heffect
    exact ⟨v, Locals.require_eq_ok.mp hv, _, rfl⟩
  · next type s hop =>
    obtain rfl := Option.some.inj hslot
    -- a store shows the name in the line that it writes
    obtain ⟨rest, effect, heffect, rfl⟩ :=
      Site.step_assign_eq_ok (by rw [Action.resolve, hop]) hnext
    obtain ⟨rfl, hwrite⟩ := Prod.mk.inj heffect
    obtain ⟨text, htext, hwrite⟩ := Result.bind_eq_ok.mp hwrite
    obtain rfl := Result.pure_eq_ok.mp hwrite
    exact ⟨_, Locals.get?_getOrBind .., _, text, htext, getElem?_lines_apply_write hline _ _⟩
  · next hop =>
    obtain rfl := Option.some.inj hslot
    -- so does an increment
    rw [Site.step_access (a := .increment _ _) (by rw [Action.resolve, hop])] at hnext
    obtain ⟨rfl, hafter⟩ := Prod.mk.inj hnext
    obtain rfl := Except.ok.inj hafter
    exact ⟨_, Locals.get?_getOrBind .., getElem?_lines_apply_write hline _ _⟩
  · cases hslot

/-- The variables change only by the binding of the slot that is accessed. -/
theorem locals_next (m : Moment) :
    m.next.1 = m.locals ∨ ∃ slot type, m.slot? = some slot ∧
      m.next.1 = (m.locals.getOrBind slot type m.site.instr.accessOffset).2 :=
  m.site.locals_step m.locals m.frame

/-- A slot that is bound stays bound. -/
theorem get?_next_of_eq_some {m : Moment} {slot : Nat} {v : LocalVariable}
    (h : m.locals.get? slot = some v) : m.next.1.get? slot = some v := by
  rcases m.locals_next with heq | ⟨slot', type, -, heq⟩
  · rwa [heq]
  · rw [heq]
    exact Locals.get?_getOrBind_of_eq_some h ..

/-- A slot that is not accessed is not bound. -/
theorem get?_next_of_slot?_ne {m : Moment} {slot : Nat} (hslot : m.slot? ≠ some slot) :
    m.next.1.get? slot = m.locals.get? slot := by
  rcases m.locals_next with heq | ⟨slot', type, hslot', heq⟩
  · rw [heq]
  · rw [heq]
    refine Locals.get?_getOrBind_of_ne (fun hsame => hslot ?_) ..
    rw [hsame]
    exact hslot'

theorem table_next (m : Moment) : m.next.1.table = m.locals.table := by
  rcases m.locals_next with heq | ⟨slot, type, -, heq⟩
  · rw [heq]
  · rw [heq, Locals.table_getOrBind]

/-- A slot that gets bound is named for the access that binds it. -/
theorem name_of_get?_eq_none {m : Moment} {slot : Nat} {v : LocalVariable}
    (hnone : m.locals.get? slot = none) (hv : m.next.1.get? slot = some v) :
    v.name = Locals.newName m.locals.table slot m.site.instr.accessOffset := by
  rcases m.locals_next with heq | ⟨slot', type, -, heq⟩
  · rw [heq, hnone] at hv
    cases hv
  · rw [heq] at hv
    by_cases hsame : slot = slot'
    · subst hsame
      rw [Locals.getOrBind_of_get?_eq_none hnone, Locals.get?_bind_self] at hv
      rw [← Option.some.inj hv]
    · rw [Locals.get?_getOrBind_of_ne hsame, hnone] at hv
      cases hv

/-! ### Moments in sequence -/

/-- Moments that follow each other: each one finds the variables that the one before it has left. -/
inductive Trail : Locals → List Moment → Locals → Prop
  | nil (locals : Locals) : Trail locals [] locals
  | cons (m : Moment) {ms : List Moment} {after : Locals} :
    Trail m.next.1 ms after → Trail m.locals (m :: ms) after

variable {locals after : Locals} {ms : List Moment} {slot : Nat}

theorem Trail.append {mid : Locals} {ms' : List Moment} (h : Trail locals ms mid)
    (h' : Trail mid ms' after) : Trail locals (ms ++ ms') after := by
  induction h with
  | nil => exact h'
  | cons m _ ih => exact .cons m (ih h')

/-- **A binding is never changed.** -/
theorem Trail.get?_eq_some (h : Trail locals ms after) {v : LocalVariable}
    (hv : locals.get? slot = some v) : ∀ m ∈ ms, m.locals.get? slot = some v := by
  induction h with
  | nil => simp
  | cons m _ ih => exact List.forall_mem_cons.mpr ⟨hv, ih (get?_next_of_eq_some hv)⟩

/-- The moments are those of some instructions, one for each of them, and all can be evaluated. -/
structure Covers (ms : List Moment) (code : List Instruction) : Prop where
  map_instr : ms.map (·.site.instr) = code
  isOk : ∀ m ∈ ms, ∃ after, m.next.2 = .ok after

theorem Covers.nil : Covers [] [] :=
  ⟨rfl, by simp⟩

theorem Covers.append {ms' : List Moment} {code code' : List Instruction} (h : Covers ms code)
    (h' : Covers ms' code') : Covers (ms ++ ms') (code ++ code') where
  map_instr := by rw [List.map_append, h.map_instr, h'.map_instr]
  isOk := List.forall_mem_append.mpr ⟨h.isOk, h'.isOk⟩

/-- The offset at which a slot is first accessed; it has no meaning where no moment accesses the
slot. -/
def firstAccess (ms : List Moment) (slot : Nat) : Nat :=
  ((ms.find? (·.slot? == some slot)).map (·.site.instr.accessOffset)).getD 0

/-- **A slot that is not bound is named for its first access**, and keeps that name. -/
theorem Trail.name_of_access (h : Trail locals ms after) (hnone : locals.get? slot = none)
    (hbinds : ∀ m ∈ ms, m.slot? = some slot → ∃ v, m.next.1.get? slot = some v) :
    ∀ m ∈ ms, m.slot? = some slot → ∀ v, m.next.1.get? slot = some v →
      v.name = Locals.newName locals.table slot (firstAccess ms slot) := by
  induction h with
  | nil => simp
  | @cons m ms after htrail ih =>
    obtain ⟨hfirst, hrest⟩ := List.forall_mem_cons.mp hbinds
    by_cases hslot : m.slot? = some slot
    · -- the first access binds the slot, and the later ones find it bound
      obtain ⟨v, hv⟩ := hfirst hslot
      have hname := name_of_get?_eq_none hnone hv
      have haccess : firstAccess (m :: ms) slot = m.site.instr.accessOffset := by
        simp [firstAccess, hslot]
      rw [haccess, ← hname]
      refine List.forall_mem_cons.mpr ⟨fun _ w hw => ?_, fun m' hm' _ w hw => ?_⟩
      · rw [Option.some.inj (hw.symm.trans hv)]
      · have hkept := get?_next_of_eq_some (htrail.get?_eq_some hv m' hm')
        rw [Option.some.inj (hw.symm.trans hkept)]
    · have haccess : firstAccess (m :: ms) slot = firstAccess ms slot := by
        simp [firstAccess, hslot]
      rw [haccess, ← m.table_next]
      refine List.forall_mem_cons.mpr ⟨fun h => absurd h hslot, ?_⟩
      exact ih ((get?_next_of_slot?_ne hslot).trans hnone) hrest

end Moment

/-! ### The moments of a method -/

namespace Context

/-- The moments at which the instructions of a block are evaluated from a position on. The last one
may be that of an instruction that cannot be evaluated. -/
def momentsFrom (ctx : Context) (body : List Instruction) :
    (position : Nat) → List Instruction → Locals → Frame → List Moment
  | _, [], _, _ => []
  | position, instr :: rest, locals, frame =>
    let m : Moment := ⟨{ context := ctx, body, position, instr }, locals, frame⟩
    m :: match m.next with
      | (_, .error _) => []
      | (locals, .ok frame) => momentsFrom ctx body (position + 1) rest locals frame

/-- The moments of the evaluation of a block. -/
def momentsOf (ctx : Context) (block : Block) (state : MethodState) : List Moment :=
  let body := block.body ctx.graph.code
  ctx.momentsFrom body 0 body state.locals (entryFrame block body.length state.objects)

/-- The moments of the evaluation of some blocks, each from the state that the one before it has
left, whether that could be evaluated or not. -/
def moments (ctx : Context) : List Block → MethodState → List Moment
  | [], _ => []
  | block :: rest, state =>
    ctx.momentsOf block state ++ moments ctx rest (ctx.evaluate block state).1

variable {ctx : Context} {body rest : List Instruction} {position : Nat} {locals : Locals}
  {frame : Frame} {block : Block} {blocks : List Block} {state : MethodState}

/-- The instructions of a block follow each other. -/
theorem trail_momentsFrom (ctx : Context) (body : List Instruction) (position : Nat)
    (rest : List Instruction) (locals : Locals) (frame : Frame) :
    Moment.Trail locals (ctx.momentsFrom body position rest locals frame)
      (ctx.runFrom body position rest locals frame).1 := by
  induction rest generalizing position locals frame with
  | nil => exact .nil locals
  | cons instr rest ih =>
    rw [momentsFrom, runFrom]
    refine .cons ⟨{ context := ctx, body, position, instr }, locals, frame⟩ ?_
    rw [Moment.next]
    rcases Site.step { context := ctx, body, position, instr } locals frame with ⟨locals', _ | _⟩
    · exact .nil locals'
    · exact ih ..

/-- A block leaves its variables to the next one even if it fails. -/
theorem trail_momentsOf (ctx : Context) (block : Block) (state : MethodState) :
    Moment.Trail state.locals (ctx.momentsOf block state) (ctx.evaluate block state).1.locals := by
  have htrail := ctx.trail_momentsFrom (block.body ctx.graph.code) 0 (block.body ctx.graph.code)
    state.locals (entryFrame block (block.body ctx.graph.code).length state.objects)
  rw [momentsOf, evaluate]
  generalize ctx.runFrom (block.body ctx.graph.code) 0 (block.body ctx.graph.code) state.locals
    (entryFrame block (block.body ctx.graph.code).length state.objects) = run at htrail ⊢
  rcases run with ⟨locals, _ | _⟩ <;> exact htrail

/-- **The moments of a method** follow each other, across the ends of blocks. -/
theorem exists_trail_moments (ctx : Context) (blocks : List Block) (state : MethodState) :
    ∃ after, Moment.Trail state.locals (ctx.moments blocks state) after := by
  induction blocks generalizing state with
  | nil => exact ⟨state.locals, .nil _⟩
  | cons block blocks ih =>
    obtain ⟨after, hafter⟩ := ih (ctx.evaluate block state).1
    exact ⟨after, (ctx.trail_momentsOf block state).append hafter⟩

/-- At each moment there is a line for the instruction. -/
theorem position_lt_of_mem_momentsFrom (hlines : position + rest.length ≤ frame.lines.length) :
    ∀ m ∈ ctx.momentsFrom body position rest locals frame,
      m.site.position < m.frame.lines.length := by
  induction rest generalizing position locals frame with
  | nil => simp [momentsFrom]
  | cons instr rest ih =>
    rw [List.length_cons] at hlines
    rw [momentsFrom]
    refine List.forall_mem_cons.mpr ⟨show position < frame.lines.length by omega, ?_⟩
    rw [Moment.next]
    rcases hstep : Site.step { context := ctx, body, position, instr } locals frame with
      ⟨locals', _ | frame'⟩
    · simp
    · obtain ⟨_, _, taken, effect, -, -, -, rfl⟩ := Site.step_eq_ok hstep
      exact ih (by rw [frame.length_lines_apply]; omega)

theorem position_lt_of_mem_moments :
    ∀ m ∈ ctx.moments blocks state, m.site.position < m.frame.lines.length := by
  induction blocks generalizing state with
  | nil => simp [moments]
  | cons block blocks ih =>
    refine List.forall_mem_append.mpr ⟨position_lt_of_mem_momentsFrom ?_, ih⟩
    simp [entryFrame]

/-- A run that succeeds has a moment for each instruction. -/
theorem covers_momentsFrom {locals' : Locals} {frame' : Frame}
    (h : ctx.runFrom body position rest locals frame = (locals', .ok frame')) :
    Moment.Covers (ctx.momentsFrom body position rest locals frame) rest := by
  induction rest generalizing position locals frame with
  | nil => exact .nil
  | cons instr rest ih =>
    obtain ⟨locals₁, frame₁, hstep, hrun⟩ := runFrom_cons_eq_ok h
    rw [momentsFrom, Moment.next, hstep]
    exact ⟨congrArg _ (ih hrun).map_instr,
      List.forall_mem_cons.mpr ⟨⟨frame₁, congrArg Prod.snd hstep⟩, (ih hrun).isOk⟩⟩

/-- A block that can be evaluated has a moment for each of its instructions. -/
theorem covers_momentsOf {state' : MethodState} {lines : List (Option String)}
    (h : ctx.evaluate block state = (state', .ok lines)) :
    Moment.Covers (ctx.momentsOf block state) (block.body ctx.graph.code) := by
  rw [evaluate] at h
  split at h
  · cases (Prod.mk.inj h).2
  · next hrun => exact covers_momentsFrom hrun

/-- **If the kept blocks of a method can be evaluated**, there is a moment for each of their
instructions. -/
theorem covers_moments {pairs : List (Block × Bool)} {lines : List (List (Option String))}
    (h : ctx.evaluateAll pairs state = .ok lines) :
    Moment.Covers (ctx.moments ((pairs.filter Prod.snd).map Prod.fst) state)
      (((pairs.filter Prod.snd).map Prod.fst).flatMap (·.body ctx.graph.code)) := by
  fun_induction evaluateAll ctx pairs state generalizing lines with
  | case1 => exact .nil
  | case2 block rest state ih =>
    obtain ⟨others, hothers, -⟩ := Result.bind_eq_ok.mp h
    exact ih hothers
  | case3 block rest state state' e he => cases h
  | case4 block rest state state' ls hls ih =>
    obtain ⟨others, hothers, -⟩ := Result.bind_eq_ok.mp h
    refine (covers_momentsOf hls).append ?_
    rw [hls]
    exact ih hothers

/-! ### Names along an evaluation -/

section Names

variable {m : Moment} {slot : Nat} {v : LocalVariable} {after : Frame}

/-- An access binds its slot, and shows the variable that it is bound to. -/
theorem exists_shows_of_mem_moments (hm : m ∈ ctx.moments blocks state)
    (hslot : m.slot? = some slot) (hafter : m.next.2 = .ok after) :
    ∃ v, m.next.1.get? slot = some v ∧ m.Shows after v.name :=
  Moment.exists_shows hslot (position_lt_of_mem_moments m hm) (Prod.ext rfl hafter)

/-- **A slot that is bound at the start** is bound to the same variable at each moment. -/
theorem get?_of_mem_moments (hv : state.locals.get? slot = some v)
    (hm : m ∈ ctx.moments blocks state) : m.locals.get? slot = some v := by
  obtain ⟨last, htrail⟩ := ctx.exists_trail_moments blocks state
  exact htrail.get?_eq_some hv m hm

/-- **Every access to a slot that is bound at the start** shows the same name. -/
theorem shows_of_mem_moments (hv : state.locals.get? slot = some v)
    (hm : m ∈ ctx.moments blocks state) (hslot : m.slot? = some slot)
    (hafter : m.next.2 = .ok after) : m.Shows after v.name := by
  obtain ⟨w, hw, hshows⟩ := exists_shows_of_mem_moments hm hslot hafter
  have hkept := Moment.get?_next_of_eq_some (get?_of_mem_moments hv hm)
  rwa [Option.some.inj (hw.symm.trans hkept)] at hshows

/-- **Every access to a slot that is not bound at the start** shows the name that goes with the
first access to the slot. -/
theorem shows_newName_of_mem_moments (hnone : state.locals.get? slot = none)
    (hok : ∀ m ∈ ctx.moments blocks state, ∃ after, m.next.2 = .ok after)
    (hm : m ∈ ctx.moments blocks state) (hslot : m.slot? = some slot)
    (hafter : m.next.2 = .ok after) :
    m.Shows after (Locals.newName state.locals.table slot
      (Moment.firstAccess (ctx.moments blocks state) slot)) := by
  obtain ⟨last, htrail⟩ := ctx.exists_trail_moments blocks state
  have hbinds : ∀ m ∈ ctx.moments blocks state, m.slot? = some slot →
      ∃ v, m.next.1.get? slot = some v := by
    intro m hm hslot
    obtain ⟨after, hafter⟩ := hok m hm
    obtain ⟨v, hv, -⟩ := exists_shows_of_mem_moments hm hslot hafter
    exact ⟨v, hv⟩
  obtain ⟨v, hv, hshows⟩ := exists_shows_of_mem_moments hm hslot hafter
  rwa [htrail.name_of_access hnone hbinds m hm hslot v hv] at hshows

end Names

end Context

end JvmSource
