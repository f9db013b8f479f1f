import JvmSource.Proofs.Eval.Attempt
import JvmSource.Proofs.Eval.Moment
import JvmSource.Proofs.Structure.Jump

/-!
# Names of new objects

A `new` declares a name for its object, and a `dup` declares one for the array that it finds freshly
made (`Moment.Declares`). The names are numbered, and the number goes from the method to the frame
of a block, from there through every attempt at an instruction, and back to the method.

One attempt declares the name of the next number and uses it up, or it declares nothing and leaves
the number alone (`Moment.declares_of_next`); one that fails is repeated in the frame from before.
So the attempts at a block take up consecutive numbers (`Context.Makes.numbers`), and so do the
blocks of a method (`Context.Evaluates.exists_numbers`). Together: `object_names_fresh`.

Attempts are counted with those that fail. They are what the loop over a block really goes through,
so they are described by relations along its turns (`Context.Makes`, `Context.Evaluates`), and not
by the run of the instructions, in which an attempt that fails and the one that repeats it are a
single step. That a name is declared is read off the frames before and behind the moment: the line
of the declaration, and the value that is pushed.
-/

namespace JvmSource

/-- The name of the object with a number. -/
def Name.object (number : Nat) : String :=
  "obj" ++ Text.decimal number

/-- Different numbers have different names. -/
theorem Name.object_injective : Function.Injective Name.object := fun _ _ h =>
  Text.decimal_injective ((String.append_right_inj "obj").mp h)

/-! ### The two instructions that name objects -/

theorem Action.operation_of_resolve_newObject {pool : Pool} {instr : Instruction} {type : String}
    (h : resolve pool instr = .ok (nullary (.newObject type))) : instr.operation = .newObject := by
  have hgives : Result.GivesOnly
      (fun action => action = nullary (.newObject type) → instr.operation = .newObject)
      (resolve pool instr) := by
    rw [resolve]
    split <;> simp [*]
  exact hgives _ h rfl

namespace Site

variable {site : Site} {locals locals' : Locals} {frame frame' : Frame}

/-- What a `new` does: it writes the declaration and pushes the object under the next name. -/
theorem step_newObject (hop : site.instr.operation = .newObject)
    (h : site.step locals frame = (locals', .ok frame')) :
    ∃ type, frame' = frame.apply frame.stack
      { site.write (type ++ " " ++ Name.object frame.objects ++ " = new " ++ type) with
        results := [Value.ofVariable site.position (Name.object frame.objects) type]
        objects := 1 } := by
  obtain ⟨action, operands, rest, effect, hresolve, hoperands, hperform, rfl⟩ := step_eq_ok h
  simp only [Action.resolve, hop] at hresolve
  obtain ⟨c, -, hresolve⟩ := Result.bind_eq_ok.mp hresolve
  obtain rfl := Result.pure_eq_ok.mp hresolve
  have hnone : site.operands (.nullary (.newObject c.typeName)) frame.stack =
      .ok ([], frame.stack) := by
    rw [Site.operands]
    split <;> rfl
  obtain ⟨rfl, rfl⟩ := Prod.mk.inj (Except.ok.inj (hnone.symm.trans hoperands))
  obtain rfl := Except.ok.inj (congrArg Prod.snd hperform)
  exact ⟨c.typeName, rfl⟩

/-- What a `dup` does with the top of the stack, which is a placeholder if there is none. -/
theorem step_dup (hop : site.instr.operation = .dup)
    (h : site.step locals frame = (locals', .ok frame')) :
    ∃ top rest, (frame.stack = top :: rest ∨ top = placeholder site.position) ∧
      frame' = frame.apply rest (Action.dupEffect site frame top) := by
  obtain ⟨action, operands, rest, effect, hresolve, hoperands, hperform, rfl⟩ := step_eq_ok h
  simp only [Action.resolve, hop] at hresolve
  obtain rfl := Except.ok.inj hresolve
  obtain ⟨missing, happend, hlength, -⟩ := operands_eq_ok hoperands
  obtain ⟨top, rfl⟩ := List.length_eq_one_iff.mp hlength
  obtain rfl := Except.ok.inj (congrArg Prod.snd hperform)
  refine ⟨top, rest, ?_, rfl⟩
  cases missing with
  | zero => exact .inl happend
  | succ missing => exact .inr (List.cons.inj happend).1.symm

end Site

/-- The effect of a `dup` is to name a new array, whose line is empty, or to copy the top. -/
theorem Action.dupEffect_eq (site : Site) (frame : Frame) (top : Value) :
    (top.isArray = true ∧ (site.operationAt? top.origin).any (·.makesArray) = true ∧
      frame.lines[top.origin]? = some none ∧
      dupEffect site frame top =
        { results := List.replicate 2
            (Value.ofVariable top.origin (Name.object frame.objects) top.type)
          writes := [(top.origin,
            some (top.type ++ " " ++ Name.object frame.objects ++ " = " ++ top.text ++ ";"))]
          objects := 1 }) ∨
      dupEffect site frame top = { results := [top, top] } := by
  rw [dupEffect]
  dsimp only
  split
  · next hnamed =>
    simp only [Bool.and_eq_true, beq_iff_eq] at hnamed
    exact .inl ⟨hnamed.1.1, hnamed.1.2, hnamed.2, rfl⟩
  · exact .inr rfl

/-- A placeholder is not an array, so a `dup` of one declares nothing. -/
theorem isArray_placeholder (position : Nat) : (placeholder position).isArray = false := by
  have helement : Name.element? "Object" = none := by decide +kernel
  exact congrArg Option.isSome helement

/-! ### The names that are declared at a moment -/

namespace Moment

/-- **A name is declared** at a moment, by one of two instructions. -/
inductive Declares (m : Moment) (name : String) : Prop where
  /-- By a `new`, which writes the declaration on its line and pushes the object by its name. -/
  | object {locals : Locals} {after : Frame} {type : String} (hnext : m.next = (locals, .ok after))
    (hop : m.site.instr.operation = .newObject)
    (hstack : after.stack = Value.ofVariable m.site.position name type :: m.frame.stack)
    (hline : after.lines[m.site.position]? =
      some (some (type ++ " " ++ name ++ " = new " ++ type)))
  /-- By a `dup`, which writes the declaration on the line of the allocation and replaces the array
  by its name. -/
  | array {locals : Locals} {after : Frame} {top : Value} {rest : List Value}
    (hnext : m.next = (locals, .ok after)) (hop : m.site.instr.operation = .dup)
    (hbefore : m.frame.stack = top :: rest)
    (hmade : (m.site.operationAt? top.origin).any (·.makesArray) = true)
    (hempty : m.frame.lines[top.origin]? = some none)
    (hstack : after.stack =
      List.replicate 2 (Value.ofVariable top.origin name top.type) ++ rest)
    (hline : after.lines[top.origin]? =
      some (some (top.type ++ " " ++ name ++ " = " ++ top.text ++ ";")))

/-- The name that is declared at a moment, read off what has become of the frame. -/
def declared? (m : Moment) : Option String :=
  match m.next.2, m.site.instr.operation with
  | .ok after, .newObject => after.stack.head?.map Value.text
  | .ok after, .dup =>
    if after.lines = m.frame.lines then none else after.stack.head?.map Value.text
  | _, _ => none

variable {m : Moment} {locals : Locals} {after : Frame} {name : String}

/-- Nothing is declared where the instruction fails. -/
theorem declared?_of_error {e : Error} (h : m.next = (locals, .error e)) : m.declared? = none := by
  rw [declared?, h]

/-- What is declared is read off the frame. -/
theorem declared?_of_declares (h : m.Declares name) : m.declared? = some name := by
  obtain ⟨hnext, hop, hstack, -⟩ | ⟨hnext, hop, -, -, hempty, hstack, hline⟩ := h
  · rw [declared?, hnext, hop]
    dsimp only
    rw [hstack]
    rfl
  · rw [declared?, hnext, hop]
    dsimp only
    rw [if_neg, hstack]
    · rfl
    · -- the line of the allocation was empty
      intro hsame
      rw [hsame, hempty] at hline
      cases hline

/-- **A step declares the next name** and uses it up, or it declares none and uses up none. -/
theorem declares_of_next (hline : m.site.position < m.frame.lines.length)
    (h : m.next = (locals, .ok after)) :
    (m.Declares (Name.object m.frame.objects) ∧ after.objects = m.frame.objects + 1) ∨
      (m.declared? = none ∧ after.objects = m.frame.objects) := by
  by_cases hnew : m.site.instr.operation = .newObject
  · obtain ⟨type, rfl⟩ := Site.step_newObject hnew h
    exact .inl ⟨.object h hnew rfl (List.getElem?_set_self hline), rfl⟩
  by_cases hdup : m.site.instr.operation = .dup
  · obtain ⟨top, rest, hbefore, rfl⟩ := Site.step_dup hdup h
    obtain ⟨harray, hmade, hempty, heffect⟩ | heffect := Action.dupEffect_eq m.site m.frame top
    · -- the array is no placeholder, so it was on the stack
      have htop : top ≠ placeholder m.site.position := by
        rintro rfl
        cases (isArray_placeholder _).symm.trans harray
      rw [heffect] at h ⊢
      exact .inl ⟨.array h hdup (hbefore.resolve_right htop) hmade hempty rfl
        (List.getElem?_set_self (List.getElem?_eq_some_iff.mp hempty).1), rfl⟩
    · rw [heffect] at h ⊢
      refine .inr ⟨?_, rfl⟩
      rw [declared?, h, hdup]
      exact if_pos rfl
  · -- among all that an action can do, only these two use up a number
    refine .inr ⟨?_, ?_⟩
    · rw [declared?, h]
      split <;> simp_all
    · obtain ⟨action, operands, rest, effect, hresolve, -, hperform, rfl⟩ := Site.step_eq_ok h
      cases action.does_perform effect (congrArg Prod.snd hperform) with
      | name => exact absurd (Action.operation_of_resolve_dup hresolve) hdup
      | declare => exact absurd (Action.operation_of_resolve_newObject hresolve) hnew
      | _ => rfl

/-- **What is read off the frame** is what is declared. -/
theorem declared?_eq_some_iff (hline : m.site.position < m.frame.lines.length) :
    m.declared? = some name ↔ m.Declares name := by
  refine ⟨fun hname => ?_, declared?_of_declares⟩
  rcases hnext : m.next with ⟨locals, e | after⟩
  · cases (declared?_of_error hnext).symm.trans hname
  · obtain ⟨hdeclares, -⟩ | ⟨hnone, -⟩ := declares_of_next hline hnext
    · obtain rfl := Option.some.inj ((declared?_of_declares hdeclares).symm.trans hname)
      exact hdeclares
    · cases hnone.symm.trans hname

/-! ### Numbers of names -/

/-- The names that are declared at some moments take up the numbers from `start` to below `stop`, in
order. -/
def Numbers (start : Nat) (ms : List Moment) (stop : Nat) : Prop :=
  ∃ count, stop = start + count ∧
    ms.filterMap declared? = (List.range' start count).map Name.object

theorem Numbers.nil (start : Nat) : Numbers start [] start :=
  ⟨0, rfl, rfl⟩

theorem Numbers.append {start mid stop : Nat} {ms ms' : List Moment} (h : Numbers start ms mid)
    (h' : Numbers mid ms' stop) : Numbers start (ms ++ ms') stop := by
  obtain ⟨count, rfl, hnames⟩ := h
  obtain ⟨count', rfl, hnames'⟩ := h'
  refine ⟨count + count', Nat.add_assoc .., ?_⟩
  rw [List.filterMap_append, hnames, hnames', ← List.map_append, List.range'_append_1]

/-- A moment at which the instruction succeeds. -/
theorem numbers_of_next (hline : m.site.position < m.frame.lines.length)
    (h : m.next = (locals, .ok after)) : Numbers m.frame.objects [m] after.objects := by
  obtain ⟨hdeclares, hobjects⟩ | ⟨hnone, hobjects⟩ := declares_of_next hline h
  · exact ⟨1, hobjects, by simp [declared?_of_declares hdeclares]⟩
  · exact ⟨0, hobjects, by simp [hnone]⟩

/-- A moment at which it fails. -/
theorem numbers_of_error {e : Error} (h : m.next = (locals, .error e)) (start : Nat) :
    Numbers start [m] start :=
  ⟨0, rfl, by simp [declared?_of_error h]⟩

end Moment

/-! ### The attempts of a method -/

namespace Context

/-- The moment of an attempt, if there is an instruction to be attempted. Behind the last one there
is none. -/
def momentAt? (ctx : Context) (body : List Instruction) (a : Attempt) : Option Moment :=
  body[a.position]?.map fun instr =>
    ⟨ctx.attemptSite body a.position instr, a.locals, a.frame⟩

/-- The loop over a block makes attempts at some moments, one after the other, and ends with
`outcome`. -/
inductive Makes (ctx : Context) (body : List Instruction) :
    Attempt → List Moment → Locals × Result Frame → Prop where
  | last {a : Attempt} {outcome : Locals × Result Frame} (h : ctx.turn body a = .inr outcome) :
    Makes ctx body a (ctx.momentAt? body a).toList outcome
  | turn {a b : Attempt} {ms : List Moment} {outcome : Locals × Result Frame}
    (h : ctx.turn body a = .inl b) (hrest : Makes ctx body b ms outcome) :
    Makes ctx body a ((ctx.momentAt? body a).toList ++ ms) outcome

/-- The kept ones of some blocks are evaluated to their lines one after the other, with attempts at
some moments. -/
inductive Evaluates (ctx : Context) :
    List (Block × Bool) → MethodState → List Moment → List (List (Option String)) → Prop where
  | nil (state : MethodState) : Evaluates ctx [] state [] []
  | skip (block : Block) {rest : List (Block × Bool)} {state : MethodState} {ms : List Moment}
    {lines : List (List (Option String))} (hrest : Evaluates ctx rest state ms lines) :
    Evaluates ctx ((block, false) :: rest) state ms ([] :: lines)
  | keep {block : Block} {rest : List (Block × Bool)} {state after : MethodState}
    {ms ms' : List Moment} {outcome : Locals × Result Frame} {ls : List (Option String)}
    {lines : List (List (Option String))}
    (hmakes : ctx.Makes (block.body ctx.graph.code) (ctx.firstAttempt block state) ms outcome)
    (hsettle : ctx.settle block state outcome = (after, .ok ls))
    (hrest : Evaluates ctx rest after ms' lines) :
    Evaluates ctx ((block, true) :: rest) state (ms ++ ms') (ls :: lines)

variable {ctx : Context} {body : List Instruction} {a : Attempt} {ms : List Moment}
  {outcome : Locals × Result Frame} {pairs : List (Block × Bool)} {state : MethodState}
  {lines : List (List (Option String))}

/-- The moment at which an instruction is attempted. -/
theorem momentAt?_of_getElem? {instr : Instruction} (h : body[a.position]? = some instr) :
    (ctx.momentAt? body a).toList =
      [⟨ctx.attemptSite body a.position instr, a.locals, a.frame⟩] := by
  rw [momentAt?, h]
  rfl

/-- A loop that comes to an end makes some attempts on its way. -/
theorem exists_makes_of_ends {tried : List Nat} (h : ctx.Ends body a tried outcome) :
    ∃ ms, ctx.Makes body a ms outcome := by
  induction h with
  | last h => exact ⟨_, .last h⟩
  | turn h _ ih =>
    obtain ⟨ms, hmakes⟩ := ih
    exact ⟨_, .turn h hmakes⟩

/-- Blocks whose evaluation succeeds are evaluated with some attempts. -/
theorem exists_evaluates (h : ctx.evaluateAll pairs state = .ok lines) :
    ∃ ms, ctx.Evaluates pairs state ms lines := by
  fun_induction evaluateAll ctx pairs state generalizing lines with
  | case1 =>
    obtain rfl := Except.ok.inj h
    exact ⟨[], .nil _⟩
  | case2 block rest state ih =>
    obtain ⟨others, hothers, rfl⟩ := Result.map_eq_ok.mp h
    obtain ⟨ms, hms⟩ := ih hothers
    exact ⟨ms, .skip block hms⟩
  | case3 block rest state state' e he => cases h
  | case4 block rest state state' ls hls ih =>
    obtain ⟨others, hothers, rfl⟩ := Result.map_eq_ok.mp h
    obtain ⟨tried, outcome, hends, hsettle⟩ := ctx.exists_ends_evaluate block state
    obtain ⟨ms, hmakes⟩ := exists_makes_of_ends hends
    obtain ⟨ms', hrest⟩ := ih hothers
    exact ⟨ms ++ ms', .keep hmakes (hsettle.symm.trans hls) hrest⟩

/-- At each moment of a block there is a line for the instruction. -/
theorem Makes.position_lt (h : ctx.Makes body a ms outcome)
    (hlines : a.frame.lines.length = body.length) :
    ∀ m ∈ ms, m.site.position < m.frame.lines.length := by
  have hattempt {a : Attempt} (hlines : a.frame.lines.length = body.length) :
      ∀ m ∈ (ctx.momentAt? body a).toList, m.site.position < m.frame.lines.length := by
    intro m hm
    obtain ⟨instr, hinstr, rfl⟩ := Option.map_eq_some_iff.mp (Option.mem_toList.mp hm)
    exact hlines ▸ (List.getElem?_eq_some_iff.mp hinstr).1
  induction h with
  | last h => exact hattempt hlines
  | turn h _ ih =>
    have hnext := (length_lines_turn h).trans hlines
    exact List.forall_mem_append.mpr ⟨hattempt hlines, ih hnext⟩

/-- At each moment of a method there is a line for the instruction. -/
theorem Evaluates.position_lt (h : ctx.Evaluates pairs state ms lines) :
    ∀ m ∈ ms, m.site.position < m.frame.lines.length := by
  induction h with
  | nil => simp
  | skip block _ ih => exact ih
  | keep hmakes _ _ ih =>
    exact List.forall_mem_append.mpr ⟨hmakes.position_lt List.length_replicate, ih⟩

/-- **The attempts at a block** take up consecutive numbers. The induction is on the turns of the
loop. -/
theorem Makes.numbers {locals : Locals} {frame : Frame}
    (h : ctx.Makes body a ms (locals, .ok frame))
    (hlines : a.frame.lines.length = body.length) :
    Moment.Numbers a.frame.objects ms frame.objects := by
  generalize houtcome : (locals, Except.ok frame) = outcome at h
  induction h with
  | last h =>
    obtain ⟨hnone, rfl⟩ | ⟨instr, locals', e, -, -, rfl⟩ := turn_eq_inr h
    · obtain rfl := Except.ok.inj (congrArg Prod.snd houtcome)
      rw [momentAt?, hnone]
      exact .nil _
    · cases houtcome
  | @turn a b ms outcome h _ ih =>
    have hrest := ih ((length_lines_turn h).trans hlines) houtcome
    obtain ⟨instr, locals', hinstr, ⟨frame', hstep, rfl⟩ | ⟨offset, hstep, rfl⟩⟩ := turn_eq_inl h
    · have hposition : a.position < a.frame.lines.length :=
        hlines ▸ (List.getElem?_eq_some_iff.mp hinstr).1
      rw [momentAt?_of_getElem? hinstr]
      exact (Moment.numbers_of_next (m := ⟨_, _, _⟩) hposition hstep).append hrest
    · -- the next attempt finds the frame from before, but for its stack
      rw [momentAt?_of_getElem? hinstr]
      exact (Moment.numbers_of_error (m := ⟨_, _, _⟩) hstep _).append hrest

/-- **The blocks of a method** take up consecutive numbers, the first one from where the method
stands. -/
theorem Evaluates.exists_numbers (h : ctx.Evaluates pairs state ms lines) :
    ∃ stop, Moment.Numbers state.objects ms stop := by
  induction h with
  | nil state => exact ⟨_, .nil _⟩
  | skip block _ ih => exact ih
  | @keep block rest state after ms ms' outcome ls lines hmakes hsettle _ ih =>
    obtain ⟨stop, hnumbers⟩ := ih
    rcases outcome with ⟨locals, e | frame⟩
    · cases hsettle
    · obtain rfl := congrArg Prod.fst hsettle
      exact ⟨stop, (hmakes.numbers List.length_replicate).append hnumbers⟩

end Context

/-- The kept blocks of a method are evaluated to their lines, with attempts at some moments. -/
def Signature.EvaluatesWith (sig : Signature) (c : Code) (pool : Pool) (options : Options)
    (o : Outline) (ms : List Moment) (lines : List (List (Option String))) : Prop :=
  ∃ table locals, c.tableFor pool options = .ok table ∧ sig.locals table pool = .ok locals ∧
    Context.Evaluates
      { owner := Name.dotted sig.owner, pool, graph := o.graph
        recover := options.recoverUnderflow }
      (o.blocks.zip (keptBlocks o.blocks)) { locals, objects := 0 } ms lines

/-- **Names of new objects are fresh.** If the kept blocks of a method can be evaluated, then that
is done in attempts at one moment after the other, and the names that are declared at these moments
are, in this order, `obj0`, `obj1`, `obj2` and so on, each of them once. -/
theorem object_names_fresh {sig : Signature} {c : Code} {pool : Pool} {options : Options}
    {lines : List (List (Option String))}
    (h : (c.outline pool >>= sig.blockLines c pool options) = .ok lines) :
    ∃ o, c.outline pool = .ok o ∧ (∃ ms, sig.EvaluatesWith c pool options o ms lines) ∧
      ∀ ms, sig.EvaluatesWith c pool options o ms lines →
        (∀ m ∈ ms, ∀ name, m.declared? = some name ↔ m.Declares name) ∧
        (ms.filterMap Moment.declared?).Nodup ∧
        ∃ count, ms.filterMap Moment.declared? = (List.range count).map Name.object := by
  obtain ⟨o, houtline, h⟩ := Result.bind_eq_ok.mp h
  obtain ⟨table, htable, h⟩ := Result.bind_eq_ok.mp h
  obtain ⟨locals, hlocals, hlines⟩ := Result.bind_eq_ok.mp h
  obtain ⟨ms, hms⟩ := Context.exists_evaluates hlines
  refine ⟨o, houtline, ⟨ms, table, locals, htable, hlocals, hms⟩, ?_⟩
  rintro ms ⟨table, locals, -, -, hms⟩
  obtain ⟨stop, count, -, hnames⟩ := hms.exists_numbers
  rw [← List.range_eq_range'] at hnames
  refine ⟨fun m hm name => Moment.declared?_eq_some_iff (hms.position_lt m hm), ?_, count, hnames⟩
  rw [hnames]
  exact List.nodup_range.map Name.object_injective

/-- Two blocks: the first one makes an object and an array that is named, with a retry in between,
and the second one makes another object. -/
theorem object_names_fresh_of_two_blocks :
    let c := Code.ofParts 2 0 [0xbb, 0, 1, 0x57, 0x57, 0x04, 0xbc, 10, 0x59, 0x57, 0x57, 0xa7, 0, 3,
      0xbb, 0, 1, 0x57, 0xb1] [] []
    let pool : Pool := ⟨#[.classRef 2, .utf8 "A"]⟩
    let sig : Signature := ⟨"B", ⟨8⟩, "m", "()V"⟩
    let options : Options := { recoverUnderflow := true }
    ∃ o ms count, c.outline pool = .ok o ∧ sig.EvaluatesWith c pool options o ms
        [[some "A obj0 = new A", some "obj0;", some "MISSING_STACK_OBJECT;", none,
            some "int[] obj1 = new int[1];", none, some "obj1;", some "obj1;", some "goto L2;"],
          [some "A obj2 = new A", some "obj2;", some "return;"]] ∧
      ms.filterMap Moment.declared? = (List.range count).map Name.object := by
  intro c pool sig options
  have h : (c.outline pool >>= sig.blockLines c pool options) =
      .ok [[some "A obj0 = new A", some "obj0;", some "MISSING_STACK_OBJECT;", none,
          some "int[] obj1 = new int[1];", none, some "obj1;", some "obj1;", some "goto L2;"],
        [some "A obj2 = new A", some "obj2;", some "return;"]] := by
    decide +kernel
  obtain ⟨o, houtline, ⟨ms, hms⟩, hnames⟩ := object_names_fresh h
  obtain ⟨-, -, count, hcount⟩ := hnames ms hms
  exact ⟨o, ms, count, houtline, hms, hcount⟩

end JvmSource
