import JvmSource.Proofs.Eval.Shuffle

/-!
# Construction of objects

A `new` declares an object on its own line, and the constructor call takes the declaration along and
completes it with the arguments. Between the two stands the code of the arguments, which may itself
construct objects and name arrays.

That code is blind to the declaration: an instruction neither reads nor sets a line from which none
of its operands comes (`Site.step_withLine`), and it does not look at the values below its operands
(`Site.step_framed`). Both are about one step, and together they say that a step above other values,
with a line out of its sight, does what it does on its own (`Site.step_nested`). The induction over
the code needs in addition that no value which the code pushes comes from that line
(`Context.runFrom_nested`).

So the call finds the declaration as `new` has left it, and the values of the arguments as the code
leaves them above an empty stack (`Construction.runFrom_code`):
`constructor_call_completes_declaration`. That the code of the arguments does not leave the method
is needed, because an exit would flush the object and whatever lies below.
-/

namespace JvmSource

/-! ### Lines out of sight -/

namespace Frame

/-- The frame with another text on a line. -/
def withLine (frame : Frame) (line : Nat) (text : Option String) : Frame :=
  { frame with lines := frame.lines.set line text }

/-- An effect leaves a line alone that it does not set. -/
theorem apply_withLine {effect : Effect} {line : Nat} (hflushes : effect.flushes = false)
    (hwrites : ∀ write ∈ effect.writes, write.1 ≠ line) (frame : Frame) (rest : List Value)
    (text : Option String) : (frame.withLine line text).apply rest effect =
      (frame.apply rest effect).withLine line text := by
  have hset : ∀ (writes : List (Nat × Option String)) (lines : List (Option String)),
      (∀ write ∈ writes, write.1 ≠ line) →
      writes.foldl (fun lines write => lines.set write.1 write.2) (lines.set line text) =
        (writes.foldl (fun lines write => lines.set write.1 write.2) lines).set line text := by
    intro writes lines hwrites
    induction writes generalizing lines with
    | nil => rfl
    | cons write writes ih =>
      obtain ⟨hwrite, hwrites⟩ := List.forall_mem_cons.mp hwrites
      rw [List.foldl_cons, List.foldl_cons, List.set_comm _ _ (Ne.symm hwrite), ih _ hwrites]
  simp only [apply, withLine, hflushes, Bool.false_eq_true, if_false, hset _ _ hwrites]

end Frame

namespace Action

variable {site : Site} {frame : Frame} {line : Nat} {text : Option String}

/-- A `dup` asks for the line of the value it duplicates only. -/
theorem dupEffect_withLine {top : Value} (h : top.origin ≠ line) :
    dupEffect site (frame.withLine line text) top = dupEffect site frame top := by
  have hline : (frame.withLine line text).lines[top.origin]? = frame.lines[top.origin]? :=
    List.getElem?_set_ne (Ne.symm h)
  rw [dupEffect, hline]
  rfl

/-- A constructor call asks for the line of its object only. -/
theorem constructorEffect_withLine {object : Value} (h : object.origin ≠ line) (method : MethodRef)
    (arguments : String) :
    constructorEffect site (frame.withLine line text) method object arguments =
      constructorEffect site frame method object arguments := by
  have hline : (frame.withLine line text).lines[object.origin]? = frame.lines[object.origin]? :=
    List.getElem?_set_ne (Ne.symm h)
  rw [constructorEffect, hline, constructorEffect]

theorem Variadic.effect_withLine {operands : List Value} (h : ∀ v ∈ operands, v.origin ≠ line)
    (a : Variadic) :
    a.effect site (frame.withLine line text) operands = a.effect site frame operands := by
  cases a with
  | callOn method =>
    rw [effect, effect]
    refine bind_congr fun arguments => ?_
    cases hobject : operands[method.type.arguments.length]? with
    | none => rfl
    | some object =>
      dsimp only
      rw [constructorEffect_withLine (h object (List.mem_of_getElem? hobject))]
  | _ => rfl

/-- **What an action does with its operands** depends on no line but theirs. -/
theorem perform_withLine {operands : List Value} (h : ∀ v ∈ operands, v.origin ≠ line)
    (action : Action) (locals : Locals) :
    action.perform site (frame.withLine line text) locals operands =
      action.perform site frame locals operands := by
  unfold perform
  split
  · rfl
  · rfl
  · next a => cases a <;> rfl
  · next a value =>
    cases a with
    | dup => rw [Unary.effect, dupEffect_withLine (h value (by simp)), Unary.effect]
    | _ => rfl
  · rfl
  · rfl
  · next a => rw [Variadic.effect_withLine h]
  · rfl

/-- The object of a constructor call is one of the operands. -/
theorem mem_of_constructed? {action : Action} {operands : List Value} {object : Value}
    (h : action.constructed? operands = some object) : object ∈ operands := by
  unfold constructed? at h
  split at h
  · split at h
    · exact List.mem_of_getElem? h
    · cases h
  · cases h

/-- The lines that an action sets are its own and those of its operands. -/
theorem Does.position_or_origin {operands : List Value} {action : Action} {effect : Effect}
    (h : action.Does site frame operands effect) {write : Nat × Option String}
    (hwrite : write ∈ effect.writes) :
    write.1 = site.position ∨ ∃ v ∈ operands, write.1 = v.origin := by
  cases h with
  | write text | exit hexit text hresults | declare type =>
    rw [List.mem_singleton.mp hwrite]
    exact .inl rfl
  | push form => cases hwrite
  | shuffle hresults => cases hwrite
  | @name top hoperands hmade hempty text objects results hresults =>
    rw [List.mem_singleton.mp hwrite]
    exact .inr ⟨top, by simp [hoperands], rfl⟩
  | @move action object text arguments hobject hline =>
    rcases List.mem_cons.mp hwrite with rfl | hwrite
    · exact .inr ⟨object, mem_of_constructed? hobject, rfl⟩
    · rw [List.mem_singleton.mp hwrite]
      exact .inl rfl

end Action

namespace Site

variable {site : Site} {locals locals' : Locals} {frame frame' : Frame} {line : Nat}

/-- **A line from which no value comes** is out of sight for a step. -/
theorem step_withLine (h : (site.recovering false).step locals frame = (locals', .ok frame'))
    (hexit : site.instr.operation.isExit = false) (hposition : site.position ≠ line)
    (hfree : ∀ v ∈ frame.stack, v.origin ≠ line) (text : Option String) :
    (site.recovering false).step locals (frame.withLine line text) =
      (locals', .ok (frame'.withLine line text)) := by
  obtain ⟨action, operands, rest, effect, hresolve, htaken, hperform, rfl⟩ := step_eq_ok h
  obtain ⟨hpad, hlength⟩ := operands_eq_pad hresolve htaken
  have hstack : frame.stack = operands ++ rest := (eq_append_of_takeOperands htaken).1
  have hoperands : ∀ v ∈ operands, v.origin ≠ line := fun v hv =>
    hfree v (hstack ▸ List.mem_append_left rest hv)
  have hflushes : effect.flushes = false :=
    (yields_of_perform hresolve hlength hperform).2.trans hexit
  have hwrites : ∀ write ∈ effect.writes, write.1 ≠ line := by
    intro write hwrite
    have hdoes := action.does_perform effect (congrArg Prod.snd hperform)
    rcases hdoes.position_or_origin hwrite with heq | ⟨v, hv, heq⟩
    · rw [heq]
      exact hposition
    · rw [heq]
      exact hoperands v hv
  rw [← Frame.apply_withLine hflushes hwrites]
  refine step_of_takeOperands hresolve htaken ?_
  rw [Action.perform_withLine hoperands]
  exact hperform

end Site

/-! ### Code above other values -/

/-- The frame above other values, with a text on one line. -/
def Frame.nested (frame : Frame) (below : List Value) (line : Nat) (text : Option String) : Frame :=
  (frame.withLine line text).withStack (frame.stack ++ below)

/-- **A step above other values**, with a line out of its sight, does what it does on its own. -/
theorem Site.step_nested (site : Site) {locals locals' : Locals} {frame frame' : Frame} {line : Nat}
    (h : (site.recovering false).step locals frame = (locals', .ok frame'))
    (hexit : site.instr.operation.isExit = false) (hposition : site.position ≠ line)
    (hfree : ∀ v ∈ frame.stack, v.origin ≠ line) (below : List Value) (text : Option String) :
    (site.recovering false).step locals (frame.nested below line text) =
      (locals', .ok (frame'.nested below line text)) := by
  obtain ⟨operands, rest, results, hstack, -, hstack', -, hframed⟩ :=
    step_framed (step_withLine h hexit hposition hfree text) hexit
  have hbefore : frame.stack ++ below = operands ++ (rest ++ below) := by
    rw [← List.append_assoc, ← hstack]
    rfl
  have hbehind : frame'.stack ++ below = results ++ (rest ++ below) := by
    rw [← List.append_assoc, ← hstack']
    rfl
  rw [Frame.nested, hbefore, hframed, Frame.nested, hbehind]

namespace Context

variable {ctx : Context} {body code : List Instruction} {position line : Nat}
  {locals locals' : Locals} {frame frame' : Frame}

/-- A run adds no lines. -/
theorem length_lines_of_runFrom
    (h : ctx.runFrom body position code locals frame = (locals', .ok frame')) :
    frame'.lines.length = frame.lines.length := by
  refine runFrom_induction
    (motive := fun _ _ frame' => frame'.lines.length = frame.lines.length) ?_ h rfl
  intro position instr locals frame₁ locals' frame₂ hlength hstep
  obtain ⟨-, -, rest, effect, -, -, -, rfl⟩ := Site.step_eq_ok hstep
  exact (frame₁.length_lines_apply rest effect).trans hlength

/-- What is evaluated without an underflow is evaluated the same with recovery and without. -/
theorem runFrom_of_recovering
    (h : (ctx.recovering false).runFrom body position code locals frame = (locals', .ok frame')) :
    ctx.runFrom body position code locals frame = (locals', .ok frame') := by
  cases hrecover : ctx.recover with
  | false =>
    have hself : ctx.recovering false = ctx := by rw [recovering, ← hrecover]
    rwa [hself] at h
  | true =>
    have hself : ctx.recovering true = ctx := by rw [recovering, ← hrecover]
    have hrecovers := ctx.recovers_runFrom body position code locals frame
    rw [hself] at hrecovers
    rw [hrecovers.eq_of_failsOnly (by rw [h]; exact Result.failsOnly_ok _), h]

/-- **Code above other values**, with a line in front of it that none of its values comes from, does
what it does on its own. The induction is on the code: no value that it pushes comes from that line
either. -/
theorem runFrom_nested
    (h : (ctx.recovering false).runFrom body position code locals frame = (locals', .ok frame'))
    (hexit : ∀ a ∈ code, a.operation.isExit = false) (hline : line < position)
    (hfree : ∀ v ∈ frame.stack, v.origin ≠ line) (below : List Value) (text : Option String) :
    (ctx.recovering false).runFrom body position code locals (frame.nested below line text) =
      (locals', .ok (frame'.nested below line text)) := by
  induction code generalizing position locals frame with
  | nil =>
    cases h
    rfl
  | cons a code ih =>
    obtain ⟨ha, hcode⟩ := List.forall_mem_cons.mp hexit
    obtain ⟨locals₁, frame₁, hstep, hrun⟩ := runFrom_cons_eq_ok h
    have hnested : Site.step ⟨ctx.recovering false, body, position, a⟩ locals
        (frame.nested below line text) = (locals₁, .ok (frame₁.nested below line text)) :=
      Site.step_nested ⟨ctx, body, position, a⟩ hstep ha (Nat.ne_of_gt hline) hfree below text
    have hfree₁ : ∀ v ∈ frame₁.stack, v.origin ≠ line := by
      intro v hv
      rcases Site.origin_of_step hstep hv with horigin | ⟨w, hw, horigin⟩
      · rw [horigin]
        exact Nat.ne_of_gt hline
      · rw [horigin]
        exact hfree w hw
    rw [runFrom, hnested]
    exact ih hrun hcode (Nat.lt_succ_of_lt hline) hfree₁

end Context

/-! ### Arguments of a call -/

/-- Arguments that can be shown are found on the stack, and so is the object below them. -/
theorem takeOperands_arguments {types : List Ty} {values : List Value} {texts : List String}
    (hlength : values.length = types.length)
    (h : (types.zip values).mapM (fun (t, v) => argumentText t.display v) = .ok texts)
    (offset : Nat) (object : Value) (rest : List Value) :
    takeOperands offset (types.map (fun t => some t.display) ++ [none])
      (values ++ object :: rest) = .ok (values ++ [object], rest) := by
  induction types generalizing values texts with
  | nil =>
    obtain rfl := List.eq_nil_of_length_eq_zero hlength
    rfl
  | cons t types ih =>
    cases values with
    | nil => cases hlength
    | cons v values =>
      rw [List.zip_cons_cons, List.mapM_cons] at h
      obtain ⟨text, htext, h⟩ := Result.bind_eq_ok.mp h
      obtain ⟨others, hothers, -⟩ := Result.bind_eq_ok.mp h
      obtain ⟨keyword, hkeyword, -⟩ := Result.bind_eq_ok.mp htext
      have hboolean : booleanText? ((some t.display).getD "") v = .ok keyword := hkeyword
      rw [List.map_cons, List.cons_append, List.cons_append, takeOperands, hboolean,
        ih (Nat.succ.inj hlength) hothers]
      rfl

/-- The object below the arguments of a call does not show among them. -/
theorem argumentTexts_append {types : List Ty} {values : List Value}
    (hlength : values.length = types.length) (below : List Value) :
    argumentTexts types (values ++ below) = argumentTexts types values := by
  have hzip : types.reverse.zip (values ++ below) = types.reverse.zip values := by
    have happend : (types.reverse ++ []).zip (values ++ below) =
        types.reverse.zip values ++ List.zip [] below :=
      List.zip_append (by rw [List.length_reverse, hlength])
    simpa using happend
  rw [argumentTexts, hzip, argumentTexts]

/-! ### Construction -/

/-- A `new`, the code of the arguments, and the constructor call, with what they refer to. -/
structure Construction (pool : Pool) where
  new : Instruction
  dup : Instruction
  arguments : List Instruction
  call : Instruction
  type : ClassRef
  method : MethodRef
  new_operation : new.operation = .newObject
  type_eq : pool.classRef new.indexOperand = .ok type
  dup_operation : dup.operation = .dup
  /-- The arguments do not leave the method. -/
  isExit_arguments : ∀ a ∈ arguments, a.operation.isExit = false
  call_operation : call.operation = .invoke .special
  method_eq : pool.methodRef call.indexOperand = .ok method
  method_name : method.name = "<init>"

namespace Construction

section

variable {pool : Pool} (c : Construction pool)

/-- All instructions of a construction. -/
def code : List Instruction :=
  c.new :: c.dup :: (c.arguments ++ [c.call])

/-- The line that declares the object. It is not complete, as it ends with the name of the class. -/
def declaration (frame : Frame) : String :=
  c.type.typeName ++ " " ++ frame.objectName ++ " = new " ++ c.type.typeName

/-- The object, which `new` at the given position makes. -/
def object (position : Nat) (frame : Frame) : Value :=
  Value.ofVariable position frame.objectName c.type.typeName

end

variable {ctx : Context} (c : Construction ctx.pool) (body : List Instruction) (position : Nat)
  (locals : Locals) (frame : Frame)

/-- What the `new` of a construction does: it declares the object and pushes it. -/
theorem step_new : Site.step ⟨ctx, body, position, c.new⟩ locals frame = (locals, .ok
    ⟨c.object position frame :: frame.stack,
      frame.lines.set position (some (c.declaration frame)), frame.objects + 1⟩) := by
  have hresolve : Action.resolve ctx.pool c.new = .ok (.nullary (.newObject c.type.typeName)) := by
    rw [Action.resolve, c.new_operation]
    dsimp only
    rw [c.type_eq]
    rfl
  have hperform : (Action.nullary (.newObject c.type.typeName)).perform
      ⟨ctx, body, position, c.new⟩ frame locals [] = (locals, .ok
        { results := [c.object position frame]
          writes := [(position, some (c.declaration frame))]
          objects := 1 }) := rfl
  exact Site.step_of_perform [] hresolve rfl hperform rfl

variable {body frame} {object : Value} {rest : List Value}

/-- An object is duplicated as it is. -/
theorem step_dup (hnew : body[object.origin]? = some c.new)
    (hstack : frame.stack = object :: rest) :
    Site.step ⟨ctx, body, position, c.dup⟩ locals frame =
      (locals, .ok (frame.withStack (object :: object :: rest))) := by
  have hperform : (Action.unary .dup).perform ⟨ctx, body, position, c.dup⟩ frame locals [object] =
      (locals, .ok { results := [object, object] }) := by
    have hmade : Site.operationAt? ⟨ctx, body, position, c.dup⟩ object.origin =
        some .newObject := by
      rw [Site.operationAt?, hnew, Option.map_some, c.new_operation]
    simp [Action.perform, Action.Unary.effect, Action.dupEffect, hmade, Operation.makesArray]
  have hresolve : Action.resolve ctx.pool c.dup = .ok (.unary .dup) := by
    rw [Action.resolve, c.dup_operation]
  exact Site.step_of_results [object] [object, object] hresolve rfl hperform hstack

/-- **The constructor call** takes the line of the object along. -/
theorem step_call {values : List Value} {texts line : String}
    (hlength : values.length = c.method.type.arguments.length)
    (htexts : argumentTexts c.method.type.arguments values = .ok texts)
    (hstack : frame.stack = values ++ object :: rest)
    (hline : frame.lines[object.origin]? = some (some line)) :
    Site.step ⟨ctx, body, position, c.call⟩ locals frame = (locals, .ok
      ⟨rest, (frame.lines.set object.origin none).set position
        (some (line ++ "(" ++ texts ++ ");")), frame.objects⟩) := by
  have hresolve : Action.resolve ctx.pool c.call = .ok (.variadic (.callOn c.method)) := by
    rw [Action.resolve, c.call_operation]
    dsimp only
    rw [Action.resolveCall, c.method_eq]
    rfl
  have htaken : takeOperands c.call.offset (Action.variadic (.callOn c.method)).wants frame.stack =
      .ok (values ++ [object], rest) := by
    obtain ⟨shown, hshown, -⟩ := Result.bind_eq_ok.mp htexts
    rw [hstack]
    exact takeOperands_arguments (by rw [hlength, List.length_reverse]) hshown _ object rest
  have hperform : (Action.variadic (.callOn c.method)).perform ⟨ctx, body, position, c.call⟩ frame
      locals (values ++ [object]) = (locals, .ok { writes :=
        [(object.origin, none), (position, some (line ++ "(" ++ texts ++ ");"))] }) := by
    have hobject : (values ++ [object])[c.method.type.arguments.length]? = some object := by
      rw [← hlength, List.getElem?_concat_length]
    simp [Action.perform, Action.Variadic.effect, argumentTexts_append hlength, htexts, hobject,
      c.method_name, Action.constructorEffect, hline, bind, Except.bind]
  exact Site.step_of_takeOperands hresolve htaken hperform

/-- **The whole construction.** The code of the arguments is evaluated on its own, above nothing. -/
theorem runFrom_code {locals' : Locals} {after : Frame} {texts : String}
    (hnew : body[position]? = some c.new) (hlines : position < frame.lines.length)
    (harguments : (ctx.recovering false).runFrom body (position + 2) c.arguments locals
      ⟨[], frame.lines, frame.objects + 1⟩ = (locals', .ok after))
    (hlength : after.stack.length = c.method.type.arguments.length)
    (htexts : argumentTexts c.method.type.arguments after.stack = .ok texts) :
    ctx.runFrom body position c.code locals frame = (locals', .ok
      ⟨c.object position frame :: frame.stack,
        (after.lines.set position none).set (position + 2 + c.arguments.length)
          (some (c.declaration frame ++ "(" ++ texts ++ ");")),
        after.objects⟩) := by
  let object := c.object position frame
  let above := after.nested (object :: object :: frame.stack) position (some (c.declaration frame))
  have hbetween : ctx.runFrom body (position + 2) c.arguments locals
      ⟨object :: object :: frame.stack, frame.lines.set position (some (c.declaration frame)),
        frame.objects + 1⟩ = (locals', .ok above) :=
    Context.runFrom_of_recovering (Context.runFrom_nested harguments c.isExit_arguments
      (Nat.lt_add_of_pos_right Nat.two_pos) (List.forall_mem_nil _) _ _)
  have hline : above.lines[object.origin]? = some (some (c.declaration frame)) :=
    List.getElem?_set_self (by rwa [Context.length_lines_of_runFrom harguments])
  have hcall : Site.step ⟨ctx, body, position + 2 + c.arguments.length, c.call⟩ locals' above =
      (locals', .ok ⟨object :: frame.stack,
        (above.lines.set position none).set (position + 2 + c.arguments.length)
          (some (c.declaration frame ++ "(" ++ texts ++ ");")), above.objects⟩) :=
    c.step_call _ locals' hlength htexts rfl hline
  have hset : above.lines.set position none = after.lines.set position none := List.set_set ..
  rw [hset] at hcall
  rw [code, Context.runFrom, c.step_new]
  dsimp only
  rw [Context.runFrom, c.step_dup (position + 1) locals hnew rfl]
  exact Context.runFrom_concat hbetween hcall

end Construction

/-- **A constructor call completes the declaration of its object**, whatever stands between the two.
If the code of the arguments does not leave the method, and if on its own, from an empty stack and
the next object name, it leaves as many values as the constructor has arguments, each of which can
be shown, then the construction can be evaluated above any stack. In the end the line of `new` is
empty, and that of the call declares the object. The object is on top of the old stack. All other
lines, the variables and the number of objects are those that the arguments leave on their own. -/
theorem constructor_call_completes_declaration (ctx : Context) (c : Construction ctx.pool)
    (front behind : List Instruction) (locals locals' : Locals) (frame after : Frame)
    (texts : String) (hlines : frame.lines.length = (front ++ c.code ++ behind).length)
    (harguments : (ctx.recovering false).runFrom (front ++ c.code ++ behind) (front.length + 2)
      c.arguments locals ⟨[], frame.lines, frame.objects + 1⟩ = (locals', .ok after))
    (hlength : after.stack.length = c.method.type.arguments.length)
    (htexts : argumentTexts c.method.type.arguments after.stack = .ok texts) :
    ∃ done, ctx.runFrom (front ++ c.code ++ behind) front.length c.code locals frame =
        (locals', .ok done) ∧
      done.stack =
        Value.ofVariable front.length frame.objectName c.type.typeName :: frame.stack ∧
      done.objects = after.objects ∧
      done.lines[front.length]? = some none ∧
      done.lines[front.length + 2 + c.arguments.length]? = some (some (c.type.typeName ++ " " ++
        frame.objectName ++ " = new " ++ c.type.typeName ++ "(" ++ texts ++ ");")) ∧
      ∀ line, line ≠ front.length → line ≠ front.length + 2 + c.arguments.length →
        done.lines[line]? = after.lines[line]? := by
  have hnew : (front ++ c.code ++ behind)[front.length]? = some c.new := by
    simp [Construction.code]
  have hcall : front.length + 2 + c.arguments.length < frame.lines.length := by
    rw [hlines]
    simp only [Construction.code, List.length_append, List.length_cons, List.length_nil]
    omega
  have hlengths := Context.length_lines_of_runFrom harguments
  dsimp only at hlengths
  refine ⟨_, c.runFrom_code front.length locals hnew (by omega) harguments hlength htexts, rfl, rfl,
    ?_, ?_, ?_⟩
  · have hne : front.length + 2 + c.arguments.length ≠ front.length := by omega
    exact (List.getElem?_set_ne hne).trans (List.getElem?_set_self (by omega))
  · exact List.getElem?_set_self (by rw [List.length_set]; omega)
  · intro line hline hline'
    exact (List.getElem?_set_ne (Ne.symm hline')).trans (List.getElem?_set_ne (Ne.symm hline))

/-- An object whose arguments are another object and an array with an element, above `null`. -/
theorem constructor_call_completes_declaration_of_nested_arguments :
    let pool : Pool := ⟨#[.utf8 "A", .classRef 1, .utf8 "B", .classRef 3, .utf8 "<init>",
      .utf8 "(Z)V", .nameAndType 5 6, .methodRef 4 7, .utf8 "(LB;[I)V", .nameAndType 5 9,
      .methodRef 2 10]⟩
    let null : Instruction := ⟨0, 0, ⟨0x01, "aconst_null", .fixed [], .pushNull⟩, []⟩
    let newAt (offset index : Nat) (type : UInt8) : Instruction :=
      ⟨offset, index, ⟨0xbb, "new", .fixed [.poolIndexShort], .newObject⟩, [0, type]⟩
    let dupAt (offset index : Nat) : Instruction :=
      ⟨offset, index, ⟨0x59, "dup", .fixed [], .dup⟩, []⟩
    let callAt (offset index : Nat) (method : UInt8) : Instruction :=
      ⟨offset, index, ⟨0xb7, "invokespecial", .fixed [.poolIndexShort], .invoke .special⟩,
        [0, method]⟩
    let arguments : List Instruction := [newAt 5 3 4, dupAt 8 4,
      ⟨9, 5, ⟨0x04, "iconst_1", .fixed [], .pushInt 1⟩, []⟩, callAt 10 6 8,
      ⟨13, 7, ⟨0x05, "iconst_2", .fixed [], .pushInt 2⟩, []⟩,
      ⟨14, 8, ⟨0xbc, "newarray", .fixed [.byte], .newArray⟩, [10]⟩, dupAt 16 9,
      ⟨17, 10, ⟨0x03, "iconst_0", .fixed [], .pushInt 0⟩, []⟩,
      ⟨18, 11, ⟨0x08, "iconst_5", .fixed [], .pushInt 5⟩, []⟩,
      ⟨19, 12, ⟨0x4f, "iastore", .fixed [], .arrayStore⟩, []⟩]
    let body := null :: newAt 1 1 2 :: dupAt 4 2 :: (arguments ++ [callAt 20 13 11])
    let ctx : Context := ⟨"C", pool, ⟨body, [], [], [], []⟩, true⟩
    ∃ locals done, ctx.runFrom body 1 body.tail ⟨[], []⟩ ⟨[.ofNull 0], List.replicate 14 none, 3⟩ =
        (locals, .ok done) ∧
      done.stack = [.ofVariable 1 "obj3" "A", .ofNull 0] ∧ done.objects = 6 ∧
      done.lines[1]? = some none ∧
      done.lines[13]? = some (some "A obj3 = new A((B) obj4, (int[]) obj5);") ∧
      done.lines[6]? = some (some "B obj4 = new B(true);") ∧
      done.lines[8]? = some (some "int[] obj5 = new int[2];") := by
  intro pool null newAt dupAt callAt arguments body ctx
  let c : Construction ctx.pool :=
    { new := newAt 1 1 2
      dup := dupAt 4 2
      arguments
      call := callAt 20 13 11
      type := ⟨.reference "A"⟩
      method := ⟨"A", "<init>", "(LB;[I)V", ⟨[.reference "B", .array .int], .void⟩⟩
      new_operation := rfl
      type_eq := by decide +kernel
      dup_operation := rfl
      isExit_arguments := by decide
      call_operation := rfl
      method_eq := by decide +kernel
      method_name := rfl }
  let after : Frame := ⟨[.ofVariable 8 "obj5" "int[]", .ofVariable 3 "obj4" "B"],
    [none, none, none, none, none, none, some "B obj4 = new B(true);", none,
      some "int[] obj5 = new int[2];", none, none, none, some "obj5[0] = 5;", none], 6⟩
  have harguments : (ctx.recovering false).runFrom ([null] ++ c.code ++ []) 3 c.arguments ⟨[], []⟩
      ⟨[], List.replicate 14 none, 4⟩ = (⟨[], []⟩, .ok after) := by
    decide +kernel
  have htexts : argumentTexts c.method.type.arguments after.stack =
      .ok "(B) obj4, (int[]) obj5" := by
    decide +kernel
  obtain ⟨done, hrun, hstack, hobjects, hnew, hcall, hothers⟩ :=
    constructor_call_completes_declaration ctx c [null] [] ⟨[], []⟩ ⟨[], []⟩
      ⟨[.ofNull 0], List.replicate 14 none, 3⟩ after "(B) obj4, (int[]) obj5" rfl harguments rfl
      htexts
  exact ⟨_, done, hrun, hstack, hobjects, hnew, hcall, hothers 6 (by decide) (by decide),
    hothers 8 (by decide) (by decide)⟩

end JvmSource
