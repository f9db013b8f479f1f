import JvmSource.Proofs.Eval.Shuffle

/-!
# Array types and their names

The pool gives array types as trees, and the evaluator passes them on as displayed names from which
it takes one pair of brackets at a time. The two agree: a displayed name is that of the base type
with one pair for each dimension (`Ty.display_eq`), and taking a pair off is going to the elements
(`Name.element?_eq_some_iff`). A class may have brackets in its own name, which a displayed name
cannot tell from those of an array; where it matters, the base type is assumed to have none.

The text of a new array has a group of brackets for each dimension of its type: first those with a
length, then empty ones. There are three instructions that make arrays, and what they have in common
is `Allocates`: a type, and the number of its dimensions that have a length. An allocation takes the
lengths off the stack and pushes the array (`Site.step_of_allocates`), and every array that is made
comes from one (`Site.exists_allocates_of_step`).

Each load of an element takes one pair off the type, as long as there is one. Loads one from the
other are a relation of their own (`Loads`), since the array of a load is the result of the load
before it, with any instructions between them (`Loads.pairs_add`). Together: `array_types_in_step`.
-/

namespace JvmSource

/-! ### Pairs of brackets -/

namespace Text

/-- Each of some texts in brackets of its own, one behind the other. -/
def bracketed (groups : List String) : String :=
  String.join (groups.map fun text => "[" ++ text ++ "]")

theorem repeated_succ (n : Nat) (text : String) :
    repeated (n + 1) text = repeated n text ++ text := by
  simp [repeated, List.replicate_succ']

theorem repeated_succ' (n : Nat) (text : String) :
    repeated (n + 1) text = text ++ repeated n text := by
  simp [repeated, List.replicate_succ]

theorem bracketed_append (groups groups' : List String) :
    bracketed (groups ++ groups') = bracketed groups ++ bracketed groups' := by
  simp [bracketed]

theorem bracketed_replicate (n : Nat) : bracketed (List.replicate n "") = repeated n "[]" := by
  induction n with
  | zero => rfl
  | succ n ih =>
    rw [List.replicate_succ', bracketed_append, ih, repeated_succ]
    rfl

end Text

namespace Name

/-- **The element type** is what stands in front of the last pair of brackets. -/
theorem element?_eq_some_iff {type element : String} :
    element? type = some element ↔ type = element ++ "[]" := by
  simp only [element?, Option.map_eq_some_iff, List.isSuffixOf?_eq_some_iff_append_eq]
  constructor
  · rintro ⟨cs, happend, rfl⟩
    exact String.toList_injective (by rw [String.toList_append, String.toList_ofList, happend])
  · rintro rfl
    exact ⟨element.toList, (String.toList_append ..).symm, String.ofList_toList⟩

/-- There is no element type where there is no pair of brackets at the end. -/
theorem element?_eq_none_iff {type : String} :
    element? type = none ↔ ¬ "[]".toList <:+ type.toList := by
  rw [element?, Option.map_eq_none_iff, ← Option.not_isSome_iff_eq_none,
    List.isSome_isSuffixOf?_eq_isSuffixOf, List.isSuffixOf_iff_suffix]

/-- The number of pairs of brackets at the end of a text, the last character first. -/
def pairsFrom : List Char → Nat
  | ']' :: '[' :: cs => pairsFrom cs + 1
  | _ => 0

/-- The number of pairs of brackets at the end of a displayed type. -/
def pairs (type : String) : Nat :=
  pairsFrom type.toList.reverse

/-- A pair of brackets at the end is counted. -/
theorem pairs_append (type : String) : pairs (type ++ "[]") = pairs type + 1 := by
  rw [pairs, String.toList_append, List.reverse_append]
  rfl

/-- So are several pairs. -/
theorem pairs_append_repeated (type : String) (n : Nat) :
    pairs (type ++ Text.repeated n "[]") = pairs type + n := by
  induction n with
  | zero => exact congrArg pairs String.append_empty
  | succ n ih => rw [Text.repeated_succ, ← String.append_assoc, pairs_append, ih, Nat.add_assoc]

/-- **There are elements** if and only if there is a pair of brackets. -/
theorem element?_eq_none_iff_pairs {type : String} : element? type = none ↔ pairs type = 0 := by
  constructor
  · intro hnone
    rw [pairs]
    unfold pairsFrom
    split
    · next cs hcs =>
      have htype : type = String.ofList cs.reverse ++ "[]" := by
        refine String.toList_injective ?_
        rw [← List.reverse_reverse type.toList, hcs]
        simp
      rw [element?_eq_some_iff.mpr htype] at hnone
      cases hnone
    · rfl
  · intro hzero
    cases helement : element? type with
    | none => rfl
    | some element =>
      rw [element?_eq_some_iff.mp helement, pairs_append] at hzero
      cases hzero

end Name

/-! ### Types -/

namespace Ty

/-- **A displayed name** is that of the base type with one pair of brackets for each dimension. -/
theorem display_eq (t : Ty) : t.display = t.base.display ++ Text.repeated t.dimensions "[]" := by
  induction t with
  | array element ih =>
    rw [display_array, base_array, dimensions_array, Text.repeated_succ, ← String.append_assoc,
      ← ih]
  | _ => exact String.append_empty.symm

/-- A type that is no array is its own base. -/
theorem base_eq_self {t : Ty} (h : ∀ element, t ≠ array element) : t.base = t := by
  cases t with
  | array element => exact absurd rfl (h element)
  | _ => rfl

/-- A type that is no array has no dimensions. -/
theorem dimensions_eq_zero {t : Ty} (h : ∀ element, t ≠ array element) : t.dimensions = 0 := by
  cases t with
  | array element => exact absurd rfl (h element)
  | _ => rfl

/-- The pairs of brackets of a displayed name are the dimensions, if the base type has none. -/
theorem pairs_display_of_base {t : Ty} (h : ¬ "[]".toList <:+ t.base.display.toList) :
    Name.pairs t.display = t.dimensions := by
  have hbase : Name.pairs t.base.display = 0 :=
    Name.element?_eq_none_iff_pairs.mp (Name.element?_eq_none_iff.mpr h)
  rw [display_eq, Name.pairs_append_repeated, hbase, Nat.zero_add]

/-- The elements of a primitive array are no arrays. -/
theorem ne_array_of_ofArrayCode? {code : Nat} {t : Ty} (h : ofArrayCode? code = some t) :
    ∀ element, t ≠ array element := by
  rintro element rfl
  unfold ofArrayCode? at h
  split at h <;> cases h

end Ty

/-! ### Allocations -/

/-- **An instruction allocates an array** of a type, with lengths for `sized` dimensions. There are
three instructions that do. -/
inductive Allocates (pool : Pool) (instr : Instruction) : Ty → Nat → Prop where
  | primitive {element : Ty} (hop : instr.operation = .newArray)
    (hcode : Ty.ofArrayCode? (instr.unsignedOperand 0) = some element) :
    Allocates pool instr (.array element) 1
  | reference {element : ClassRef} (hop : instr.operation = .newReferenceArray)
    (hclass : pool.classRef instr.indexOperand = .ok element) :
    Allocates pool instr (.array element.type) 1
  /-- At least one dimension has a length, and at most all of them. -/
  | nested {c : ClassRef} (hop : instr.operation = .newNestedArray)
    (hclass : pool.classRef instr.indexOperand = .ok c) (hpos : 0 < instr.unsignedOperand 1)
    (hle : instr.unsignedOperand 1 ≤ c.dimensions) :
    Allocates pool instr c.type (instr.unsignedOperand 1)

namespace Ty

/-- What stands in the brackets of a new array: the lengths, and nothing for the dimensions that
have none. -/
def groups (t : Ty) (lengths : List Value) : List String :=
  lengths.map Value.text ++ List.replicate (t.dimensions - lengths.length) ""

/-- A new array of the type, with lengths for its first dimensions. -/
def allocated (t : Ty) (position : Nat) (lengths : List Value) : Value :=
  Value.ofCode position ("new " ++ t.base.display ++ Text.bracketed (t.groups lengths)) t.display

/-- There is a group of brackets for each dimension. -/
theorem length_groups {t : Ty} {lengths : List Value} (h : lengths.length ≤ t.dimensions) :
    (t.groups lengths).length = t.dimensions := by
  rw [groups, List.length_append, List.length_map, List.length_replicate]
  omega

/-- The text of a new array, with the lengths in front and the empty brackets behind them. -/
theorem allocated_eq (t : Ty) (position : Nat) (lengths : List Value) :
    t.allocated position lengths = Value.ofCode position
      ("new " ++ t.base.display ++ String.join (lengths.map fun v => "[" ++ v.text ++ "]") ++
        Text.repeated (t.dimensions - lengths.length) "[]") t.display := by
  rw [allocated, groups, Text.bracketed_append, Text.bracketed_replicate, ← String.append_assoc,
    Text.bracketed, List.map_map]
  rfl

/-- A new array with a length for one dimension. -/
theorem allocated_array (element : Ty) (position : Nat) (length : Value) :
    (array element).allocated position [length] = Value.ofCode position
      ("new " ++ element.base.display ++ "[" ++ length.text ++ "]" ++
        Text.repeated element.dimensions "[]") (array element).display := by
  rw [allocated_eq]
  simp [String.append_assoc]

/-- A new array whose elements are no arrays. -/
theorem allocated_array_of_ne_array {element : Ty} (h : ∀ t, element ≠ array t) (position : Nat)
    (length : Value) : (array element).allocated position [length] = Value.ofCode position
      ("new " ++ element.display ++ "[" ++ length.text ++ "]") (array element).display := by
  rw [allocated_array, base_eq_self h, dimensions_eq_zero h]
  exact congrArg (Value.ofCode position · _) String.append_empty

end Ty

/-- A value is a new array of a type, with lengths for its first dimensions. Behind the name of the
base type, its text has as many groups of brackets as its type has pairs of them. -/
structure Value.IsNew (v : Value) (t : Ty) (lengths : List Value) : Prop where
  text_eq : v.text = "new " ++ t.base.display ++ Text.bracketed (t.groups lengths)
  type_eq : v.type = t.base.display ++ Text.repeated (t.groups lengths).length "[]"
  length_groups : (t.groups lengths).length = t.dimensions

section

variable {pool : Pool} {instr : Instruction} {t : Ty} {sized : Nat} {action : Action}
  {lengths : List Value}

/-- An allocation has no more lengths than its type has dimensions. -/
theorem Allocates.le_dimensions (h : Allocates pool instr t sized) : sized ≤ t.dimensions := by
  cases h with
  | primitive | reference => exact Nat.le_add_left 1 _
  | nested _ _ _ hle => exact hle

theorem Allocates.isNew_allocated (h : Allocates pool instr t lengths.length) (position : Nat) :
    (t.allocated position lengths).IsNew t lengths := by
  have hgroups := Ty.length_groups h.le_dimensions
  exact ⟨rfl, by rw [hgroups, ← Ty.display_eq]; rfl, hgroups⟩

/-- **The action of an allocation** takes a length for each sized dimension and pushes the array. -/
theorem Allocates.exists_resolve (h : Allocates pool instr t sized) :
    ∃ action, Action.resolve pool instr = .ok action ∧ action.wants = List.replicate sized none ∧
      ∀ (site : Site) (frame : Frame) (locals : Locals) (operands : List Value),
        operands.length = sized → action.perform site frame locals operands =
          (locals, .ok { results := [t.allocated site.position operands.reverse] }) := by
  cases h with
  | @primitive element hop hcode =>
    refine ⟨.unary (.newArray (instr.unsignedOperand 0)), by rw [Action.resolve, hop], rfl, ?_⟩
    intro site frame locals operands hlength
    obtain ⟨length, rfl⟩ := List.length_eq_one_iff.mp hlength
    -- the element is no array, so the brackets follow its name directly
    rw [Action.perform, Action.Unary.effect, hcode, List.reverse_singleton,
      Ty.allocated_array_of_ne_array (Ty.ne_array_of_ofArrayCode? hcode)]
    rfl
  | @reference element hop hclass =>
    refine ⟨.unary (.newReferenceArray element), ?_, rfl, ?_⟩
    · simp only [Action.resolve, hop, hclass]
      rfl
    intro site frame locals operands hlength
    obtain ⟨length, rfl⟩ := List.length_eq_one_iff.mp hlength
    rw [Action.perform, List.reverse_singleton, Ty.allocated_array]
    rfl
  | @nested c hop hclass hpos hle =>
    refine ⟨.variadic (.newNestedArray c (instr.unsignedOperand 1)), ?_, rfl, ?_⟩
    · -- the check of the dimensions passes
      have hlegal : ¬ (instr.unsignedOperand 1 = 0 ∨ c.dimensions < instr.unsignedOperand 1) := by
        omega
      simp only [Action.resolve, Action.resolveNestedArray, hop, hclass, bind, Except.bind,
        if_neg hlegal]
      rfl
    intro site frame locals operands hlength
    rw [Action.perform, Ty.allocated_eq, List.length_reverse, hlength]
    rfl

/-- An instruction that makes an array allocates it, unless its action fails. -/
theorem Action.exists_allocates {site : Site} {frame : Frame} {locals : Locals}
    {operands : List Value} {effect : Effect} (hmakes : instr.operation.makesArray = true)
    (hresolve : resolve pool instr = .ok action) (hlength : operands.length = instr.demand pool)
    (hperform : (action.perform site frame locals operands).2 = .ok effect) :
    ∃ t, Allocates pool instr t operands.length := by
  rcases hop : instr.operation
  case newArray =>
    simp only [Action.resolve, hop] at hresolve
    obtain rfl := Except.ok.inj hresolve
    rw [Instruction.demand, hop] at hlength
    obtain ⟨length, rfl⟩ := List.length_eq_one_iff.mp hlength
    rw [Action.perform, Action.Unary.effect] at hperform
    dsimp only at hperform
    split at hperform
    · next element hcode => exact ⟨.array element, .primitive hop hcode⟩
    -- another code stands for no type, and then the action fails
    · cases hperform
  case newReferenceArray =>
    simp only [Action.resolve, hop] at hresolve
    obtain ⟨element, hclass, -⟩ := Result.bind_eq_ok.mp hresolve
    rw [hlength, Instruction.demand, hop]
    exact ⟨.array element.type, .reference hop hclass⟩
  case newNestedArray =>
    simp only [Action.resolve, hop] at hresolve
    obtain ⟨a, hnested, -⟩ := Result.bind_eq_ok.mp hresolve
    obtain ⟨c, hclass, hnested⟩ := Result.bind_eq_ok.mp hnested
    dsimp only at hnested
    split at hnested
    · cases hnested
    · next hlegal =>
      rw [hlength, Instruction.demand, hop]
      exact ⟨c.type, .nested hop hclass (by omega) (by omega)⟩
  all_goals
    rw [hop] at hmakes
    cases hmakes

namespace Site

variable {site : Site} {locals locals' : Locals} {frame frame' : Frame} {rest : List Value}

/-- **An allocation pushes the array** in the place of its lengths, of which the last one is on top,
and does nothing else. -/
theorem step_of_allocates (h : Allocates site.context.pool site.instr t lengths.length)
    (hstack : frame.stack = lengths.reverse ++ rest) (locals : Locals) :
    site.step locals frame =
      (locals, .ok (frame.withStack (t.allocated site.position lengths :: rest))) := by
  obtain ⟨action, hresolve, hwants, hperform⟩ := h.exists_resolve
  have hdone := hperform site frame locals lengths.reverse List.length_reverse
  rw [List.reverse_reverse] at hdone
  rw [← List.length_reverse] at hwants
  exact step_of_results lengths.reverse [_] hresolve hwants hdone hstack

/-- **Every array that is made** comes from an allocation, with the lengths on the stack, where
placeholders stand for those that are missing. -/
theorem exists_allocates_of_step (hmakes : site.instr.operation.makesArray = true)
    (h : site.step locals frame = (locals', .ok frame')) :
    ∃ t lengths rest, Allocates site.context.pool site.instr t lengths.length ∧
      site.pad frame.stack = lengths.reverse ++ rest ∧
      frame'.stack = t.allocated site.position lengths :: rest := by
  obtain ⟨action, operands, rest, effect, hresolve, hpad, hlength, hperform, -, rfl⟩ :=
    step_eq_ok_pad h
  obtain ⟨t, ht⟩ := Action.exists_allocates hmakes hresolve hlength (congrArg Prod.snd hperform)
  -- the action is that of the allocation, and so is its effect
  obtain ⟨action', hresolve', -, hdoes⟩ := ht.exists_resolve
  obtain rfl := Except.ok.inj (hresolve.symm.trans hresolve')
  obtain rfl : effect = { results := [t.allocated site.position operands.reverse] } := by
    rw [hdoes site frame locals operands rfl] at hperform
    exact (Except.ok.inj (congrArg Prod.snd hperform)).symm
  refine ⟨t, operands.reverse, rest, by rwa [List.length_reverse], ?_, rfl⟩
  rw [List.reverse_reverse, hpad]

end Site

end

/-! ### Loads of elements -/

namespace Site

variable {site : Site} {locals locals' : Locals} {frame frame' : Frame} {index array : Value}
  {rest : List Value}

/-- The element that a load pushes. Its type is that of the array without the last pair of brackets;
the load fails if there is none. -/
def element (site : Site) (index array : Value) : Result Value :=
  match Name.element? array.type with
  | some type => .ok (Value.ofCode site.position
      (array.operandText ++ "[" ++ index.text ++ "]") type)
  | none => .error (.expectedArray site.instr.mnemonic site.instr.offset array.type)

/-- The type of an element is that of its array without the last pair of brackets. -/
theorem type_of_element {v : Value} (h : site.element index array = .ok v) :
    array.type = v.type ++ "[]" := by
  rw [element] at h
  split at h
  · next type htype =>
    obtain rfl := Except.ok.inj h
    exact Name.element?_eq_some_iff.mp htype
  · cases h

theorem perform_arrayLoad (site : Site) (frame : Frame) (locals : Locals) (index array : Value) :
    (Action.binary (.arrayLoad none)).perform site frame locals [index, array] =
      (locals, (site.element index array).map fun v => { results := [v] }) := by
  rw [Action.perform, element]
  simp only [Action.Binary.effect]
  split
  · next htype => cases htype
  · next type _ htype =>
    rw [htype]
    rfl
  · next _ htype =>
    rw [htype]
    rfl

/-- **A load of an element** puts the element in the place of the array and the index. -/
theorem step_arrayLoad (hop : site.instr.operation = .arrayLoad none)
    (hstack : frame.stack = index :: array :: rest) (locals : Locals) :
    site.step locals frame =
      (locals, (site.element index array).map fun v => frame.withStack (v :: rest)) := by
  have hoperands : site.operands (.binary (.arrayLoad none)) frame.stack =
      .ok ([index, array], rest) := by
    rw [Site.operands, hstack]
    split <;> rfl
  rw [step_of_resolve_ok site (by rw [Action.resolve, hop]), hoperands, conclude,
    perform_arrayLoad]
  cases site.element index array <;> rfl

/-- A load takes a pair of brackets off the type, also where the index is missing. -/
theorem type_of_arrayLoad {w : Value} {below : List Value}
    (hop : site.instr.operation = .arrayLoad none)
    (hstack : site.pad frame.stack = index :: array :: rest)
    (h : site.step locals frame = (locals', .ok frame')) (hpushed : frame'.stack = w :: below) :
    array.type = w.type ++ "[]" := by
  obtain ⟨action, operands, rest', effect, hresolve, hpad, hlength, hperform, -, rfl⟩ :=
    step_eq_ok_pad h
  rw [Action.resolve, hop] at hresolve
  obtain rfl := Except.ok.inj hresolve
  rw [Instruction.demand, hop] at hlength
  obtain ⟨top, second, rfl⟩ := List.length_eq_two.mp hlength
  obtain ⟨rfl, hrest⟩ := List.cons.inj (hstack.symm.trans hpad)
  obtain ⟨rfl, rfl⟩ := List.cons.inj hrest
  rw [perform_arrayLoad] at hperform
  obtain ⟨v, hv, rfl⟩ := Result.map_eq_ok.mp (congrArg Prod.snd hperform)
  obtain ⟨rfl, -⟩ := List.cons.inj hpushed
  exact type_of_element hv

end Site

/-- **Loads of elements, one from the other**: `count` of them lead from a value to another one. -/
inductive Loads (v : Value) : (count : Nat) → Value → Prop where
  | none : Loads v 0 v
  | load {count : Nat} {array w : Value} (hloads : Loads v count array) {site : Site}
    {locals locals' : Locals} {frame frame' : Frame} {index : Value} {rest rest' : List Value}
    (hop : site.instr.operation = .arrayLoad none)
    (hstack : site.pad frame.stack = index :: array :: rest)
    (hstep : site.step locals frame = (locals', .ok frame')) (hpushed : frame'.stack = w :: rest') :
    Loads v (count + 1) w

/-- **Each load takes a pair of brackets off the type.** The induction is on the number of loads. -/
theorem Loads.type_eq {count : Nat} {v w : Value} (h : Loads v count w) :
    v.type = w.type ++ Text.repeated count "[]" := by
  induction h with
  | none => exact String.append_empty.symm
  | load _ hop hstack hstep hpushed ih =>
    rw [ih, Site.type_of_arrayLoad hop hstack hstep hpushed, String.append_assoc,
      ← Text.repeated_succ']

/-- What has been taken off and what is left are the pairs of brackets of the type at the start. -/
theorem Loads.pairs_add {count : Nat} {v w : Value} (h : Loads v count w) :
    Name.pairs w.type + count = Name.pairs v.type := by
  rw [h.type_eq, Name.pairs_append_repeated]

/-- **Array types and their names stay in step.** A displayed name is that of the base type with one
pair of brackets for each dimension, also for the class constants of a pool; if the base type has no
brackets of its own, then the name has an element type exactly if the type is an array. The text of
a new array has behind the base name as many groups of brackets as its type has dimensions, for
every number of lengths that the allocation may have. And each load of an element takes one pair of
brackets off the type; it fails for want of an array if and only if there is none left. -/
theorem array_types_in_step :
    (∀ t : Ty, t.display = t.base.display ++ Text.repeated t.dimensions "[]") ∧
    (∀ t : Ty, ¬ "[]".toList <:+ t.base.display.toList →
      Name.pairs t.display = t.dimensions ∧
      (∀ u, t = .array u → Name.element? t.display = some u.display) ∧
      ((∀ u, t ≠ .array u) → Name.element? t.display = none)) ∧
    (∀ (pool : Pool) (index : UInt16) (c : ClassRef), pool.classRef index = .ok c →
      c.typeName = c.name ++ Text.repeated c.dimensions "[]") ∧
    (∀ (site : Site) (t : Ty) (lengths : List Value),
      Allocates site.context.pool site.instr t lengths.length →
      ∀ (locals : Locals) (frame : Frame) (rest : List Value),
        frame.stack = lengths.reverse ++ rest →
        ∃ v, v.IsNew t lengths ∧
          site.step locals frame = (locals, .ok (frame.withStack (v :: rest)))) ∧
    (∀ site : Site, site.instr.operation.makesArray = true →
      ∀ (locals locals' : Locals) (frame frame' : Frame),
        site.step locals frame = (locals', .ok frame') →
        ∃ t lengths rest v, Allocates site.context.pool site.instr t lengths.length ∧
          site.pad frame.stack = lengths.reverse ++ rest ∧ v.IsNew t lengths ∧
          frame'.stack = v :: rest) ∧
    ∀ (v w : Value) (count : Nat), Loads v count w →
      v.type = w.type ++ Text.repeated count "[]" ∧
      Name.pairs w.type + count = Name.pairs v.type ∧
      ∀ site : Site, site.instr.operation = .arrayLoad none →
      ∀ (locals : Locals) (frame : Frame) (index : Value) (rest : List Value),
        frame.stack = index :: w :: rest →
        (Name.pairs w.type = 0 → site.step locals frame = (locals,
          .error (.expectedArray site.instr.mnemonic site.instr.offset w.type))) ∧
        (0 < Name.pairs w.type → ∃ u, Loads v (count + 1) u ∧
          site.step locals frame = (locals, .ok (frame.withStack (u :: rest)))) := by
  refine ⟨Ty.display_eq,
    fun t hbase => ⟨Ty.pairs_display_of_base hbase, ?_, fun hnot => ?_⟩,
    fun _ _ c _ => c.type.display_eq,
    fun site t lengths h locals frame rest hstack => ?_,
    fun site hmakes locals locals' frame frame' h => ?_,
    fun v w count hloads => ⟨hloads.type_eq, hloads.pairs_add, ?_⟩⟩
  · rintro u rfl
    exact Name.element?_eq_some_iff.mpr rfl
  · -- what is no array is its own base, which has no brackets
    rw [Ty.base_eq_self hnot] at hbase
    exact Name.element?_eq_none_iff.mpr hbase
  · exact ⟨_, h.isNew_allocated site.position, Site.step_of_allocates h hstack locals⟩
  · -- a step that succeeds has found a type that it allocates
    obtain ⟨t, lengths, rest, ht, hpad, hpushed⟩ := Site.exists_allocates_of_step hmakes h
    exact ⟨t, lengths, rest, _, ht, hpad, ht.isNew_allocated site.position, hpushed⟩
  · intro site hop locals frame index rest hstack
    have hpad : site.pad frame.stack = index :: w :: rest := by
      simp [Site.pad, hstack, Instruction.demand, hop]
    have hstep := Site.step_arrayLoad hop hstack locals
    refine ⟨fun hzero => ?_, fun hpos => ?_⟩
    · rw [hstep, Site.element, Name.element?_eq_none_iff_pairs.mpr hzero]
      rfl
    · cases helement : Name.element? w.type with
      | none =>
        have hzero := Name.element?_eq_none_iff_pairs.mp helement
        omega
      | some type =>
        rw [Site.element, helement] at hstep
        exact ⟨_, .load hloads hop hpad hstep rfl, hstep⟩

/-- An array with lengths for two of its three dimensions. A fourth load of an element fails. -/
theorem array_types_in_step_of_nested :
    let pool : Pool := ⟨#[.classRef 2, .utf8 "[[[I"]⟩
    let ctx : Context := ⟨"A", pool, ⟨[], [], [], [], []⟩, false⟩
    let allocate : Instruction := ⟨0, 0,
      ⟨0xc5, "multianewarray", .fixed [.poolIndexShort, .byte], .newNestedArray⟩, [0, 1, 2]⟩
    let load : Instruction := ⟨4, 1, ⟨0x32, "aaload", .fixed [], .arrayLoad none⟩, []⟩
    let int (n : Nat) : Value := .ofLiteral 0 (.int n)
    ∃ v w, Site.step ⟨ctx, [allocate], 0, allocate⟩ ⟨[], []⟩ ⟨[int 3, int 2], [none], 0⟩ =
        (⟨[], []⟩, .ok ⟨[v], [none], 0⟩) ∧
      v.text = "new int[2][3][]" ∧ v.type = "int[][][]" ∧ Loads v 3 w ∧
      Site.step ⟨ctx, [load], 0, load⟩ ⟨[], []⟩ ⟨[int 0, w], [none], 0⟩ =
        (⟨[], []⟩, .error (.expectedArray "aaload" 4 w.type)) := by
  intro pool ctx allocate load int
  let t : Ty := .array (.array (.array .int))
  have hclass : pool.classRef allocate.indexOperand = .ok ⟨t⟩ := by decide +kernel
  have hsized : allocate.unsignedOperand 1 = 2 := by decide +kernel
  have hallocates : Allocates pool allocate t 2 := by
    rw [← hsized]
    exact .nested (c := ⟨t⟩) rfl hclass (by rw [hsized]; decide) (by rw [hsized]; decide)
  obtain ⟨-, -, -, hpushes, -, hloads⟩ := array_types_in_step
  obtain ⟨v, hv, hstep⟩ := hpushes ⟨ctx, [allocate], 0, allocate⟩ t [int 2, int 3] hallocates
    ⟨[], []⟩ ⟨[int 3, int 2], [none], 0⟩ [] rfl
  have hpairs : Name.pairs v.type = 3 := by
    rw [hv.type_eq]
    decide +kernel
  -- as long as there are brackets left, one more load succeeds
  have hnext {count : Nat} {w : Value} (hw : Loads v count w) (hcount : count < 3) :
      ∃ u, Loads v (count + 1) u := by
    obtain ⟨-, hsum, hload⟩ := hloads v w count hw
    obtain ⟨u, hu, -⟩ := (hload ⟨ctx, [load], 0, load⟩ rfl ⟨[], []⟩ ⟨[int 0, w], [none], 0⟩ (int 0)
      [] rfl).2 (by omega)
    exact ⟨u, hu⟩
  obtain ⟨w₁, hw₁⟩ := hnext .none (by decide)
  obtain ⟨w₂, hw₂⟩ := hnext hw₁ (by decide)
  obtain ⟨w₃, hw₃⟩ := hnext hw₂ (by decide)
  obtain ⟨-, hsum, hload⟩ := hloads v w₃ 3 hw₃
  refine ⟨v, w₃, hstep, hv.text_eq.trans (by decide +kernel),
    hv.type_eq.trans (by decide +kernel), hw₃, ?_⟩
  exact (hload ⟨ctx, [load], 0, load⟩ rfl ⟨[], []⟩ ⟨[int 0, w₃], [none], 0⟩ (int 0) [] rfl).1
    (by omega)

end JvmSource
