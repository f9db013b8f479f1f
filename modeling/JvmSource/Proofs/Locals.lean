import Mathlib.Algebra.GroupWithZero.Nat
import Mathlib.Data.List.Find
import Mathlib.Data.List.Forall2
import Mathlib.Data.List.Nodup
import JvmSource.Locals
import JvmSource.Proofs.Flow.Label
import JvmSource.Proofs.Result

/-!
# Variables on entry, and names from a table

On entry to a method the slots of its arguments are bound, and that of the current object if there
is one (`Locals.get?_onEntry_of_mem`, `Locals.get?_onEntry_eq_none`). The slots of the arguments
follow each other by the widths of their types. They are numbers of two bytes, so the numbering
begins again behind the last of these (`Locals.getElem?_argumentSlots`). Where all arguments fit, it
never does, and no two arguments have the same slot (`Locals.pairwise_argumentSlots`).

Binding goes through the arguments in order, and an argument that finds its slot bound replaces the
variable there. So a slot is bound exactly if some argument has it
(`Locals.exists_get?_foldl_bindArgument`), and to the variable of such an argument.

A name that the local variable table gives for an offset is the text of the first row that covers
the offset, and of the first row of the slot if there is none (`Locals.tableName?_of_find?`). The
table is looked through with its names resolved, which makes no difference for what is found: rows
correspond one by one (`Locals.Names`), and a search with a condition on both sides finds a pair.
-/

namespace JvmSource

theorem Ty.width_pos (t : Ty) : 0 < t.width := by
  rw [width]
  split <;> decide

namespace Locals

/-! ### Bindings -/

/-- A slot that must be bound has the variable that it is bound to. -/
theorem require_eq_ok {locals : Locals} {slot : Nat} {v : LocalVariable} :
    locals.require slot = .ok v ↔ locals.get? slot = some v := by
  rw [require]
  cases locals.get? slot <;> simp

/-- The name of a slot that is bound when it is first used: from the table, or made up from the
slot. -/
def newName (table : List TableName) (slot pc : Nat) : String :=
  (tableName? table slot pc).getD ("var" ++ Text.decimal slot)

/-- The use of a slot that is not bound binds it to a new variable, and leaves the table as it
is. -/
theorem getOrBind_of_get?_eq_none {locals : Locals} {slot : Nat} (h : locals.get? slot = none)
    (type : String) (pc : Nat) :
    locals.getOrBind slot type pc =
      let v : LocalVariable := { name := newName locals.table slot pc, type }
      (v, locals.bind slot v) := by
  rw [getOrBind, h]
  rfl

/-- The use of a slot leaves the other slots alone. -/
theorem get?_getOrBind_of_ne {locals : Locals} {slot other : Nat} (h : other ≠ slot)
    (type : String) (pc : Nat) :
    (locals.getOrBind slot type pc).2.get? other = locals.get? other := by
  cases hslot : locals.get? slot with
  | some v => rw [getOrBind, hslot]
  | none =>
    rw [getOrBind_of_get?_eq_none hslot]
    exact get?_bind_of_ne locals _ h

theorem table_getOrBind (locals : Locals) (slot : Nat) (type : String) (pc : Nat) :
    (locals.getOrBind slot type pc).2.table = locals.table := by
  cases hslot : locals.get? slot with
  | some v => rw [getOrBind, hslot]
  | none =>
    rw [getOrBind_of_get?_eq_none hslot]
    rfl

/-! ### The slots of arguments -/

/-- The slot of the argument at a position, where `slot` is that of the first argument: the
arguments before it take as many slots as their types are wide. -/
def argumentSlot (slot : Nat) (types : List Ty) (position : Nat) : Nat :=
  slot + ((types.take position).map Ty.width).sum

theorem map_snd_argumentSlots (slot : Nat) (types : List Ty) :
    (argumentSlots slot types).map Prod.snd = types := by
  induction types generalizing slot with
  | nil => rfl
  | cons t types ih => rw [argumentSlots, List.map_cons, ih]

/-- Slots are numbers of two bytes, so the slot of an argument is found modulo their number. -/
theorem getElem?_argumentSlots {slot : Nat} (hslot : slot < UInt16.size) (types : List Ty)
    (i : Nat) :
    (argumentSlots slot types)[i]? =
      types[i]?.map fun t => (argumentSlot slot types i % UInt16.size, t) := by
  induction types generalizing slot i with
  | nil => simp [argumentSlots]
  | cons t types ih =>
    cases i with
    | zero => simp [argumentSlots, argumentSlot, Nat.mod_eq_of_lt hslot]
    | succ i =>
      have hslot : (slot + t.width) % UInt16.size < UInt16.size := Nat.mod_lt _ (by decide)
      simp [argumentSlots, ih hslot i, argumentSlot, Nat.add_assoc]

/-- Each argument lies behind those before it. -/
theorem argumentSlot_lt {types : List Ty} {i j : Nat} (hij : i < j) (hi : i < types.length)
    (slot : Nat) : argumentSlot slot types i < argumentSlot slot types j := by
  induction types generalizing slot i j with
  | nil => simp at hi
  | cons t types ih =>
    have hwidth := t.width_pos
    cases j with
    | zero => exact absurd hij (Nat.not_lt_zero i)
    | succ j =>
      cases i with
      | zero => simp [argumentSlot]; omega
      | succ i =>
        have hrest := ih (Nat.lt_of_succ_lt_succ hij) (Nat.lt_of_succ_lt_succ hi) (slot + t.width)
        simpa [argumentSlot, Nat.add_assoc] using hrest

section Fits

variable {slot : Nat} {types : List Ty} (h : argumentSlot slot types types.length ≤ 65535)
include h

/-- Where all arguments fit, the numbers never begin again. -/
theorem getElem?_argumentSlots_of_le (i : Nat) :
    (argumentSlots slot types)[i]? = types[i]?.map fun t => (argumentSlot slot types i, t) := by
  have hsize : UInt16.size = 65536 := rfl
  have hslot : slot ≤ argumentSlot slot types types.length := Nat.le_add_right _ _
  rw [getElem?_argumentSlots (by omega)]
  cases hi : types[i]? with
  | none => rfl
  | some t =>
    have hlt := argumentSlot_lt (List.getElem?_eq_some_iff.mp hi).1
      (List.getElem?_eq_some_iff.mp hi).1 slot
    rw [Option.map_some, Option.map_some, Nat.mod_eq_of_lt (by omega)]

/-- Then the slots of the arguments ascend. -/
theorem pairwise_argumentSlots : ((argumentSlots slot types).map Prod.fst).Pairwise (· < ·) := by
  have hslots : (argumentSlots slot types).map Prod.fst =
      (List.range types.length).map (argumentSlot slot types) := by
    refine List.ext_getElem? fun i => ?_
    rw [List.getElem?_map, getElem?_argumentSlots_of_le h, Option.map_map, List.getElem?_map]
    by_cases hi : i < types.length
    · simp [hi]
    · simp [Nat.le_of_not_lt hi]
  rw [hslots, List.pairwise_map]
  exact List.pairwise_lt_range.imp_of_mem fun hi _ hlt =>
    argumentSlot_lt hlt (List.mem_range.mp hi) slot

end Fits

/-! ### Variables on entry -/

theorem table_foldl_bindArgument (arguments : List (Nat × Ty)) (locals : Locals) :
    (arguments.foldl bindArgument locals).table = locals.table := by
  induction arguments generalizing locals with
  | nil => rfl
  | cons a arguments ih => exact ih _

theorem get?_foldl_bindArgument_of_ne {arguments : List (Nat × Ty)} {slot : Nat}
    (h : ∀ a ∈ arguments, a.1 ≠ slot) (locals : Locals) :
    (arguments.foldl bindArgument locals).get? slot = locals.get? slot := by
  induction arguments generalizing locals with
  | nil => rfl
  | cons a arguments ih =>
    obtain ⟨ha, hrest⟩ := List.forall_mem_cons.mp h
    rw [List.foldl_cons, ih hrest, bindArgument, get?_bind_of_ne _ _ ha.symm]

/-- The variable of an argument: its declared type, and the name that its slot has on entry. -/
def argumentVariable (table : List TableName) (slot : Nat) (t : Ty) : LocalVariable :=
  { name := (tableName? table slot 0).getD ("arg" ++ Text.decimal slot), type := t.display }

/-- Binding arguments binds each of their slots, to the variable of an argument that has it. -/
theorem exists_get?_foldl_bindArgument {arguments : List (Nat × Ty)} {slot : Nat}
    (h : slot ∈ arguments.map Prod.fst) (locals : Locals) :
    ∃ t, (slot, t) ∈ arguments ∧ (arguments.foldl bindArgument locals).get? slot =
      some (argumentVariable locals.table slot t) := by
  induction arguments generalizing locals with
  | nil => simp at h
  | cons a arguments ih =>
    rw [List.foldl_cons]
    by_cases hlater : slot ∈ arguments.map Prod.fst
    · obtain ⟨t, ht, hbound⟩ := ih hlater (bindArgument locals a)
      exact ⟨t, List.mem_cons_of_mem _ ht, hbound⟩
    · -- no later argument has the slot
      obtain rfl : slot = a.1 := by simpa [hlater] using h
      refine ⟨a.2, List.mem_cons_self, ?_⟩
      have hne : ∀ b ∈ arguments, b.1 ≠ a.1 := fun b hb heq =>
        hlater (List.mem_map.mpr ⟨b, hb, heq⟩)
      rw [get?_foldl_bindArgument_of_ne hne]
      exact get?_bind_self ..

section OnEntry

variable (owner : String) (isStatic : Bool) (types : List Ty) (table : List TableName)

theorem table_onEntry : (onEntry owner isStatic types table).table = table :=
  table_foldl_bindArgument _ _

/-- **The slot of an argument** is bound, under the name of an argument with that slot. -/
theorem exists_get?_onEntry_of_mem {types : List Ty} {slot : Nat}
    (h : slot ∈ (argumentSlots (firstSlot isStatic) types).map Prod.fst) :
    ∃ t, (slot, t) ∈ argumentSlots (firstSlot isStatic) types ∧
      (onEntry owner isStatic types table).get? slot = some (argumentVariable table slot t) :=
  exists_get?_foldl_bindArgument h _

/-- Where all arguments fit, each has its own variable. -/
theorem get?_onEntry_of_mem {types : List Ty} {slot : Nat} {t : Ty}
    (hfits : argumentSlot (firstSlot isStatic) types types.length ≤ 65535)
    (h : (slot, t) ∈ argumentSlots (firstSlot isStatic) types) :
    (onEntry owner isStatic types table).get? slot = some (argumentVariable table slot t) := by
  obtain ⟨t', ht', hbound⟩ :=
    exists_get?_onEntry_of_mem owner isStatic table (List.mem_map_of_mem h)
  have hnodup := (pairwise_argumentSlots hfits).imp Nat.ne_of_lt
  obtain ⟨-, rfl⟩ := Prod.mk.inj (List.inj_on_of_nodup_map hnodup h ht' rfl)
  exact hbound

/-- The variable of the argument at a position. -/
theorem get?_onEntry_argument {types : List Ty} {i : Nat} {t : Ty}
    (hfits : argumentSlot (firstSlot isStatic) types types.length ≤ 65535)
    (h : types[i]? = some t) :
    (onEntry owner isStatic types table).get? (argumentSlot (firstSlot isStatic) types i) =
      some (argumentVariable table (argumentSlot (firstSlot isStatic) types i) t) := by
  refine get?_onEntry_of_mem _ _ _ hfits (List.mem_of_getElem? (i := i) ?_)
  rw [getElem?_argumentSlots_of_le hfits, h]
  rfl

/-- Other slots are not bound, except for that of the current object. -/
theorem get?_onEntry_eq_none {slot : Nat}
    (h : slot ∉ (argumentSlots (firstSlot isStatic) types).map Prod.fst)
    (hthis : slot = 0 → isStatic = true) :
    (onEntry owner isStatic types table).get? slot = none := by
  rw [onEntry, get?_foldl_bindArgument_of_ne]
  · cases isStatic with
    | true => rfl
    | false =>
      have hne : slot ≠ 0 := fun hzero => absurd (hthis hzero) Bool.false_ne_true
      simp [get?, List.lookup_cons, beq_eq_false_iff_ne.mpr hne]
  · intro a ha heq
    exact h (heq ▸ List.mem_map_of_mem ha)

end OnEntry

/-- Without a table, arguments are named after their slots, which are different. -/
theorem name_argumentVariable_injective {slot slot' : Nat} {t t' : Ty}
    (h : (argumentVariable [] slot t).name = (argumentVariable [] slot' t').name) : slot = slot' :=
  Text.decimal_injective (String.append_right_inj _ |>.mp h)

/-! ### Names from a table -/

/-- The row of a table with its name looked up. Both forms of the row cover the same offsets. -/
structure Names (pool : Pool) (e : LocalVariableEntry) (row : TableName) : Prop where
  slot_eq : e.slot.toNat = row.slot
  name : pool.utf8 e.name = .ok row.name
  covers_eq : ∀ slot pc, e.covers slot pc = (row.slot == slot &&
    (decide (row.startPc ≤ pc) && decide (pc < row.endPc)))

/-- Looking up the names of a table gives a row for each of its rows. -/
theorem names_of_tableNames {pool : Pool} {entries : List LocalVariableEntry}
    {names : List TableName} (h : tableNames pool entries = .ok names) :
    List.Forall₂ (Names pool) entries names := by
  refine (Result.mapM_eq_ok.mp h).imp fun e row hrow => ?_
  obtain ⟨name, hname, hrow⟩ := Result.bind_eq_ok.mp hrow
  obtain rfl := Result.pure_eq_ok.mp hrow
  exact ⟨rfl, hname, fun slot pc => Bool.and_assoc ..⟩

private theorem rel_or {α β : Type} {r : α → β → Prop} {a a' : Option α} {b b' : Option β}
    (h : Option.Rel r a b) (h' : Option.Rel r a' b') : Option.Rel r (a.or a') (b.or b') := by
  cases h with
  | some h => exact .some h
  | none => exact h'

private theorem exists_of_rel_some {α β : Type} {r : α → β → Prop} {a : α} {b : Option β}
    (h : Option.Rel r (some a) b) : ∃ c, b = some c ∧ r a c := by
  cases h with
  | some h => exact ⟨_, rfl, h⟩

/-- A row that is the first one of some kind is found in both forms of a table. -/
theorem rel_find?_of_names {pool : Pool} {entries : List LocalVariableEntry}
    {names : List TableName} (h : List.Forall₂ (Names pool) entries names)
    {p : LocalVariableEntry → Bool} {q : TableName → Bool}
    (hpq : ∀ e row, Names pool e row → p e = q row) :
    Option.Rel (Names pool) (entries.find? p) (names.find? q) := by
  induction h with
  | nil => exact .none
  | cons hrow _ ih =>
    rw [List.find?_cons, List.find?_cons, hpq _ _ hrow]
    split
    · exact .some hrow
    · exact ih

/-- **The name that a table gives for an offset** is that of the row that covers the offset, and if
there is none that of the first row of the slot. -/
theorem tableName?_of_find? {pool : Pool} {table : LocalVariableTable} {names : List TableName}
    {slot pc : Nat} {e : LocalVariableEntry} (hnames : tableNames pool table.entries = .ok names)
    (h : (table.find? slot pc).or (table.entries.find? (·.slot.toNat == slot)) = some e) :
    ∃ name, pool.utf8 e.name = .ok name ∧ tableName? names slot pc = some name := by
  have hrows := names_of_tableNames hnames
  have hcovers := rel_find?_of_names hrows fun e row hrow => hrow.covers_eq slot pc
  have hfirst := rel_find?_of_names hrows (p := (·.slot.toNat == slot)) (q := (·.slot == slot))
    fun e row hrow => by rw [hrow.slot_eq]
  have hfound := rel_or hcovers hfirst
  rw [← LocalVariableTable.find?, h] at hfound
  obtain ⟨row, hrow, hname⟩ := exists_of_rel_some hfound
  refine ⟨row.name, hname.name, ?_⟩
  simp only [tableName?, List.find?_filter, List.head?_filter, Bool.decide_and,
    Bool.decide_eq_true, hrow, Option.map_some]

end Locals

end JvmSource
