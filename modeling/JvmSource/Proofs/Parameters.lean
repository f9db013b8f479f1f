import JvmSource.Proofs.Eval.Moment
import JvmSource.Signature

/-!
# Parameters in the header and in the body

The header of a method lists its parameters, and its body shows them wherever their slots are
accessed. Both take them from the variables on entry (`Signature.argumentVariables`): the header
looks up one slot for each argument (`Signature.parameters_onEntry`), and the evaluation never
changes what a slot is bound to. So a parameter has one type and one name throughout
(`parameters_agree`).

This needs that all arguments fit into the slots of two bytes. The slots are counted on from the
first one by the widths of the types, and only where the count does not begin again has each
argument a slot of its own. A method that can be called has far fewer arguments than that.

Without a table the parameters are named after their slots, and since the slots are different the
names are. With a table they are named by its rows, and nothing keeps two rows from having one name.
-/

namespace JvmSource

namespace Signature

/-- The variables of the arguments of a method, in order, each under the name for its slot on
entry. -/
def argumentVariables (sig : Signature) (types : List Ty) (names : List TableName) :
    List LocalVariable :=
  (Locals.argumentSlots (Locals.firstSlot sig.flags.isStatic) types).map fun (slot, t) =>
    Locals.argumentVariable names slot t

/-- The header of a method that is not a class initialiser, with the given parameters. A constructor
is named after its class and has no result. -/
def headerText (sig : Signature) (result : Ty) (parameters : List LocalVariable) : String :=
  let named :=
    if sig.name = "<init>" then Name.simple sig.owner else result.display ++ " " ++ sig.name
  let shown := parameters.map fun v => v.type ++ " " ++ v.name
  " ".intercalate (sig.flags.methodKeywords ++ [named ++ "(" ++ ", ".intercalate shown ++ ")"])

variable {sig : Signature} {table : Option LocalVariableTable} {pool : Pool} {type : MethodTy}
  {types : List Ty} {names : List TableName} {i : Nat} {v : LocalVariable}

/-- The slot of the argument at a position. The current object takes the first slot if there is
one. -/
abbrev argumentSlot (sig : Signature) (types : List Ty) (i : Nat) : Nat :=
  Locals.argumentSlot (Locals.firstSlot sig.flags.isStatic) types i

/-- The types of the parameters are those of the arguments. -/
theorem map_type_argumentVariables (sig : Signature) (types : List Ty) (names : List TableName) :
    (sig.argumentVariables types names).map (·.type) = types.map Ty.display := by
  conv_rhs => rw [← Locals.map_snd_argumentSlots (Locals.firstSlot sig.flags.isStatic) types]
  rw [argumentVariables, List.map_map, List.map_map]
  rfl

section Fits

variable (hfits : sig.argumentSlot types types.length ≤ 65535)
include hfits

/-- The variable of an argument, found from the position of the argument. -/
theorem getElem?_argumentVariables (names : List TableName) (i : Nat) :
    (sig.argumentVariables types names)[i]? =
      types[i]?.map (Locals.argumentVariable names (sig.argumentSlot types i)) := by
  rw [argumentVariables, List.getElem?_map, Locals.getElem?_argumentSlots_of_le hfits,
    Option.map_map]
  rfl

/-- Without a table, no two parameters have the same name: their slots ascend. -/
theorem nodup_argumentVariables : ((sig.argumentVariables types []).map (·.name)).Nodup := by
  have hslots := List.pairwise_map.mp (Locals.pairwise_argumentSlots hfits)
  rw [argumentVariables, List.map_map, List.Nodup, List.pairwise_map]
  refine hslots.imp fun hlt hname => ?_
  exact Nat.ne_of_lt hlt (Locals.name_argumentVariable_injective hname)

/-- Each parameter is bound to the slot of its argument on entry. -/
theorem get?_onEntry_argumentSlot (hv : (sig.argumentVariables types names)[i]? = some v) :
    (Locals.onEntry sig.owner sig.flags.isStatic types names).get? (sig.argumentSlot types i) =
      some v := by
  rw [getElem?_argumentVariables hfits, Option.map_eq_some_iff] at hv
  obtain ⟨t, ht, rfl⟩ := hv
  exact Locals.get?_onEntry_argument _ _ _ hfits ht

/-- **The parameters of the header** are the variables of the arguments. -/
theorem parameters_onEntry (names : List TableName) :
    sig.parameters (Locals.onEntry sig.owner sig.flags.isStatic types names) types =
      .ok ((sig.argumentVariables types names).map fun v => v.type ++ " " ++ v.name) := by
  rw [parameters, argumentVariables, List.map_map]
  refine Result.mapM_eq_ok_map fun (slot, t) hargument => ?_
  have hbound := Locals.get?_onEntry_of_mem sig.owner sig.flags.isStatic names hfits hargument
  rw [Locals.require_eq_ok.mpr hbound]
  rfl

end Fits

/-- If the names of a table are in the pool, the variables on entry are known. Without a table there
is nothing to be looked up. -/
theorem exists_locals (htype : MethodTy.ofDescriptor sig.descriptor = .ok type)
    (hnames : ∀ t ∈ table, ∀ e ∈ t.entries, ∃ name, pool.utf8 e.name = .ok name) :
    ∃ names, (table = none → names = []) ∧ sig.locals table pool =
      .ok (Locals.onEntry sig.owner sig.flags.isStatic type.arguments names) := by
  cases table with
  | none =>
    refine ⟨[], fun _ => rfl, ?_⟩
    rw [locals, htype]
    rfl
  | some t =>
    have hrows : ∃ names, Locals.tableNames pool t.entries = .ok names := by
      refine Result.exists_mapM_eq_ok fun e he => ?_
      obtain ⟨name, hname⟩ := hnames t rfl e he
      exact ⟨_, Result.bind_eq_ok.mpr ⟨name, hname, rfl⟩⟩
    obtain ⟨names, hrows⟩ := hrows
    refine ⟨names, fun h => absurd h (Option.some_ne_none t), ?_⟩
    rw [locals, htype]
    change (Locals.tableNames pool t.entries >>= _) = _
    rw [hrows]
    rfl

/-- The header of a method whose variables on entry are known. -/
theorem header_eq_ok (hname : sig.name ≠ "<clinit>")
    (hfits : sig.argumentSlot type.arguments type.arguments.length ≤ 65535)
    (htype : MethodTy.ofDescriptor sig.descriptor = .ok type)
    (hlocals : sig.locals table pool =
      .ok (Locals.onEntry sig.owner sig.flags.isStatic type.arguments names)) :
    sig.header table pool =
      .ok (sig.headerText type.result (sig.argumentVariables type.arguments names)) := by
  rw [header, if_neg hname, htype, hlocals]
  change (sig.parameters _ type.arguments >>= _) = _
  rw [parameters_onEntry hfits]
  rfl

end Signature

open Signature in
/-- **Parameters agree.** If the descriptor of a method can be read and the names of its table are
in the pool, then the method has a header. Its parameters have the types of the arguments, in order,
and the names that the slots of the arguments are bound to on entry. However blocks are evaluated
from there, these slots stay bound to the same variables, as every slot does once it is bound, and
every access to them shows the same names. Without a table the names are all different. -/
theorem parameters_agree {sig : Signature} {table : Option LocalVariableTable} {pool : Pool}
    {type : MethodTy} (htype : MethodTy.ofDescriptor sig.descriptor = .ok type)
    (hslots : sig.argumentSlot type.arguments type.arguments.length ≤ 65535)
    (hnames : ∀ t ∈ table, ∀ e ∈ t.entries, ∃ name, pool.utf8 e.name = .ok name) :
    ∃ locals vs, sig.locals table pool = .ok locals ∧
      (sig.name = "<clinit>" → sig.header table pool = .ok "static") ∧
      (sig.name ≠ "<clinit>" → sig.header table pool = .ok (sig.headerText type.result vs)) ∧
      vs.map (·.type) = type.arguments.map Ty.display ∧
      (table = none → (vs.map (·.name)).Nodup) ∧
      (∀ i v, vs[i]? = some v → sig.argumentSlot type.arguments i < UInt16.size ∧
        locals.get? (sig.argumentSlot type.arguments i) = some v ∧
        ∀ (ctx : Context) blocks objects, ∀ m ∈ ctx.moments blocks ⟨locals, objects⟩,
          m.locals.get? (sig.argumentSlot type.arguments i) = some v ∧
          (m.slot? = some (sig.argumentSlot type.arguments i) → ∀ after, m.next.2 = .ok after →
            m.Shows after v.name)) ∧
      ∀ (m : Moment) slot v, m.locals.get? slot = some v → m.next.1.get? slot = some v := by
  obtain ⟨names, hempty, hlocals⟩ := exists_locals htype hnames
  refine ⟨_, sig.argumentVariables type.arguments names, hlocals, ?_,
    fun hname => header_eq_ok hname hslots htype hlocals, map_type_argumentVariables .., ?_, ?_,
    fun m slot v => Moment.get?_next_of_eq_some⟩
  · intro hname
    rw [header, if_pos hname]
    rfl
  · intro hnone
    rw [hempty hnone]
    exact nodup_argumentVariables hslots
  · intro i v hv
    have hbound := get?_onEntry_argumentSlot hslots hv
    refine ⟨?_, hbound, fun ctx blocks objects m hm => ⟨Context.get?_of_mem_moments hbound hm, ?_⟩⟩
    · rw [getElem?_argumentVariables hslots, Option.map_eq_some_iff] at hv
      obtain ⟨t, ht, -⟩ := hv
      have hi := (List.getElem?_eq_some_iff.mp ht).1
      have hlt := Locals.argumentSlot_lt hi hi (Locals.firstSlot sig.flags.isStatic)
      exact Nat.lt_succ_of_lt (Nat.lt_of_lt_of_le hlt hslots)
    · intro hslot after hafter
      exact Context.shows_of_mem_moments hbound hm hslot hafter

/-- A method of an object, with a wide argument in front of one that the table names. -/
theorem parameters_agree_of_wide_argument :
    let sig : Signature := ⟨"A", ⟨0⟩, "m", "(JI)V"⟩
    let table := LocalVariableTable.ofEntries [⟨0, 9, 1, 2, 3⟩]
    let pool : Pool := ⟨#[.utf8 "size", .utf8 "I"]⟩
    sig.header (some table) pool = .ok "void m(long arg1, int size)" ∧
      ∃ locals, sig.locals (some table) pool = .ok locals ∧
        ∀ (ctx : Context) blocks objects, ∀ m ∈ ctx.moments blocks ⟨locals, objects⟩,
          m.slot? = some 3 → ∀ after, m.next.2 = .ok after → m.Shows after "size" := by
  intro sig table pool
  have htype : MethodTy.ofDescriptor sig.descriptor = .ok ⟨[.long, .int], .void⟩ := by
    decide +kernel
  have hnames : ∀ t ∈ some table, ∀ e ∈ t.entries, ∃ name, pool.utf8 e.name = .ok name := by
    intro t ht e he
    obtain rfl := Option.some.inj ht
    obtain rfl := List.mem_singleton.mp he
    exact ⟨"size", by decide +kernel⟩
  obtain ⟨locals, vs, hlocals, -, -, htypes, -, hvs, -⟩ :=
    parameters_agree htype (by decide) hnames
  refine ⟨by decide +kernel, locals, hlocals, ?_⟩
  have hlength : 1 < vs.length := by
    have hlength := congrArg List.length htypes
    simp at hlength
    omega
  obtain ⟨-, hbound, hruns⟩ := hvs 1 vs[1] (List.getElem?_eq_getElem hlength)
  have hslot : sig.argumentSlot [.long, .int] 1 = 3 := by decide
  rw [hslot] at hbound hruns
  have hsize : (sig.locals (some table) pool).map (·.get? 3) = .ok (some ⟨"size", "int"⟩) := by
    decide +kernel
  rw [hlocals] at hsize
  have hv : vs[1] = ⟨"size", "int"⟩ := Option.some.inj (hbound.symm.trans (Except.ok.inj hsize))
  rw [hv] at hruns
  intro ctx blocks objects m hm
  exact (hruns ctx blocks objects m hm).2

end JvmSource
