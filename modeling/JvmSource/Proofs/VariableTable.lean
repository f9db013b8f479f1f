import JvmSource.Proofs.Eval.Moment
import JvmSource.Proofs.Structure.Jump

/-!
# Names from the local variable table

The rows of a local variable table name a slot for ranges of the code, and several rows may name the
same slot. A method has one variable for a slot, though. It is named when it is bound: by the row
that covers the offset at which that happens (`Signature.bindingOffset`), or by the first row of the
slot if no row covers the offset. Every access to the slot shows that name, also one that another
row covers (`variables_named_where_bound`).

An argument is bound on entry, at offset 0, and any other slot at the first access to it in the
order of evaluation. That is the order of the blocks in the code, with blocks that are not kept left
out, so the first access in this order need not be the first one in a run of the method.

The argument follows a slot through the moments of an evaluation. What is bound at the start stays
bound (`Context.shows_of_mem_moments`), and what is not is named for its first access
(`Context.shows_newName_of_mem_moments`). Both kinds of names are looked up in the table in the same
way (`Locals.tableName?_of_find?`). The slot of the current object is an exception to all this: it
is named `this`, whatever a table says.
-/

namespace JvmSource

namespace Signature

/-- The blocks of a method that are evaluated, in order: those that are kept. -/
def evaluatedBlocks (o : Outline) : List Block :=
  ((o.blocks.zip (keptBlocks o.blocks)).filter Prod.snd).map Prod.fst

/-- The moments of the evaluation of a method, from the variables that it has on entry. -/
def moments (sig : Signature) (pool : Pool) (options : Options) (o : Outline) (locals : Locals) :
    List Moment :=
  Context.moments
    { owner := Name.dotted sig.owner, pool, graph := o.graph, recover := options.recoverUnderflow }
    (evaluatedBlocks o) { locals, objects := 0 }

/-- The offset at which a slot is bound: on entry if it is that of an argument, and else at the
first access to it. -/
def bindingOffset (sig : Signature) (type : MethodTy) (ms : List Moment) (slot : Nat) : Nat :=
  if slot ∈ (Locals.argumentSlots (Locals.firstSlot sig.flags.isStatic) type.arguments).map Prod.fst
  then 0
  else Moment.firstAccess ms slot

section

variable {sig : Signature} {c : Code} {pool : Pool} {options : Options} {text : String}

/-- If a method can be written out, there is a moment for each instruction of its blocks. -/
theorem covers_moments_of_body {table : Option LocalVariableTable}
    (h : sig.body c pool options = .ok text) (htable : c.tableFor pool options = .ok table) :
    ∃ o locals, c.outline pool = .ok o ∧ sig.locals table pool = .ok locals ∧
      Moment.Covers (sig.moments pool options o locals)
        ((evaluatedBlocks o).flatMap (·.body o.graph.code)) := by
  rw [body_eq] at h
  obtain ⟨o, houtline, h⟩ := Result.bind_eq_ok.mp h
  obtain ⟨lines, hlines, -⟩ := Result.bind_eq_ok.mp h
  obtain ⟨table', htable', hlines⟩ := Result.bind_eq_ok.mp hlines
  obtain rfl := Except.ok.inj (htable.symm.trans htable')
  obtain ⟨locals, hlocals, hlines⟩ := Result.bind_eq_ok.mp hlines
  exact ⟨o, locals, houtline, hlocals, Context.covers_moments hlines⟩

/-- The variables on entry to a method with a table: the rows of the table come with their names. -/
theorem locals_some_eq_ok {table : LocalVariableTable} {locals : Locals}
    (h : sig.locals (some table) pool = .ok locals) :
    ∃ type names, MethodTy.ofDescriptor sig.descriptor = .ok type ∧
      Locals.tableNames pool table.entries = .ok names ∧
      locals = Locals.onEntry sig.owner sig.flags.isStatic type.arguments names := by
  obtain ⟨type, htype, h⟩ := Result.bind_eq_ok.mp h
  obtain ⟨names, hnames, h⟩ := Result.bind_eq_ok.mp h
  exact ⟨type, names, htype, hnames, (Result.pure_eq_ok.mp h).symm⟩

end

end Signature

open Signature in
/-- **Variables are named where they are bound.** If a method is written out with its local variable
table, then each instruction of its blocks has been evaluated, and every access to a slot, other
than that of the current object, shows one name for the whole method: that of the row that covers
the offset at which the slot is bound, or of the first row for the slot if no row covers it. -/
theorem variables_named_where_bound {sig : Signature} {c : Code} {pool : Pool} {options : Options}
    {text : String} {table : LocalVariableTable} (h : sig.body c pool options = .ok text)
    (huse : options.useVariableTable = true)
    (htable : c.localVariableTable pool = .ok (some table)) :
    ∃ o type locals, c.outline pool = .ok o ∧ MethodTy.ofDescriptor sig.descriptor = .ok type ∧
      sig.locals (some table) pool = .ok locals ∧
      Moment.Covers (sig.moments pool options o locals)
        ((evaluatedBlocks o).flatMap (·.body o.graph.code)) ∧
      ∀ m ∈ sig.moments pool options o locals, ∀ slot, m.slot? = some slot →
        (slot = 0 → sig.flags.isStatic = true) →
        ∃ after name, m.next.2 = .ok after ∧ m.Shows after name ∧
          ∀ e, (table.find? slot
              (sig.bindingOffset type (sig.moments pool options o locals) slot)).or
                (table.entries.find? (·.slot.toNat == slot)) = some e →
            pool.utf8 e.name = .ok name := by
  have htable' : c.tableFor pool options = .ok (some table) := by
    rw [Code.tableFor, huse, if_pos rfl, htable]
  obtain ⟨o, locals, houtline, hlocals, hcovers⟩ := covers_moments_of_body h htable'
  obtain ⟨type, names, htype, hnames, rfl⟩ := locals_some_eq_ok hlocals
  refine ⟨o, type, _, houtline, htype, hlocals, hcovers, ?_⟩
  intro m hm slot hslot hthis
  obtain ⟨after, hafter⟩ := hcovers.isOk m hm
  rw [bindingOffset]
  split
  · next hmem =>
    -- an argument is bound on entry, under the name that the table has for offset 0
    obtain ⟨t, -, hv⟩ :=
      Locals.exists_get?_onEntry_of_mem sig.owner sig.flags.isStatic names hmem
    refine ⟨after, _, hafter, Context.shows_of_mem_moments hv hm hslot hafter, ?_⟩
    intro e he
    obtain ⟨name, hname, hrow⟩ := Locals.tableName?_of_find? hnames he
    rw [Locals.argumentVariable, hrow]
    exact hname
  · next hmem =>
    -- another slot is bound by the first access to it, since all of them succeed
    have hnone := Locals.get?_onEntry_eq_none sig.owner sig.flags.isStatic type.arguments names
      hmem hthis
    have hshows := Context.shows_newName_of_mem_moments hnone hcovers.isOk hm hslot hafter
    rw [Locals.table_onEntry] at hshows
    refine ⟨after, _, hafter, hshows, ?_⟩
    intro e he
    obtain ⟨name, hname, hrow⟩ := Locals.tableName?_of_find? hnames he
    rw [Signature.moments] at hrow
    rw [Locals.newName, hrow]
    exact hname

/-- Two stores to a slot for which the table has two rows, none of which covers the first store. The
slot is named by the first row, though the second one covers the second store. -/
theorem variables_named_where_bound_of_two_rows :
    let table := LocalVariableTable.ofEntries [⟨5, 1, 2, 4, 0⟩, ⟨4, 1, 3, 4, 0⟩]
    let pool : Pool := ⟨#[.utf8 "LocalVariableTable", .utf8 "a", .utf8 "b", .utf8 "I"]⟩
    let c := Code.ofParts 1 1 [0x04, 0x3b, 0x05, 0x3b, 0xb1] [] [table.toAttribute 1]
    let sig : Signature := ⟨"A", ⟨8⟩, "m", "()V"⟩
    ∃ o type locals, c.outline pool = .ok o ∧ MethodTy.ofDescriptor sig.descriptor = .ok type ∧
      sig.locals (some table) pool = .ok locals ∧
      (sig.moments pool {} o locals).filterMap Moment.slot? = [0, 0] ∧
      table.find? 0 (sig.bindingOffset type (sig.moments pool {} o locals) 0) = none ∧
      ∀ m ∈ sig.moments pool {} o locals, m.slot? = some 0 →
        ∃ after, m.next.2 = .ok after ∧ m.Shows after "a" := by
  intro table pool c sig
  have hok : (sig.body c pool {}).isOk = true := by decide +kernel
  have htable : c.localVariableTable pool = .ok (some table) := by decide +kernel
  have hfind : (c.outline pool >>= fun o => MethodTy.ofDescriptor sig.descriptor >>= fun type =>
      sig.locals (some table) pool >>= fun locals =>
      .ok ((sig.moments pool {} o locals).filterMap Moment.slot?,
        table.find? 0 (sig.bindingOffset type (sig.moments pool {} o locals) 0))) =
      .ok ([0, 0], none) := by
    decide +kernel
  have hname : pool.utf8 2 = .ok "a" := by decide +kernel
  have hstatic : sig.flags.isStatic = true := by decide +kernel
  obtain ⟨text, h⟩ := Result.exists_of_isOk hok
  obtain ⟨o, type, locals, houtline, htype, hlocals, -, hnamed⟩ :=
    variables_named_where_bound h rfl htable
  rw [houtline, htype, hlocals] at hfind
  obtain ⟨hslots, hfind⟩ := Prod.mk.inj (Except.ok.inj hfind)
  refine ⟨o, type, locals, houtline, htype, hlocals, hslots, hfind, ?_⟩
  intro m hm hslot
  obtain ⟨after, name, hafter, hshows, hrow⟩ := hnamed m hm 0 hslot fun _ => hstatic
  obtain rfl := Except.ok.inj (hname.symm.trans (hrow _ (by rw [hfind]; rfl)))
  exact ⟨after, hafter, hshows⟩

/-- The row that covers a store may name another variable than the store shows. -/
theorem name_not_of_covering_row :
    let table := LocalVariableTable.ofEntries [⟨2, 1, 2, 4, 0⟩, ⟨4, 1, 3, 4, 0⟩]
    let pool : Pool := ⟨#[.utf8 "LocalVariableTable", .utf8 "a", .utf8 "b", .utf8 "I"]⟩
    let c := Code.ofParts 1 1 [0x04, 0x3b, 0x05, 0x3b, 0xb1] [] [table.toAttribute 1]
    let sig : Signature := ⟨"A", ⟨8⟩, "m", "()V"⟩
    ∃ o locals m after,
      sig.body c pool {} = .ok ("\x7b\n\t/*  1 */ a = 1;\n\t/*  3 */ a = 2;\n" ++
        "\t/*  4 */ return;\n\x7d") ∧
      c.localVariableTable pool = .ok (some table) ∧ c.outline pool = .ok o ∧
      sig.locals (some table) pool = .ok locals ∧
      m ∈ sig.moments pool {} o locals ∧ m.slot? = some 0 ∧
      table.find? 0 m.site.instr.accessOffset = some ⟨4, 1, 3, 4, 0⟩ ∧
      pool.utf8 3 = .ok "b" ∧ m.next.2 = .ok after ∧ ¬ m.Shows after "b" := by
  intro table pool c sig
  have hmoment : (c.outline pool >>= fun o => sig.locals (some table) pool >>= fun locals =>
      .ok (((sig.moments pool {} o locals)[3]?).map fun m =>
        (m.slot?, m.site.instr.operation, m.site.instr.accessOffset, m.site.position))) =
      .ok (some (some 0, .store (some .int) (some 0), 4, 3)) := by
    decide +kernel
  have hnext : (c.outline pool >>= fun o => sig.locals (some table) pool >>= fun locals =>
      .ok (((sig.moments pool {} o locals)[3]?).map fun m => m.next.2.map (·.lines))) =
      .ok (some (.ok [none, some "a = 1;", none, some "a = 2;", none])) := by
    decide +kernel
  obtain ⟨o, houtline, h⟩ := Result.bind_eq_ok.mp hmoment
  obtain ⟨locals, hlocals, h⟩ := Result.bind_eq_ok.mp h
  obtain ⟨m, hm, h⟩ := Option.map_eq_some_iff.mp (Except.ok.inj h)
  simp only [Prod.mk.injEq] at h
  obtain ⟨hslot, hstore, hoffset, hposition⟩ := h
  rw [houtline, hlocals] at hnext
  obtain ⟨m', hm', hnext⟩ := Option.map_eq_some_iff.mp (Except.ok.inj hnext)
  obtain rfl := Option.some.inj (hm.symm.trans hm')
  obtain ⟨after, hafter, hlines⟩ := Result.map_eq_ok.mp hnext
  refine ⟨o, locals, m, after, by decide +kernel, by decide +kernel, houtline, hlocals,
    List.mem_of_getElem? hm, hslot, ?_, by decide +kernel, hafter, ?_⟩
  · rw [hoffset]
    decide +kernel
  · rw [Moment.Shows, hstore]
    rintro ⟨type, text, -, hline⟩
    rw [hposition, hlines] at hline
    have hfirst := congrArg String.toList (Option.some.inj (Option.some.inj hline))
    simp at hfirst

end JvmSource
