import JvmSource.Proofs.Flow.Bounds
import JvmSource.Proofs.Structure.Jump

/-!
# The order of the exception table

The entries of an exception table may stand in any order, as long as those with one handler keep
theirs: the text of the method does not change (`table_order_irrelevant`). The order of entries with
one handler matters, since it is the order in which the caught types are listed.

The regions of the reordered table are the regions of the table in another order
(`Code.exists_regions_reordered`): an entry is resolved by itself, and two regions have the same
handler exactly if their entries name the same offset. From there the proof goes through the passes.

* A graph is built from what the regions have in common as a set, so that only the list of regions
  itself is different in it (`Graph.build_reordered`).
* The check of the graph goes through all regions whatever their order is
  (`Graph.validate_reordered`).
* Behind that the regions are only read for the types that a handler catches, in the order of its
  own regions (`Graph.caughtAt_reordered`).

So all passes behind do the same with the other regions: each has a lemma about `withRegions`, with
an induction where the pass has a recursion. An equivalence is obtained in the end because the
relation between the two tables goes both ways.
-/

namespace JvmSource

/-! ### Regions in another order -/

/-- Two lists of regions are the same up to the order of regions with different handlers: they have
the same regions, and those of each handler stand in the same order. -/
structure Region.Reordered (rs rs' : List Region) : Prop where
  perm : rs.Perm rs'
  filter_eq : ∀ i, rs.filter (·.handler == i) = rs'.filter (·.handler == i)

/-- The handlers of two entries are the same exactly if the entries name the same offset. -/
theorem Region.Resolves.handler_eq_iff {code : List Instruction} (hcode : Sequential 0 0 code)
    {size : Nat} {pool : Pool} {entry entry' : ExceptionEntry} {r r' : Region}
    (h : r.Resolves code size pool entry) (h' : r'.Resolves code size pool entry') :
    r.handler = r'.handler ↔ entry.handlerPc = entry'.handlerPc := by
  obtain ⟨a, ha, hoffset⟩ := h.handler_spec
  obtain ⟨a', ha', hoffset'⟩ := h'.handler_spec
  constructor
  · intro heq
    rw [heq, ha', Option.some.injEq] at ha
    rw [← UInt16.toNat_inj, ← hoffset, ← hoffset', ha]
  · intro heq
    rw [heq, ← hoffset'] at hoffset
    rcases Nat.lt_trichotomy r.handler r'.handler with hlt | heq | hgt
    · exact absurd hoffset (Nat.ne_of_lt (hcode.offset_lt hlt ha ha'))
    · exact heq
    · exact absurd hoffset.symm (Nat.ne_of_lt (hcode.offset_lt hgt ha' ha))

/-- **The regions of a reordered table** are found if those of the table are, and are the same but
for their order. -/
theorem Code.exists_regions_reordered {c : Code} {es : List ExceptionEntry} {pool : Pool}
    {code : List Instruction} {rs : List Region} (hcode : Sequential 0 0 code)
    (hperm : es.Perm c.exceptions)
    (horder : ∀ pc, es.filter (·.handlerPc == pc) = c.exceptions.filter (·.handlerPc == pc))
    (h : c.regions code pool = .ok rs) :
    ∃ rs', Code.regions { c with exceptions := es } code pool = .ok rs' ∧
      Region.Reordered rs rs' := by
  -- entries are resolved one by one, by a function
  have hall : ∀ entry, ∃ r, entry ∈ c.exceptions →
      Region.ofEntry code c.code.length pool entry = .ok r := by
    intro entry
    by_cases hentry : entry ∈ c.exceptions
    · obtain ⟨r, hr⟩ := Result.exists_of_mem_of_mapM h hentry
      exact ⟨r, fun _ => hr⟩
    · exact ⟨⟨0, 0, 0, ""⟩, fun hmem => absurd hmem hentry⟩
  choose resolve hresolve using hall
  have hresolves : ∀ entry ∈ c.exceptions,
      (resolve entry).Resolves code c.code.length pool entry :=
    fun entry hentry => Region.resolves_of_ofEntry hcode (hresolve entry hentry)
  obtain rfl : rs = c.exceptions.map resolve :=
    Except.ok.inj (h.symm.trans (Result.mapM_eq_ok_map hresolve))
  refine ⟨es.map resolve, ?_, (hperm.map resolve).symm, fun i => ?_⟩
  · exact Result.mapM_eq_ok_map fun entry hentry => hresolve entry (hperm.mem_iff.mp hentry)
  · rw [List.filter_map, List.filter_map]
    congr 1
    by_cases hi : ∃ entry ∈ c.exceptions, (resolve entry).handler = i
    · -- the regions with the handler `i` are those of the entries with one offset
      obtain ⟨entry, hentry, rfl⟩ := hi
      have hsame : ∀ entry' ∈ c.exceptions,
          ((·.handler == (resolve entry).handler) ∘ resolve) entry' =
            (entry'.handlerPc == entry.handlerPc) := by
        intro entry' hentry'
        rw [Function.comp_apply, beq_eq_beq]
        exact (hresolves entry' hentry').handler_eq_iff hcode (hresolves entry hentry)
      rw [List.filter_congr hsame,
        List.filter_congr fun entry' hentry' => hsame entry' (hperm.mem_iff.mp hentry'), horder]
    · have hnone : ∀ entry ∈ c.exceptions, ¬ ((·.handler == i) ∘ resolve) entry = true := by
        intro entry hentry heq
        exact hi ⟨entry, hentry, by simpa using heq⟩
      rw [List.filter_eq_nil_iff.mpr hnone, List.filter_eq_nil_iff.mpr
        fun entry hentry => hnone entry (hperm.mem_iff.mp hentry)]

/-! ### The graph -/

namespace Graph

variable {g : Graph} {rs rs' : List Region}

/-- **The graph of regions in another order** is the same but for the list of regions. -/
theorem build_reordered {code : List Instruction} (hrs : Region.Reordered rs rs')
    (h : build code rs = .ok g) : build code rs' = .ok (g.withRegions rs') := by
  rw [build_of_mem_iff (fun r => hrs.perm.symm.mem_iff) code, h]
  rfl

/-- The check of a graph goes through its regions in any order. Which region it fails at may change,
but not whether it fails. -/
theorem validate_reordered (hrs : Region.Reordered g.regions rs') (h : g.validate = .ok ()) :
    (g.withRegions rs').validate = .ok () := by
  obtain ⟨_, hreach, hhandlers⟩ := Result.bind_eq_ok.mp h
  refine Result.bind_eq_ok.mpr ⟨(), hreach, Result.forM_eq_ok.mpr fun r hr => ?_⟩
  exact Result.forM_eq_ok.mp hhandlers r (hrs.perm.mem_iff.mpr hr)

/-- What a handler catches depends on its own regions only. -/
theorem caughtAt_reordered (hrs : Region.Reordered g.regions rs') (i : Nat) :
    (g.withRegions rs').caughtAt i = g.caughtAt i := by
  rw [caughtAt, caughtAt, withRegions, hrs.filter_eq i]

/-- The blocks are the same, with the same types for their handlers. -/
theorem blocks_reordered (hrs : Region.Reordered g.regions rs') :
    (g.withRegions rs').blocks = g.blocks := by
  have hbetween (start stop : Nat) :
      (g.withRegions rs').blockBetween start stop = g.blockBetween start stop := by
    rw [blockBetween, blockBetween, caughtAt_reordered hrs]
    rfl
  simp only [blocks, hbetween]
  rfl

/-- The search for loops does not look at the regions. -/
theorem loops_withRegions (g : Graph) (rs : List Region) : (g.withRegions rs).loops = g.loops := by
  have hbelow (n resume : Nat) (starts : List Nat) :
      (g.withRegions rs).findLoops n resume starts = g.findLoops n resume starts := by
    induction n generalizing resume starts with
    | zero => rfl
    | succ last ih =>
      simp only [findLoops, ih]
      rfl
  exact hbelow _ _ _

end Graph

/-- **The graph of a reordered table** is that of the table with the other regions. -/
theorem Code.exists_graph_reordered {c : Code} {es : List ExceptionEntry} {pool : Pool} {g : Graph}
    (hperm : es.Perm c.exceptions)
    (horder : ∀ pc, es.filter (·.handlerPc == pc) = c.exceptions.filter (·.handlerPc == pc))
    (h : c.graph pool = .ok g) :
    ∃ rs', Code.graph { c with exceptions := es } pool = .ok (g.withRegions rs') ∧
      Region.Reordered g.regions rs' := by
  obtain ⟨rs, hdecode, hregions, hcode, hbuild, hvalid⟩ := Code.graph_eq_ok h
  obtain ⟨rs', hregions', hrs⟩ := Code.exists_regions_reordered hcode hperm horder hregions
  obtain ⟨-, -, -, -, hg, -⟩ := Graph.build_eq_ok hbuild
  rw [← hg] at hrs
  have hbuild' := Graph.build_reordered (hg ▸ hrs) hbuild
  refine ⟨rs', ?_, hrs⟩
  exact Result.bind_eq_ok.mpr ⟨g.code, hdecode, Result.bind_eq_ok.mpr ⟨rs', hregions',
    Result.bind_eq_ok.mpr ⟨_, hbuild', Result.bind_eq_ok.mpr
      ⟨(), Graph.validate_reordered hrs hvalid, rfl⟩⟩⟩⟩

/-! ### Order and scopes -/

/-- The outline with other regions, all else being the same. -/
def Outline.withRegions (o : Outline) (rs : List Region) : Outline :=
  { o with graph := o.graph.withRegions rs }

namespace Outline

variable (o : Outline) (rs : List Region)

theorem blockAt?_withRegions (index : Nat) : (o.withRegions rs).blockAt? index = o.blockAt? index :=
  rfl

/-- Putting the parts of a range in order does not look at the regions. The induction follows the
recursion. -/
theorem emit_withRegions (kept : List Bool) (pending : List (Nat × Loop)) (index stop : Nat) :
    (o.withRegions rs).emit kept pending index stop = o.emit kept pending index stop := by
  induction pending, index, stop using emit.induct (o := o) with
  | case1 pending index stop hindex number loop rest htake hlast =>
    rw [emit_of_takeLoop?_eq_some hindex htake, emit_of_takeLoop?_eq_some hindex htake,
      if_pos hlast, if_pos hlast]
  | case2 pending index stop hindex number loop rest htake hlast ihfront ihback ihbehind =>
    rw [emit_of_takeLoop?_eq_some hindex htake, emit_of_takeLoop?_eq_some hindex htake,
      if_neg hlast, if_neg hlast, ihfront]
    simp only [ihback, ihbehind]
    rfl
  | case3 pending index stop hindex htake hblock =>
    rw [emit_of_takeLoop?_eq_none hindex htake, emit_of_takeLoop?_eq_none hindex htake,
      blockAt?_withRegions, hblock]
  | case4 pending index stop hindex htake number b hb hlt ih =>
    rw [emit_of_takeLoop?_eq_none hindex htake, emit_of_takeLoop?_eq_none hindex htake,
      blockAt?_withRegions, hb]
    simp only [ih]
  | case5 pending index stop hindex htake number b hb hle =>
    rw [emit_of_takeLoop?_eq_none hindex htake, emit_of_takeLoop?_eq_none hindex htake,
      blockAt?_withRegions, hb]
    simp only [if_neg hle]
  | case6 pending index stop hindex => rw [emit, emit, dif_neg hindex, dif_neg hindex]

theorem items_withRegions : (o.withRegions rs).items = o.items := by
  rw [items, items]
  exact congrArg (fun r => do return (← r).items)
    (o.emit_withRegions rs (keptBlocks o.blocks) o.numberedLoops 0 o.graph.code.length)

theorem nest_withRegions (items : List Item) : (o.withRegions rs).nest items = o.nest items := by
  have hfrom (k : Nat) (rest : List Item) (n : Nesting) :
      (o.withRegions rs).visitFrom items k rest n = o.visitFrom items k rest n := by
    induction rest generalizing k n with
    | nil => rfl
    | cons item rest ih =>
      simp only [visitFrom, ih]
      rfl
  exact hfrom 0 items _

theorem rowsFrom_withRegions (options : Options) (lines : List (List (Option String)))
    (scopes : List Scope) (k : Nat) (items : List Item) :
    (o.withRegions rs).rowsFrom options lines scopes k items =
      o.rowsFrom options lines scopes k items := by
  induction items generalizing k with
  | nil => rfl
  | cons item rest ih =>
    simp only [rowsFrom, ih]
    rfl

theorem body_withRegions (options : Options) (lines : List (List (Option String))) :
    (o.withRegions rs).body options lines = o.body options lines := by
  simp only [body, rows, items_withRegions, nest_withRegions, rowsFrom_withRegions]

end Outline

/-! ### Evaluation -/

/-- The context with other regions, all else being the same. -/
def Context.withRegions (ctx : Context) (rs : List Region) : Context :=
  { ctx with graph := ctx.graph.withRegions rs }

namespace Context

variable (ctx : Context) (rs : List Region)

theorem runFrom_withRegions (body : List Instruction) (position : Nat) (rest : List Instruction)
    (locals : Locals) (frame : Frame) :
    (ctx.withRegions rs).runFrom body position rest locals frame =
      ctx.runFrom body position rest locals frame := by
  induction rest generalizing position locals frame with
  | nil => rfl
  | cons instr rest ih =>
    have hstep :
        Site.step { context := ctx.withRegions rs, body, position, instr } locals frame =
          Site.step { context := ctx, body, position, instr } locals frame := rfl
    simp only [runFrom, hstep, ih]

/-- The evaluation of the blocks does not look at the regions. -/
theorem evaluateAll_withRegions (blocks : List (Block × Bool)) (state : MethodState) :
    (ctx.withRegions rs).evaluateAll blocks state = ctx.evaluateAll blocks state := by
  have hevaluate (block : Block) (state : MethodState) :
      (ctx.withRegions rs).evaluate block state = ctx.evaluate block state := by
    simp only [evaluate, runFrom_withRegions]
    rfl
  fun_induction evaluateAll ctx blocks state with
  | case1 => rfl
  | case2 block rest state ih => rw [evaluateAll, ih]
  | case3 block rest state state' e he => rw [evaluateAll, hevaluate, he]
  | case4 block rest state state' lines hlines ih =>
    rw [evaluateAll, hevaluate, hlines]
    dsimp only
    rw [ih]

end Context

/-! ### The text of a method -/

theorem Signature.blockLines_withRegions (sig : Signature) (c : Code) (es : List ExceptionEntry)
    (pool : Pool) (options : Options) (o : Outline) (rs : List Region) :
    sig.blockLines { c with exceptions := es } pool options (o.withRegions rs) =
      sig.blockLines c pool options o := by
  have htable : Code.tableFor { c with exceptions := es } pool options =
      c.tableFor pool options := rfl
  rw [blockLines, blockLines, htable]
  refine bind_congr fun table => bind_congr fun locals => ?_
  let ctx : Context :=
    { owner := Name.dotted sig.owner, pool, graph := o.graph, recover := options.recoverUnderflow }
  exact ctx.evaluateAll_withRegions rs _ _

/-- A reordered table gives every text that the table gives. -/
theorem Signature.body_reordered {sig : Signature} {c : Code} {es : List ExceptionEntry}
    {pool : Pool} {options : Options} {text : String} (hperm : es.Perm c.exceptions)
    (horder : ∀ pc, es.filter (·.handlerPc == pc) = c.exceptions.filter (·.handlerPc == pc))
    (h : sig.body c pool options = .ok text) :
    sig.body { c with exceptions := es } pool options = .ok text := by
  rw [body_eq] at h ⊢
  obtain ⟨o, houtline, h⟩ := Result.bind_eq_ok.mp h
  obtain ⟨g, hgraph, houtline⟩ := Result.bind_eq_ok.mp houtline
  obtain ⟨blocks, hblocks, houtline⟩ := Result.bind_eq_ok.mp houtline
  obtain ⟨loops, hloops, houtline⟩ := Result.bind_eq_ok.mp houtline
  obtain rfl := Result.pure_eq_ok.mp houtline
  obtain ⟨rs', hgraph', hrs⟩ := Code.exists_graph_reordered hperm horder hgraph
  have houtline' : Code.outline { c with exceptions := es } pool =
      .ok (Outline.withRegions ⟨g, blocks, loops⟩ rs') :=
    Result.bind_eq_ok.mpr ⟨_, hgraph', Result.bind_eq_ok.mpr
      ⟨blocks, (Graph.blocks_reordered hrs).trans hblocks, Result.bind_eq_ok.mpr
        ⟨loops, (g.loops_withRegions rs').trans hloops, rfl⟩⟩⟩
  refine Result.bind_eq_ok.mpr ⟨_, houtline', ?_⟩
  rw [blockLines_withRegions]
  obtain ⟨lines, hlines, hbody⟩ := Result.bind_eq_ok.mp h
  exact Result.bind_eq_ok.mpr ⟨lines, hlines, (Outline.body_withRegions ..).trans hbody⟩

/-- **The order of the exception table does not matter.** If the entries of a method's table are put
in another order that keeps the order of entries with one handler, the method is shown exactly if it
was shown before, and with the same text. -/
theorem table_order_irrelevant {c : Code} {es : List ExceptionEntry}
    (hperm : es.Perm c.exceptions)
    (horder : ∀ pc, es.filter (·.handlerPc == pc) = c.exceptions.filter (·.handlerPc == pc))
    (sig : Signature) (pool : Pool) (options : Options) (text : String) :
    sig.body { c with exceptions := es } pool options = .ok text ↔
      sig.body c pool options = .ok text := by
  constructor
  · exact Signature.body_reordered (c := { c with exceptions := es }) hperm.symm
      fun pc => (horder pc).symm
  · exact Signature.body_reordered hperm horder

/-- Two entries with one handler around one with another: that one may be moved to the front. -/
theorem table_order_irrelevant_of_two_handlers :
    ∃ text, Signature.body ⟨"A", ⟨8⟩, "m", "()V"⟩
        (.ofParts 1 0 [0x03, 0x57, 0xb1, 0xbf, 0xbf] [⟨0, 1, 3, 2⟩, ⟨1, 2, 4, 2⟩, ⟨0, 2, 3, 0⟩] [])
        ⟨#[.utf8 "a/E", .classRef 1]⟩ {} = .ok text ∧
      Signature.body ⟨"A", ⟨8⟩, "m", "()V"⟩
        (.ofParts 1 0 [0x03, 0x57, 0xb1, 0xbf, 0xbf] [⟨1, 2, 4, 2⟩, ⟨0, 1, 3, 2⟩, ⟨0, 2, 3, 0⟩] [])
        ⟨#[.utf8 "a/E", .classRef 1]⟩ {} = .ok text := by
  have hok : (Signature.body ⟨"A", ⟨8⟩, "m", "()V"⟩
      (.ofParts 1 0 [0x03, 0x57, 0xb1, 0xbf, 0xbf] [⟨0, 1, 3, 2⟩, ⟨1, 2, 4, 2⟩, ⟨0, 2, 3, 0⟩] [])
      ⟨#[.utf8 "a/E", .classRef 1]⟩ {}).isOk = true := by
    decide +kernel
  obtain ⟨text, htext⟩ := Result.exists_of_isOk hok
  refine ⟨text, htext, (table_order_irrelevant ?_ ?_ _ _ _ text).mpr htext⟩
  · exact List.Perm.swap ..
  · intro pc
    by_cases hpc : pc = 3
    · subst hpc
      decide
    · have hne : ((3 : UInt16) == pc) = false := beq_false_of_ne (Ne.symm hpc)
      simp [Code.ofParts, List.filter_cons, hne]

end JvmSource
