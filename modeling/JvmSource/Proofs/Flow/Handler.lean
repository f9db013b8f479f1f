import Mathlib.Data.List.Basic
import Mathlib.Data.List.Forall2
import JvmSource.Proofs.Flow.Block

/-!
# Exception handlers

The regions of a checked method stand where the entries of its exception table say
(`Region.Resolves`). An entry names three offsets; each is the offset of an instruction, except that
a region may end with the method. The region is not empty and ends before its handler.

Normal flow never enters a handler (`Graph.not_flowsTo_handler`): nothing falls into it, because
what stands before it ends the flow, and no branch jumps to it, because its bound would show that.
The check looks at the causes of the bound, so the proof goes from a branch to its edge, from the
edge to a cause of the bound at its target, and from there to what the check has found.

What a handler catches is written out once per type, in the order of the table (`FirstOccurrences`):
a type that several entries of the handler catch stands where the first of them does. A block that
is no handler catches nothing. Together: `handlers_isolated`.
-/

namespace JvmSource

/-! ### Regions -/

/-- A region is that of a table entry, in a method of `size` bytes. -/
structure Region.Resolves (code : List Instruction) (size : Nat) (pool : Pool)
    (entry : ExceptionEntry) (r : Region) : Prop where
  start_lt_stop : r.start < r.stop
  stop_le_handler : r.stop ≤ r.handler
  handler_lt_length : r.handler < code.length
  start_spec : ∃ a, code[r.start]? = some a ∧ a.offset = entry.startPc.toNat
  /-- The region ends before the instruction that the entry names, or with the method. -/
  stop_spec : (entry.endPc.toNat = size ∧ r.stop = code.length) ∨
    ∃ a, code[r.stop]? = some a ∧ a.offset = entry.endPc.toNat
  handler_spec : ∃ a, code[r.handler]? = some a ∧ a.offset = entry.handlerPc.toNat
  caughtType_eq : Region.caughtType pool entry = .ok r.type

/-- The instruction at an offset that a table entry gives. -/
private theorem exists_of_indexAt? {code : List Instruction} (hcode : Sequential 0 0 code)
    {n j : Nat} (h : indexAt? code n = some j) : ∃ a, code[j]? = some a ∧ a.offset = n := by
  obtain ⟨a, ha, hoffset⟩ := (indexAt?_eq_some_iff hcode).mp h
  exact ⟨a, ha, Int.ofNat_inj.mp hoffset⟩

/-- **An entry of the exception table is resolved to its instructions.** -/
theorem Region.resolves_of_ofEntry {code : List Instruction} (hcode : Sequential 0 0 code)
    {size : Nat} {pool : Pool} {entry : ExceptionEntry} {r : Region}
    (h : Region.ofEntry code size pool entry = .ok r) : r.Resolves code size pool entry := by
  unfold Region.ofEntry at h
  extract_lets invalid find at h
  -- an offset that is looked up is that of an instruction
  have hfind : ∀ {pc : UInt16} {fault : RegionFault} {i : Nat}, find pc fault = .ok i →
      ∃ a, code[i]? = some a ∧ a.offset = pc.toNat := by
    intro pc fault i hi
    dsimp only [find] at hi
    split at hi
    · next index hindex =>
      obtain rfl := Except.ok.inj hi
      exact exists_of_indexAt? hcode hindex
    · cases hi
  obtain ⟨start, hstart, h⟩ := Result.bind_eq_ok.mp h
  extract_lets resume at h
  have hresume : ∀ stop, ((entry.endPc.toNat = size ∧ stop = code.length) ∨
      ∃ a, code[stop]? = some a ∧ a.offset = entry.endPc.toNat) →
      resume stop = .ok r → r.Resolves code size pool entry := by
    intro stop hstop h
    obtain ⟨handler, hhandler, h⟩ := Result.bind_eq_ok.mp h
    obtain ⟨a, ha, hoffset⟩ := hfind hhandler
    split at h
    · cases h
    · next hlt =>
      split at h
      · cases h
      · next hle =>
        obtain ⟨type, htype, h⟩ := Result.bind_eq_ok.mp h
        obtain rfl := Result.pure_eq_ok.mp h
        exact
          { start_lt_stop := Nat.lt_of_not_le hlt
            stop_le_handler := Nat.le_of_not_lt hle
            handler_lt_length := (List.getElem?_eq_some_iff.mp ha).1
            start_spec := hfind hstart
            stop_spec := hstop
            handler_spec := ⟨a, ha, hoffset⟩
            caughtType_eq := htype }
  split at h
  · next hend => exact hresume _ (.inl ⟨hend, rfl⟩) h
  · obtain ⟨stop, hstop, h⟩ := Result.bind_eq_ok.mp h
    exact hresume stop (.inr (hfind hstop)) h

/-- The regions of a checked method are those of its exception table, in order. -/
theorem Code.forall₂_resolves {c : Code} {pool : Pool} {code : List Instruction}
    {regions : List Region} (hcode : Sequential 0 0 code)
    (h : c.regions code pool = .ok regions) :
    List.Forall₂ (Region.Resolves code c.code.length pool) c.exceptions regions :=
  (Result.mapM_eq_ok.mp h).imp fun _ _ hr => Region.resolves_of_ofEntry hcode hr

/-! ### Caught types -/

/-- The elements of a list in the order in which they first occur, each once. -/
structure FirstOccurrences (xs firsts : List String) : Prop where
  mem_iff : ∀ x, x ∈ firsts ↔ x ∈ xs
  pairwise : firsts.Pairwise fun x y => xs.idxOf x < xs.idxOf y

/-- Leaving out elements keeps the order in which the others first occur. -/
private theorem idxOf_lt_of_filter {p : String → Bool} {xs : List String} {x y : String}
    (hx : p x = true) (hy : p y = true)
    (h : (xs.filter p).idxOf x < (xs.filter p).idxOf y) : xs.idxOf x < xs.idxOf y := by
  induction xs with
  | nil => simp at h
  | cons z xs ih => grind

/-- Leaving out what has occurred before keeps the order in which elements first occur. The
recursion is that of the library's function, on lists that get shorter. -/
private theorem pairwise_eraseDups : (xs : List String) →
    xs.eraseDups.Pairwise fun x y => xs.idxOf x < xs.idxOf y
  | [] => by simp
  | x :: xs => by
    have hlength : (xs.filter fun y => !y == x).length < xs.length + 1 :=
      Nat.lt_succ_of_le (List.length_filter_le _ _)
    have hother : ∀ y ∈ (xs.filter fun y => !y == x).eraseDups, y ≠ x := by
      intro y hy
      simpa using (List.mem_filter.mp (List.mem_eraseDups.mp hy)).2
    rw [List.eraseDups_cons, List.pairwise_cons]
    refine ⟨?_, (pairwise_eraseDups (xs.filter fun y => !y == x)).imp_of_mem ?_⟩
    · intro y hy
      rw [List.idxOf_cons_self, List.idxOf_cons_ne _ (hother y hy).symm]
      exact Nat.succ_pos _
    · intro y z hy hz hlt
      have hyx := hother y hy
      have hzx := hother z hz
      rw [List.idxOf_cons_ne _ hyx.symm, List.idxOf_cons_ne _ hzx.symm, Nat.succ_lt_succ_iff]
      exact idxOf_lt_of_filter (by simpa using hyx) (by simpa using hzx) hlt
termination_by xs => xs.length

theorem firstOccurrences_eraseDups (xs : List String) : FirstOccurrences xs xs.eraseDups :=
  ⟨fun _ => List.mem_eraseDups, pairwise_eraseDups xs⟩

namespace Graph

variable {code : List Instruction} {regions : List Region} {g : Graph} {bs : List Block}

/-- What is caught at an index where no handler begins. -/
theorem caughtAt_eq_none {i : Nat} (h : ∀ r ∈ g.regions, r.handler ≠ i) : g.caughtAt i = none := by
  have hnil : g.regions.filter (·.handler == i) = [] := by
    rw [List.filter_eq_nil_iff]
    intro r hr
    simpa using h r hr
  rw [caughtAt, hnil]
  rfl

/-- What is caught by a handler: the types of all its regions. -/
theorem caughtAt_handler {r : Region} (hr : r ∈ g.regions) :
    ∃ types, FirstOccurrences ((g.regions.filter (·.handler == r.handler)).map (·.type)) types ∧
      g.caughtAt r.handler = some (" | ".intercalate types) := by
  refine ⟨_, firstOccurrences_eraseDups _, ?_⟩
  rw [caughtAt]
  split
  · next hnil =>
    have hmem : r.type ∈ ((g.regions.filter (·.handler == r.handler)).map (·.type)).eraseDups := by
      rw [List.mem_eraseDups, List.mem_map]
      exact ⟨r, by simpa using hr, rfl⟩
    rw [hnil] at hmem
    cases hmem
  · rfl

/-! ### Flow into a handler -/

/-- The bound at an index, with everything that put it there. -/
theorem bound?_eq_some (h : build code regions = .ok g) {i : Nat} (hi : i ∈ g.indices) :
    g.bound? i = some ⟨i, causesAt code.length regions g.edges i⟩ := by
  obtain ⟨edges, hedges, h⟩ := Result.bind_eq_ok.mp h
  obtain rfl := Result.pure_eq_ok.mp h
  simp only [indices, List.map_map, Function.comp_def, List.map_id'] at hi
  rw [bound?, List.find?_map, Function.comp_def]
  have hfind : (boundIndices code.length regions edges).find? (· == i) = some i := by
    obtain ⟨j, hj⟩ : ∃ j, (boundIndices code.length regions edges).find? (· == i) = some j := by
      rw [← Option.isSome_iff_exists, List.find?_isSome]
      exact ⟨i, hi, beq_self_eq_true i⟩
    obtain rfl : j = i := by simpa using List.find?_some hj
    exact hj
  rw [hfind]
  rfl

section Checked

variable (hcode : Sequential 0 0 code) (h : build code regions = .ok g)
  (hvalid : g.validate = .ok ())
include hcode h

/-- A bound that shows no branch is not jumped to. -/
theorem target?_ne_of_branchedFrom? {i : Nat}
    (hnone : (g.bound? i).bind Bound.branchedFrom? = none) (source : Nat) :
    g.target? source ≠ some i := by
  intro ht
  rw [bound?_eq_some h (target_mem_indices hcode h ht), Option.bind_some, Bound.branchedFrom?,
    List.findSome?_eq_none_iff] at hnone
  have hmem : Cause.target source ∈ causesAt code.length regions g.edges i := by
    have hedge := (mem_edges_iff_target? hcode h (e := ⟨source, i⟩)).mpr ht
    simp only [causesAt, List.mem_append, List.mem_map, List.mem_filter]
    exact .inl (.inr ⟨_, ⟨hedge, beq_self_eq_true i⟩, rfl⟩)
  exact absurd (hnone _ hmem) (by simp)

include hvalid

/-- What the check of a handler has found: it is not the method's entry, nothing falls into it and
nothing jumps to it. -/
theorem handler_spec {r : Region} (hr : r ∈ g.regions) :
    ∃ before, r.handler = before + 1 ∧ ¬ g.FallsThrough before ∧
      ∀ source, g.target? source ≠ some r.handler := by
  obtain ⟨_, -, hhandlers⟩ := Result.bind_eq_ok.mp hvalid
  have hcheck := Result.forM_eq_ok.mp hhandlers r hr
  unfold checkHandler at hcheck
  extract_lets resume at hcheck
  -- the branches are checked behind every way to pass the first check
  have hbranch : resume () = .ok () → (g.bound? r.handler).bind Bound.branchedFrom? = none := by
    intro hresume
    dsimp only [resume] at hresume
    split at hresume
    · cases hresume
    · assumption
  cases hhandler : r.handler with
  | zero =>
    rw [hhandler] at hcheck
    cases hcheck
  | succ before =>
    simp only [hhandler] at hcheck hbranch
    refine ⟨before, rfl, ?_, ?_⟩
    · rintro ⟨a, ha, hends⟩
      simp only [ha, hends] at hcheck
      cases hcheck
    · refine target?_ne_of_branchedFrom? hcode h ?_
      split at hcheck
      · split at hcheck
        · exact hbranch hcheck
        · cases hcheck
      · exact hbranch hcheck

/-- **Normal flow never enters a handler.** -/
theorem not_flowsTo_handler {r : Region} (hr : r ∈ g.regions) (i : Nat) :
    ¬ FlowsTo code i r.handler := by
  obtain ⟨before, hhandler, hfalls, htarget⟩ := handler_spec hcode h hvalid hr
  rw [flowsTo_iff hcode h]
  rintro (⟨hnext, hi⟩ | ht)
  · obtain rfl : before = i := by omega
    exact hfalls hi
  · exact htarget i ht

end Checked

/-- Control may go from the end of a block to its successors. -/
theorem flowsTo_of_mem_successors (hcode : Sequential 0 0 code) (h : build code regions = .ok g)
    (hbs : g.blocks = .ok bs) {b : Block} (hb : b ∈ bs) {j : Nat} (hj : j ∈ b.successors) :
    FlowsTo code b.last j := by
  rw [flowsTo_iff hcode h]
  rcases (mem_successors_iff hcode h hbs hb).mp hj with ht | ⟨rfl, hfalls⟩
  · exact .inr ht
  · exact .inl ⟨((tiles_blocks hcode h hbs).last_add_one hb).symm, hfalls⟩

/-- A block has what is caught at its start. -/
theorem caught_of_mem (hbs : g.blocks = .ok bs) {b : Block} (hb : b ∈ bs) :
    b.caught = g.caughtAt b.start := by
  obtain ⟨⟨start, stop⟩, -, hbetween⟩ := Result.exists_of_mem_mapM hbs hb
  obtain ⟨rfl, -, -, hcaught, -⟩ := blockBetween_eq_ok hbetween
  exact hcaught

end Graph

/-- **Handlers are isolated from normal flow.** The regions of a checked method are those of its
exception table. A handler is the start of a block, but not of the first one, and this block has the
types that all entries with this handler catch, each once, in the order of the table; other blocks
catch nothing. No block has a handler as a successor, and control goes to it from no instruction. -/
theorem handlers_isolated {c : Code} {pool : Pool} {g : Graph} {bs : List Block}
    (hgraph : c.graph pool = .ok g) (hblocks : g.blocks = .ok bs) :
    List.Forall₂ (Region.Resolves g.code c.code.length pool) c.exceptions g.regions ∧
      (∀ r ∈ g.regions, ∃ position b types, bs[position]? = some b ∧ position ≠ 0 ∧
        b.start = r.handler ∧ b.caught = some (" | ".intercalate types) ∧
        FirstOccurrences ((g.regions.filter (·.handler == r.handler)).map (·.type)) types) ∧
      (∀ b ∈ bs, (∀ r ∈ g.regions, r.handler ≠ b.start) → b.caught = none) ∧
      ∀ r ∈ g.regions, (∀ b ∈ bs, r.handler ∉ b.successors) ∧
        ∀ i, ¬ FlowsTo g.code i r.handler := by
  obtain ⟨regions, -, hregions, hcode, hbuild, hvalid⟩ := Code.graph_eq_ok hgraph
  obtain ⟨-, -, -, -, rfl, -⟩ := Graph.build_eq_ok hbuild
  have hresolves := Code.forall₂_resolves hcode hregions
  have hflow : ∀ r ∈ g.regions, ∀ i, ¬ FlowsTo g.code i r.handler :=
    fun r hr => Graph.not_flowsTo_handler hcode hbuild hvalid hr
  refine ⟨hresolves, ?_, ?_, ?_⟩
  · intro r hr
    obtain ⟨before, hhandler, -⟩ := Graph.handler_spec hcode hbuild hvalid hr
    have hlt : r.handler < g.code.length := by
      obtain ⟨entry, -, hentry⟩ := Result.exists_of_mem_mapM hregions hr
      exact (Region.resolves_of_ofEntry hcode hentry).handler_lt_length
    -- a handler is a bound inside the method, so a block starts there
    have hindex : r.handler ∈ g.indices :=
      (Graph.mem_indices_iff hcode hbuild).mpr (.inr (.inr (.inl ⟨r, hr, .inr (.inr rfl)⟩)))
    obtain ⟨b, hb, hstart⟩ := (Graph.exists_block_start_iff hcode hbuild hblocks).mpr ⟨hindex, hlt⟩
    obtain ⟨position, hposition⟩ := List.getElem?_of_mem hb
    obtain ⟨types, htypes, hcaught⟩ := Graph.caughtAt_handler hr
    refine ⟨position, b, types, hposition, ?_, hstart, ?_, htypes⟩
    · -- the first block starts at 0
      rintro rfl
      have hzero := (Graph.tiles_blocks hcode hbuild hblocks).start_of_getElem?_zero hposition
      omega
    · rw [Graph.caught_of_mem hblocks hb, hstart, hcaught]
  · intro b hb hnone
    rw [Graph.caught_of_mem hblocks hb, Graph.caughtAt_eq_none hnone]
  · intro r hr
    refine ⟨?_, hflow r hr⟩
    intro b hb hmem
    exact hflow r hr b.last (Graph.flowsTo_of_mem_successors hcode hbuild hblocks hb hmem)

/-- Three entries with one handler, two of which catch the same. -/
theorem handlers_isolated_of_shared_handler :
    ∃ g bs, (Code.ofParts 1 1 [0x03, 0x57, 0xb1, 0xbf]
        [⟨0, 1, 3, 2⟩, ⟨1, 2, 3, 0⟩, ⟨0, 3, 3, 2⟩] []).graph ⟨#[.utf8 "a/E", .classRef 1]⟩ =
        .ok g ∧ g.blocks = .ok bs ∧ bs.map (·.caught) = [none, none, none, some "a.E | Throwable"] ∧
      ∀ r ∈ g.regions, (∀ b ∈ bs, r.handler ∉ b.successors) ∧
        ∀ i, ¬ FlowsTo g.code i r.handler := by
  have hok : ((Code.ofParts 1 1 [0x03, 0x57, 0xb1, 0xbf]
      [⟨0, 1, 3, 2⟩, ⟨1, 2, 3, 0⟩, ⟨0, 3, 3, 2⟩] []).graph ⟨#[.utf8 "a/E", .classRef 1]⟩ >>=
        fun g => g.blocks >>= fun bs => .ok (bs.map (·.caught))) =
      .ok [none, none, none, some "a.E | Throwable"] := by
    decide +kernel
  obtain ⟨g, hgraph, h⟩ := Result.bind_eq_ok.mp hok
  obtain ⟨bs, hblocks, h⟩ := Result.bind_eq_ok.mp h
  exact ⟨g, bs, hgraph, hblocks, Except.ok.inj h, (handlers_isolated hgraph hblocks).2.2.2⟩

end JvmSource
