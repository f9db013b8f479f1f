import JvmSource.Flow.Graph
import JvmSource.Proofs.Decoding

/-!
# What a flow graph holds

For the graph of a decoded method: its edges are the branches with the instructions they jump to
(`Graph.target?_eq_some_iff`), its bounds are exactly the places that the method's ends, its regions
and its edges give rise to (`Graph.mem_indices_iff`), in ascending order, and the bounds inside the
method have a label each, no two of them with one number (`Graph.label?_eq_some_iff`,
`Graph.eq_of_label?_id_eq`).

Edges are resolved when the graph is built, and the passes behind it resolve the targets of branches
again from the code. Both come to the same (`Graph.resolveTarget_eq`,
`Graph.requireTarget_eq_ok_iff`, `Graph.resolve_eq`): so a pass that resolves a target may be read
as one that follows an edge, and the error that it has for a target which is not there cannot come
up. This is used of every such pass once, where the pass is opened.

Everything here needs only that the code is sequential and that the graph has been built from it.
The one fact that needs decoded code is that every branch has an edge
(`Graph.exists_target?_of_isBranch`): an opcode that is none of the catalogue could be a branch
without an operand.
-/

namespace JvmSource

/-- Where the instruction at an offset is found. In sequential code no two instructions share an
offset. -/
theorem indexAt?_eq_some_iff {code : List Instruction} (hcode : Sequential 0 0 code) {offset : Int}
    {j : Nat} :
    indexAt? code offset = some j ↔ ∃ b, code[j]? = some b ∧ (b.offset : Int) = offset := by
  rw [indexAt?]
  split
  · next hneg =>
    refine ⟨fun h => absurd h (by simp), ?_⟩
    rintro ⟨b, -, rfl⟩
    omega
  · next hneg =>
    rw [List.findIdx?_eq_some_iff_getElem]
    constructor
    · rintro ⟨hj, hoffset, -⟩
      refine ⟨code[j], List.getElem?_eq_getElem hj, ?_⟩
      rw [beq_iff_eq] at hoffset
      omega
    · rintro ⟨b, hb, hoffset⟩
      obtain ⟨hj, hbj⟩ := List.getElem?_eq_some_iff.mp hb
      refine ⟨hj, by rw [hbj, beq_iff_eq]; omega, ?_⟩
      intro i hij
      have hlt := hcode.offset_lt hij (List.getElem?_eq_getElem (Nat.lt_trans hij hj)) hb
      simp only [beq_iff_eq]
      omega

/-- A target is resolved to the instruction that stands there. -/
theorem resolveTarget_eq_ok_some_iff {code : List Instruction} (hcode : Sequential 0 0 code)
    {a : Instruction} {j : Nat} :
    resolveTarget code a = .ok (some j) ↔
      ∃ b, code[j]? = some b ∧ a.branchTarget? = some (b.offset : Int) := by
  rw [resolveTarget]
  cases htarget : a.branchTarget? with
  | none => simp
  | some target =>
    cases hindex : indexAt? code target with
    | none =>
      constructor
      · intro h
        simp [hindex] at h
      · rintro ⟨b, hb, heq⟩
        have := (indexAt?_eq_some_iff hcode).mpr ⟨b, hb, (Option.some.inj heq).symm⟩
        simp [hindex] at this
    | some k =>
      simp only [hindex, Except.ok.injEq, Option.some.injEq]
      constructor
      · rintro rfl
        obtain ⟨b, hb, hoffset⟩ := (indexAt?_eq_some_iff hcode).mp hindex
        exact ⟨b, hb, hoffset.symm⟩
      · rintro ⟨b, hb, heq⟩
        have := (indexAt?_eq_some_iff hcode).mpr ⟨b, hb, heq.symm⟩
        exact Option.some.inj (hindex.symm.trans this)

/-- The edges among some instructions are those that their targets resolve to, each from the index
of its instruction. -/
theorem mem_edgesAmong {code is : List Instruction} {edges : List Edge}
    (h : edgesAmong code is = .ok edges) {e : Edge} :
    e ∈ edges ↔ ∃ a ∈ is, a.index = e.source ∧ resolveTarget code a = .ok (some e.target) := by
  induction is generalizing edges with
  | nil =>
    obtain rfl : [] = edges := by simpa [edgesAmong] using h
    simp
  | cons a is ih =>
    rw [edgesAmong] at h
    obtain ⟨target, htarget, h⟩ := Result.bind_eq_ok.mp h
    rw [List.exists_mem_cons_iff]
    cases target with
    | none =>
      rw [ih h, htarget]
      simp
    | some target =>
      obtain ⟨rest, hrest, h⟩ := Result.bind_eq_ok.mp h
      obtain rfl := Result.pure_eq_ok.mp h
      rw [List.mem_cons, ih hrest, htarget]
      refine or_congr_left ⟨?_, ?_⟩
      · rintro rfl
        exact ⟨rfl, rfl⟩
      · rintro ⟨hsource, heq⟩
        rw [Except.ok.injEq, Option.some.injEq] at heq
        rw [hsource, heq]

/-- No target is left open among instructions that have edges. -/
theorem exists_resolveTarget_of_edgesAmong {code is : List Instruction} {edges : List Edge}
    (h : edgesAmong code is = .ok edges) {a : Instruction} (ha : a ∈ is) :
    ∃ target, resolveTarget code a = .ok target := by
  induction is generalizing edges with
  | nil => simp at ha
  | cons b is ih =>
    rw [edgesAmong] at h
    obtain ⟨target, htarget, h⟩ := Result.bind_eq_ok.mp h
    rcases List.mem_cons.mp ha with rfl | ha
    · exact ⟨target, htarget⟩
    · cases target with
      | none => exact ih h ha
      | some target =>
        obtain ⟨rest, hrest, -⟩ := Result.bind_eq_ok.mp h
        exact ih hrest ha

namespace Graph

variable {code : List Instruction} {regions : List Region} {g : Graph}

/-- The parts of a graph that has been built. -/
theorem build_eq_ok (h : build code regions = .ok g) :
    ∃ edges, edgesAmong code code = .ok edges ∧ g.code = code ∧ g.edges = edges ∧
      g.regions = regions ∧ g.indices = boundIndices code.length regions edges ∧
      g.labels = labelsFor code.length regions (boundIndices code.length regions edges) := by
  obtain ⟨edges, hedges, h⟩ := Result.bind_eq_ok.mp h
  obtain rfl := Result.pure_eq_ok.mp h
  refine ⟨edges, hedges, rfl, rfl, rfl, ?_, rfl⟩
  simp [indices, Function.comp_def]

/-- A graph has the code that it has been built from. -/
theorem code_of_build (h : build code regions = .ok g) : g.code = code :=
  (build_eq_ok h).choose_spec.2.1

/-! ### Edges -/

section Edges

variable (hcode : Sequential 0 0 code) (h : build code regions = .ok g)
include hcode h

private theorem mem_edges_iff {e : Edge} :
    e ∈ g.edges ↔ ∃ a, code[e.source]? = some a ∧ resolveTarget code a = .ok (some e.target) := by
  obtain ⟨edges, hedges, -, rfl, -⟩ := build_eq_ok h
  rw [mem_edgesAmong hedges]
  constructor
  · rintro ⟨a, ha, hsource, htarget⟩
    obtain ⟨i, hi⟩ := List.getElem?_of_mem ha
    have hindex : a.index = 0 + i := hcode.index_eq hi
    obtain rfl : i = e.source := by omega
    exact ⟨a, hi, htarget⟩
  · rintro ⟨a, ha, htarget⟩
    refine ⟨a, List.mem_of_getElem? ha, ?_, htarget⟩
    rw [hcode.index_eq ha, Nat.zero_add]

/-- The edges of a graph are what `target?` finds. -/
theorem mem_edges_iff_target? {e : Edge} : e ∈ g.edges ↔ g.target? e.source = some e.target := by
  rw [target?, Option.map_eq_some_iff]
  constructor
  · intro he
    obtain ⟨e', he'⟩ : ∃ e', g.edges.find? (·.source == e.source) = some e' := by
      rw [← Option.isSome_iff_exists, List.find?_isSome]
      exact ⟨e, he, by simp⟩
    have hsource : e'.source = e.source := by simpa using List.find?_some he'
    obtain ⟨a, ha, ht⟩ := (mem_edges_iff hcode h).mp he
    obtain ⟨a', ha', ht'⟩ := (mem_edges_iff hcode h).mp (List.mem_of_find?_eq_some he')
    rw [hsource, ha, Option.some.injEq] at ha'
    rw [← ha', ht, Except.ok.injEq, Option.some.injEq] at ht'
    exact ⟨e', he', ht'.symm⟩
  · rintro ⟨e', he', htarget⟩
    have hsource : e'.source = e.source := by simpa using List.find?_some he'
    have hmem := List.mem_of_find?_eq_some he'
    rwa [Edge.ext hsource htarget] at hmem

/-- A branch jumps to the instruction that stands at its target. -/
theorem target?_eq_some_iff {i j : Nat} :
    g.target? i = some j ↔
      ∃ a b, code[i]? = some a ∧ code[j]? = some b ∧ a.branchTarget? = some (b.offset : Int) := by
  have hedge := mem_edges_iff_target? hcode h (e := ⟨i, j⟩)
  rw [← hedge, mem_edges_iff hcode h]
  constructor
  · rintro ⟨a, ha, htarget⟩
    obtain ⟨b, hb, heq⟩ := (resolveTarget_eq_ok_some_iff hcode).mp htarget
    exact ⟨a, b, ha, hb, heq⟩
  · rintro ⟨a, b, ha, hb, heq⟩
    exact ⟨a, ha, (resolveTarget_eq_ok_some_iff hcode).mpr ⟨b, hb, heq⟩⟩

/-- Only branches have edges. -/
theorem exists_branch_of_target? {i t : Nat} (ht : g.target? i = some t) :
    ∃ a, g.code[i]? = some a ∧ a.operation.isBranch = true := by
  obtain ⟨a, _, ha, -, htarget⟩ := (target?_eq_some_iff hcode h).mp ht
  exact ⟨a, by rwa [code_of_build h], Instruction.isBranch_of_branchTarget? htarget⟩

/-- A branch jumps ahead exactly if its offset is positive. -/
theorem lt_iff_of_target? {i j : Nat} {a : Instruction} {offset : Int}
    (ht : g.target? i = some j) (ha : code[i]? = some a) (hoffset : a.branchOffset? = some offset) :
    i < j ↔ 0 < offset := by
  obtain ⟨a', b, ha', hb, htarget⟩ := (target?_eq_some_iff hcode h).mp ht
  obtain rfl := Option.some.inj (ha.symm.trans ha')
  obtain ⟨offset', hoffset', heq⟩ := Option.map_eq_some_iff.mp htarget
  obtain rfl := Option.some.inj (hoffset.symm.trans hoffset')
  rcases Nat.lt_trichotomy i j with hlt | rfl | hgt
  · have := hcode.offset_lt hlt ha hb
    omega
  · obtain rfl := Option.some.inj (ha.symm.trans hb)
    omega
  · have := hcode.offset_lt hgt hb ha
    omega

/-- Every branch of a graph has been resolved. -/
theorem exists_target?_of_isSome {i : Nat} {a : Instruction} (ha : g.code[i]? = some a)
    (htarget : a.branchTarget?.isSome) : ∃ t, g.target? i = some t := by
  obtain ⟨edges, hedges, hg, -⟩ := build_eq_ok h
  rw [hg] at ha
  obtain ⟨target, hresolve⟩ := exists_resolveTarget_of_edgesAmong hedges (List.mem_of_getElem? ha)
  cases target with
  | none =>
    obtain ⟨offset, hoffset⟩ := Option.isSome_iff_exists.mp htarget
    simp only [resolveTarget, hoffset] at hresolve
    split at hresolve <;> cases hresolve
  | some t =>
    obtain ⟨b, hb, hoffset⟩ := (resolveTarget_eq_ok_some_iff hcode).mp hresolve
    exact ⟨t, (target?_eq_some_iff hcode h).mpr ⟨a, b, ha, hb, hoffset⟩⟩

/-- A branch and its target lie inside the method. -/
theorem lt_length_of_target? {i j : Nat} (ht : g.target? i = some j) :
    i < g.code.length ∧ j < g.code.length := by
  obtain ⟨a, b, ha, hb, -⟩ := (target?_eq_some_iff hcode h).mp ht
  rw [code_of_build h]
  exact ⟨(List.getElem?_eq_some_iff.mp ha).1, (List.getElem?_eq_some_iff.mp hb).1⟩

/-! ### Targets that are resolved again -/

/-- **Resolving a target again** gives what the graph has, for every instruction: the end of an
edge, or nothing. -/
theorem resolveTarget_eq {i : Nat} {a : Instruction} (ha : g.code[i]? = some a) :
    resolveTarget g.code a = .ok (g.target? i) := by
  obtain ⟨edges, hedges, hg, -⟩ := build_eq_ok h
  rw [hg] at ha ⊢
  obtain ⟨target, htarget⟩ := exists_resolveTarget_of_edgesAmong hedges (List.mem_of_getElem? ha)
  rw [htarget]
  congr 1
  ext t
  have hresolve : target = some t ↔ resolveTarget code a = .ok (some t) := by
    rw [htarget, Except.ok.injEq]
  rw [hresolve, resolveTarget_eq_ok_some_iff hcode, target?_eq_some_iff hcode h]
  simp [ha]

/-- A branch that is asked for its target names the end of its edge. -/
theorem requireTarget_eq_ok_iff {i t : Nat} {a : Instruction} (ha : g.code[i]? = some a) :
    requireTarget g.code a = .ok t ↔ g.target? i = some t := by
  rw [requireTarget, resolveTarget_eq hcode h ha]
  cases g.target? i <;> simp [bind, Except.bind, pure, Except.pure]

/-- The same for an index, behind the end of the method as well. -/
theorem resolve_eq (i : Nat) : g.resolve i = .ok (g.target? i) := by
  rw [resolve]
  split
  · next a ha => exact resolveTarget_eq hcode h ha
  · next hnone =>
    -- there are no edges from outside of the method
    cases htarget : g.target? i with
    | none => rfl
    | some t =>
      have := (lt_length_of_target? hcode h htarget).1
      rw [List.getElem?_eq_none_iff] at hnone
      omega

end Edges

/-- Every branch of a decoded method has an edge. -/
theorem exists_target?_of_isBranch {bytes : List UInt8} (hdecode : decode bytes = .ok g.code)
    (h : build g.code regions = .ok g) {i : Nat} {a : Instruction} (ha : g.code[i]? = some a)
    (hbranch : a.operation.isBranch = true) : ∃ t, g.target? i = some t := by
  have hopcode := opcode_mem_of_decodeFrom hdecode a (List.mem_of_getElem? ha)
  exact exists_target?_of_isSome (sequential_of_decodeFrom hdecode) h ha
    ((isSome_branchTarget?_iff hopcode).mpr hbranch)

/-! ### Bounds -/

/-- The indices of the bounds ascend. -/
theorem pairwise_indices (h : build code regions = .ok g) : g.indices.Pairwise (· < ·) := by
  obtain ⟨edges, -, -, -, -, hindices, -⟩ := build_eq_ok h
  rw [hindices]
  exact pairwise_ascending _

/-- The bounds are the ends of the method, the ends and handlers of its regions, and what stands
behind a branch or is jumped to. -/
theorem mem_indices_iff (hcode : Sequential 0 0 code) (h : build code regions = .ok g) {i : Nat} :
    i ∈ g.indices ↔ i = 0 ∨ i = code.length ∨
      (∃ r ∈ regions, i = r.start ∨ i = r.stop ∨ i = r.handler) ∨
      ∃ source target, g.target? source = some target ∧ (i = source + 1 ∨ i = target) := by
  obtain ⟨edges, -, -, rfl, -, hindices, -⟩ := build_eq_ok h
  have hedges : (∃ e ∈ g.edges, i = e.source + 1 ∨ i = e.target) ↔
      ∃ source target, g.target? source = some target ∧ (i = source + 1 ∨ i = target) := by
    constructor
    · rintro ⟨e, he, hi⟩
      exact ⟨e.source, e.target, (mem_edges_iff_target? hcode h).mp he, hi⟩
    · rintro ⟨source, target, ht, hi⟩
      exact ⟨⟨source, target⟩, (mem_edges_iff_target? hcode h).mpr ht, hi⟩
  rw [hindices, boundIndices, mem_ascending, ← hedges]
  simp

section Indices

variable (hcode : Sequential 0 0 code) (h : build code regions = .ok g)
include hcode h

theorem zero_mem_indices : 0 ∈ g.indices :=
  (mem_indices_iff hcode h).mpr (.inl rfl)

theorem length_mem_indices : code.length ∈ g.indices :=
  (mem_indices_iff hcode h).mpr (.inr (.inl rfl))

/-- A block ends behind every branch. -/
theorem succ_mem_indices {i t : Nat} (ht : g.target? i = some t) : i + 1 ∈ g.indices :=
  (mem_indices_iff hcode h).mpr (.inr (.inr (.inr ⟨i, t, ht, .inl rfl⟩)))

/-- A block begins where a branch jumps to. -/
theorem target_mem_indices {i t : Nat} (ht : g.target? i = some t) : t ∈ g.indices :=
  (mem_indices_iff hcode h).mpr (.inr (.inr (.inr ⟨i, t, ht, .inr rfl⟩)))

end Indices

/-! ### Labels -/

/-- Looking up a key in a list of distinct keys that have been numbered from `n`. The value depends
on the key and on its number. -/
private theorem lookup_zipIdx_eq_some_iff {β : Type} {xs : List Nat} (hxs : xs.Nodup)
    (f : Nat → Nat → β) {n i : Nat} {b : β} :
    ((xs.zipIdx n).map fun (x, k) => (x, f x k)).lookup i = some b ↔
      ∃ p, xs[p]? = some i ∧ b = f i (n + p) := by
  induction xs generalizing n with
  | nil => simp
  | cons x xs ih =>
    obtain ⟨hx, hxs⟩ := List.nodup_cons.mp hxs
    rw [List.zipIdx_cons, List.map_cons]
    by_cases hxi : i = x
    · subst hxi
      rw [List.lookup_cons_self, Option.some.injEq]
      constructor
      · rintro rfl
        exact ⟨0, by simp, by simp⟩
      · rintro ⟨p, hp, rfl⟩
        cases p with
        | zero => rfl
        | succ p => exact absurd (List.mem_of_getElem? (by simpa using hp)) hx
    · rw [List.lookup_cons, beq_false_of_ne hxi, ih hxs]
      constructor
      · rintro ⟨p, hp, rfl⟩
        exact ⟨p + 1, by simpa using hp, by rw [Nat.add_assoc, Nat.add_comm 1]⟩
      · rintro ⟨p, hp, rfl⟩
        cases p with
        | zero => exact absurd (by simpa using hp) (Ne.symm hxi)
        | succ p => exact ⟨p, by simpa using hp, by rw [Nat.add_assoc, Nat.add_comm 1]⟩

/-- The bounds inside the method are numbered from 1 on, in order; those at which a handler begins
have a label of their own kind. -/
theorem label?_eq_some_iff (h : build code regions = .ok g) {i : Nat} {label : Label} :
    g.label? i = some label ↔
      ∃ p, (g.indices.filter (· < g.code.length))[p]? = some i ∧
        label = { id := p + 1
                  kind := if g.regions.any (·.handler == i) then .handler else .branch } := by
  have hnodup : (g.indices.filter (· < g.code.length)).Nodup :=
    ((pairwise_indices h).imp Nat.ne_of_lt).filter _
  obtain ⟨edges, -, hcode, rfl, hregions, hindices, hlabels⟩ := build_eq_ok h
  rw [hindices, hcode] at hnodup
  rw [label?, hlabels, hindices, hcode, hregions, labelsFor]
  have hlookup := lookup_zipIdx_eq_some_iff hnodup
    (fun index id => { id, kind := if regions.any (·.handler == index) then .handler else .branch })
    (n := 1) (i := i) (b := label)
  rw [hlookup]
  simp only [Nat.add_comm 1]

/-- The bounds inside the method have labels, and nothing else has. -/
theorem isSome_label?_iff (h : build code regions = .ok g) {i : Nat} :
    (g.label? i).isSome ↔ i ∈ g.indices ∧ i < g.code.length := by
  rw [Option.isSome_iff_exists]
  constructor
  · rintro ⟨label, hlabel⟩
    obtain ⟨p, hp, -⟩ := (label?_eq_some_iff h).mp hlabel
    simpa using List.mem_of_getElem? hp
  · intro hi
    have hmem : i ∈ g.indices.filter (· < g.code.length) := by simpa using hi
    obtain ⟨p, hp⟩ := List.getElem?_of_mem hmem
    exact ⟨_, (label?_eq_some_iff h).mpr ⟨p, hp, rfl⟩⟩

/-- Labels at different places have different numbers. -/
theorem eq_of_label?_id_eq (h : build code regions = .ok g) {i j : Nat} {a b : Label}
    (ha : g.label? i = some a) (hb : g.label? j = some b) (hid : a.id = b.id) : i = j := by
  obtain ⟨p, hp, rfl⟩ := (label?_eq_some_iff h).mp ha
  obtain ⟨q, hq, rfl⟩ := (label?_eq_some_iff h).mp hb
  obtain rfl : p = q := by simpa using hid
  exact Option.some.inj (hp.symm.trans hq)

end Graph

/-- A valid graph has been built from decoded instructions. -/
theorem Code.graph_eq_ok {c : Code} {pool : Pool} {g : Graph} (h : c.graph pool = .ok g) :
    ∃ regions, decode c.code = .ok g.code ∧ c.regions g.code pool = .ok regions ∧
      Sequential 0 0 g.code ∧ Graph.build g.code regions = .ok g ∧ g.validate = .ok () := by
  obtain ⟨code, hdecode, h⟩ := Result.bind_eq_ok.mp h
  obtain ⟨regions, hregions, h⟩ := Result.bind_eq_ok.mp h
  obtain ⟨g', hbuild, h⟩ := Result.bind_eq_ok.mp h
  obtain ⟨_, hvalid, h⟩ := Result.bind_eq_ok.mp h
  obtain rfl := Result.pure_eq_ok.mp h
  obtain rfl := Graph.code_of_build hbuild
  exact ⟨regions, hdecode, hregions, sequential_of_decodeFrom hdecode, hbuild, hvalid⟩

end JvmSource
