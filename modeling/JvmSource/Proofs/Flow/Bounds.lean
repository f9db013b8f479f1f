import Mathlib.Data.List.Nodup
import Mathlib.Data.List.Sort
import JvmSource.Proofs.Flow.Handler

/-!
# Bounds and labels

What puts a bound at an index is said without the graph: the ends of the method, the regions, and
the branches with the instructions that they jump to (`Cause.Marks`). A graph is built exactly if
every branch lands on an instruction, and the error otherwise names the first one that does not
(`Graph.build_eq_error_iff`).

The bounds of a graph that has been built are the marked indices, each with the causes that mark it
(`Graph.mem_indices_iff_marks`, `Graph.mem_causesAt_iff`). No cause is named twice, since an
instruction is the source of one edge at most (`Graph.nodup_causesAt`). Bounds ascend, so the number
of a label counts the bounds before it (`Graph.label?_eq_some_iff_countP`), and a bound is found by
its index.

A graph is built from what is among its regions, not from the order in which they are listed or how
often (`Graph.build_of_mem_iff`): the bounds are a set of indices that is put in ascending order,
and the causes ask only whether some region is of a kind.

`bounds_exact` gathers all of this, with the facts about one graph in `Graph.Exact`.
-/

namespace JvmSource

/-! ### Where branches land -/

/-- The branch jumps to an instruction of the method. -/
def Instruction.LandsIn (code : List Instruction) (a : Instruction) : Prop :=
  ∃ b ∈ code, a.branchTarget? = some (b.offset : Int)

/-- The branch at `i` jumps to the instruction at `j`. -/
def BranchesTo (code : List Instruction) (i j : Nat) : Prop :=
  ∃ a b, code[i]? = some a ∧ code[j]? = some b ∧ a.branchTarget? = some (b.offset : Int)

/-- There is a branch at `i`. -/
def BranchesAt (code : List Instruction) (i : Nat) : Prop :=
  ∃ a, code[i]? = some a ∧ a.operation.isBranch = true

/-- The error names the first branch that jumps to no instruction, and the offset it jumps to. -/
def FailsToLand (code : List Instruction) (e : Error) : Prop :=
  ∃ i a target, code[i]? = some a ∧ a.branchTarget? = some target ∧
    (∀ b ∈ code, (b.offset : Int) ≠ target) ∧
    (∀ j < i, ∀ b, code[j]? = some b → b.operation.isBranch = true → b.LandsIn code) ∧
    e = .branchTargetNotFound i target

/-- The cause puts a bound at an index of the method. -/
def Cause.Marks (code : List Instruction) (regions : List Region) (i : Nat) : Cause → Prop
  | methodStart => i = 0
  | methodEnd => i = code.length
  | regionStart => ∃ r ∈ regions, r.start = i
  | regionEnd => ∃ r ∈ regions, r.stop = i
  | handler => ∃ r ∈ regions, r.handler = i
  | target source => BranchesTo code source i
  | afterBranch source => BranchesAt code source ∧ source + 1 = i

section Resolving

variable {code : List Instruction} (hcode : Sequential 0 0 code)
include hcode

/-- No instruction is found at an offset at which none stands. -/
theorem indexAt?_eq_none_iff {offset : Int} :
    indexAt? code offset = none ↔ ∀ b ∈ code, (b.offset : Int) ≠ offset := by
  constructor
  · intro hnone b hb heq
    obtain ⟨j, hj⟩ := List.getElem?_of_mem hb
    have hsome := (indexAt?_eq_some_iff hcode).mpr ⟨b, hj, heq⟩
    rw [hnone] at hsome
    cases hsome
  · intro hnot
    rw [Option.eq_none_iff_forall_ne_some]
    intro j hsome
    obtain ⟨b, hb, heq⟩ := (indexAt?_eq_some_iff hcode).mp hsome
    exact hnot b (List.mem_of_getElem? hb) heq

/-- A target is not resolved if no instruction stands there. -/
theorem resolveTarget_eq_error_iff {a : Instruction} {e : Error} :
    resolveTarget code a = .error e ↔
      ∃ target, a.branchTarget? = some target ∧ (∀ b ∈ code, (b.offset : Int) ≠ target) ∧
        e = .branchTargetNotFound a.index target := by
  rw [resolveTarget]
  cases htarget : a.branchTarget? with
  | none => simp
  | some target =>
    simp only [Option.some.injEq, exists_eq_left', ← indexAt?_eq_none_iff hcode]
    cases indexAt? code target with
    | none => simp [eq_comm]
    | some j => simp

/-- A target can be resolved exactly if the branch lands on an instruction; other instructions have
none to be resolved. -/
theorem exists_resolveTarget_iff {a : Instruction} (ha : a.opcode ∈ Opcode.catalogue) :
    (∃ t, resolveTarget code a = .ok t) ↔ (a.operation.isBranch = true → a.LandsIn code) := by
  rw [← isSome_branchTarget?_iff ha]
  constructor
  · rintro ⟨t, ht⟩ hsome
    obtain ⟨target, htarget⟩ := Option.isSome_iff_exists.mp hsome
    by_contra hlands
    have hfails := (resolveTarget_eq_error_iff hcode (a := a)).mpr ⟨target, htarget, ?_, rfl⟩
    · rw [ht] at hfails
      cases hfails
    · rintro b hb rfl
      exact hlands ⟨b, hb, htarget⟩
  · intro hlands
    cases hresolve : resolveTarget code a with
    | ok t => exact ⟨t, rfl⟩
    | error e =>
      obtain ⟨target, htarget, hnot, -⟩ := (resolveTarget_eq_error_iff hcode).mp hresolve
      obtain ⟨b, hb, heq⟩ := hlands (htarget ▸ rfl)
      rw [htarget, Option.some.injEq] at heq
      exact absurd heq.symm (hnot b hb)

end Resolving

/-! ### Edges -/

/-- The edges among some instructions, by resolving all of them. -/
theorem edgesAmong_eq (code is : List Instruction) :
    edgesAmong code is = List.reduceOption <$> is.mapM fun a =>
      Option.map (Edge.mk a.index) <$> resolveTarget code a := by
  induction is with
  | nil => rfl
  | cons a is ih =>
    rw [edgesAmong, List.mapM_cons, ih]
    cases resolveTarget code a with
    | error e => rfl
    | ok target =>
      cases is.mapM fun a => Option.map (Edge.mk a.index) <$> resolveTarget code a with
      | error e => cases target <;> rfl
      | ok targets => cases target <;> rfl

/-- Edges cannot be told for the first instruction whose target cannot be resolved. -/
theorem edgesAmong_eq_error {code is : List Instruction} {e : Error} :
    edgesAmong code is = .error e ↔
      ∃ front a behind, is = front ++ a :: behind ∧
        (∀ b ∈ front, ∃ t, resolveTarget code b = .ok t) ∧ resolveTarget code a = .error e := by
  have hgives (b : Instruction) : (∃ edge, Option.map (Edge.mk b.index) <$> resolveTarget code b =
      .ok edge) ↔ ∃ t, resolveTarget code b = .ok t := by
    simp [Result.map_eq_ok, exists_comm]
  simp only [edgesAmong_eq, Result.map_eq_error, Result.mapM_eq_error, hgives]

/-- The indices of sequential instructions are consecutive numbers. -/
theorem Sequential.map_index {index offset : Nat} {code : List Instruction}
    (h : Sequential index offset code) :
    code.map (·.index) = List.range' index code.length := by
  induction code generalizing index offset with
  | nil => rfl
  | cons a code ih => rw [List.map_cons, h.1, ih h.2.2, List.length_cons, List.range'_succ]

/-- An instruction has one edge at most. -/
theorem sublist_of_edgesAmong {code is : List Instruction} {edges : List Edge}
    (h : edgesAmong code is = .ok edges) :
    (edges.map (·.source)).Sublist (is.map (·.index)) := by
  induction is generalizing edges with
  | nil =>
    obtain rfl : [] = edges := by simpa [edgesAmong] using h
    exact List.Sublist.slnil
  | cons a is ih =>
    rw [edgesAmong] at h
    obtain ⟨target, -, h⟩ := Result.bind_eq_ok.mp h
    cases target with
    | none => exact (ih h).cons _
    | some target =>
      obtain ⟨rest, hrest, h⟩ := Result.bind_eq_ok.mp h
      obtain rfl := Result.pure_eq_ok.mp h
      exact (ih hrest).cons_cons _

namespace Graph

variable {bytes : List UInt8} {code : List Instruction} {regions : List Region} {g : Graph}

/-! ### When a graph is built -/

section Decoded

variable (hdecode : decode bytes = .ok code)
include hdecode

/-- **A graph is not built** because of the first branch that lands on no instruction. -/
theorem build_eq_error_iff {e : Error} : build code regions = .error e ↔ FailsToLand code e := by
  have hcode : Sequential 0 0 code := sequential_of_decodeFrom hdecode
  have hopcodes := opcode_mem_of_decodeFrom hdecode
  have hbuild : build code regions = .error e ↔ edgesAmong code code = .error e :=
    Result.map_eq_error
  rw [hbuild, edgesAmong_eq_error]
  constructor
  · rintro ⟨front, a, behind, hsplit, hfront, ha⟩
    obtain ⟨target, htarget, hnot, rfl⟩ := (resolveTarget_eq_error_iff hcode).mp ha
    have hget : code[front.length]? = some a := by rw [hsplit]; simp
    -- the instructions in front of the branch are those at smaller indices
    refine ⟨front.length, a, target, hget, htarget, hnot, fun j hj b hb => ?_, ?_⟩
    · have hmem : b ∈ front := by
        rw [hsplit, List.getElem?_append_left hj] at hb
        exact List.mem_of_getElem? hb
      exact (exists_resolveTarget_iff hcode (hopcodes b (List.mem_of_getElem? hb))).mp
        (hfront b hmem)
    · rw [hcode.index_eq hget, Nat.zero_add]
  · rintro ⟨i, a, target, ha, htarget, hnot, hbefore, rfl⟩
    have hindex : a.index = i := by rw [hcode.index_eq ha, Nat.zero_add]
    obtain ⟨hi, rfl⟩ := List.getElem?_eq_some_iff.mp ha
    refine ⟨code.take i, code[i], code.drop (i + 1), by simp, fun b hb => ?_, ?_⟩
    · obtain ⟨j, hj, rfl⟩ := List.mem_take_iff_getElem.mp hb
      obtain ⟨hji, hlt⟩ := Nat.lt_min.mp hj
      exact (exists_resolveTarget_iff hcode (hopcodes _ (List.mem_of_mem_take hb))).mpr
        (hbefore j hji _ (List.getElem?_eq_getElem hlt))
    · exact (resolveTarget_eq_error_iff hcode).mpr ⟨target, htarget, hnot, by rw [hindex]⟩

/-- **A graph is built** exactly if every branch lands on an instruction. -/
theorem exists_build_iff : (∃ g, build code regions = .ok g) ↔
    ∀ a ∈ code, a.operation.isBranch = true → a.LandsIn code := by
  have hcode : Sequential 0 0 code := sequential_of_decodeFrom hdecode
  have hopcodes := opcode_mem_of_decodeFrom hdecode
  constructor
  · rintro ⟨g, h⟩ a ha
    obtain ⟨edges, hedges, -⟩ := build_eq_ok h
    exact (exists_resolveTarget_iff hcode (hopcodes a ha)).mp
      (exists_resolveTarget_of_edgesAmong hedges ha)
  · intro hall
    rcases hbuild : build code regions with e | g
    · -- the branch that the failure names would land
      obtain ⟨i, a, target, ha, htarget, hnot, -⟩ := (build_eq_error_iff hdecode).mp hbuild
      have hmem := List.mem_of_getElem? ha
      obtain ⟨b, hb, heq⟩ :=
        hall a hmem ((isSome_branchTarget?_iff (hopcodes a hmem)).mp (htarget ▸ rfl))
      rw [htarget, Option.some.injEq] at heq
      exact absurd heq.symm (hnot b hb)
    · exact ⟨g, rfl⟩

variable (h : build code regions = .ok g)
include h

/-! ### Bounds and their causes -/

/-- The branches of a graph are those of its code. -/
theorem exists_target?_iff {i : Nat} : (∃ j, g.target? i = some j) ↔ BranchesAt code i := by
  have hcode : Sequential 0 0 code := sequential_of_decodeFrom hdecode
  have hopcodes := opcode_mem_of_decodeFrom hdecode
  constructor
  · rintro ⟨j, hj⟩
    obtain ⟨a, b, ha, -, htarget⟩ := (target?_eq_some_iff hcode h).mp hj
    refine ⟨a, ha, (isSome_branchTarget?_iff (hopcodes a (List.mem_of_getElem? ha))).mp ?_⟩
    rw [htarget, Option.isSome_some]
  · rintro ⟨a, ha, hbranch⟩
    refine exists_target?_of_isSome hcode h (code_of_build h ▸ ha) ?_
    exact (isSome_branchTarget?_iff (hopcodes a (List.mem_of_getElem? ha))).mpr hbranch

/-- **The causes at an index** are those that mark it. -/
theorem mem_causesAt_iff {cause : Cause} {i : Nat} :
    cause ∈ causesAt code.length regions g.edges i ↔ cause.Marks code regions i := by
  have hcode : Sequential 0 0 code := sequential_of_decodeFrom hdecode
  have hedge {e : Edge} : e ∈ g.edges ↔ BranchesTo code e.source e.target :=
    (mem_edges_iff_target? hcode h).trans (target?_eq_some_iff hcode h)
  cases cause with
  | target source =>
    suffices (∃ e, (e ∈ g.edges ∧ e.target = i) ∧ e.source = source) ↔ BranchesTo code source i by
      simpa [causesAt, Cause.Marks] using this
    constructor
    · rintro ⟨e, ⟨he, rfl⟩, rfl⟩
      exact hedge.mp he
    · exact fun hto => ⟨⟨source, i⟩, ⟨hedge.mpr hto, rfl⟩, rfl⟩
  | afterBranch source =>
    suffices (∃ e, (e ∈ g.edges ∧ e.source + 1 = i) ∧ e.source = source) ↔
        BranchesAt code source ∧ source + 1 = i by
      simpa [causesAt, Cause.Marks] using this
    rw [← exists_target?_iff hdecode h]
    constructor
    · rintro ⟨e, ⟨he, rfl⟩, rfl⟩
      exact ⟨⟨e.target, (mem_edges_iff_target? hcode h).mp he⟩, rfl⟩
    · rintro ⟨⟨t, ht⟩, rfl⟩
      exact ⟨⟨source, t⟩, ⟨(mem_edges_iff_target? hcode h).mpr ht, rfl⟩, rfl⟩
  | _ => simp [causesAt, Cause.Marks]

/-- **The bounds of a graph** are the indices that something marks. -/
theorem mem_indices_iff_marks {i : Nat} :
    i ∈ g.indices ↔ ∃ cause : Cause, cause.Marks code regions i := by
  have hcode : Sequential 0 0 code := sequential_of_decodeFrom hdecode
  rw [mem_indices_iff hcode h]
  constructor
  · rintro (hstart | hend | ⟨r, hr, hi⟩ | ⟨source, target, ht, hi⟩)
    · exact ⟨.methodStart, hstart⟩
    · exact ⟨.methodEnd, hend⟩
    · rcases hi with rfl | rfl | rfl
      · exact ⟨.regionStart, r, hr, rfl⟩
      · exact ⟨.regionEnd, r, hr, rfl⟩
      · exact ⟨.handler, r, hr, rfl⟩
    · rcases hi with rfl | rfl
      · exact ⟨.afterBranch source, (exists_target?_iff hdecode h).mp ⟨target, ht⟩, rfl⟩
      · exact ⟨.target source, (target?_eq_some_iff hcode h).mp ht⟩
  · rintro ⟨cause, hmarks⟩
    cases cause with
    | methodStart => exact .inl hmarks
    | methodEnd => exact .inr (.inl hmarks)
    | regionStart =>
      obtain ⟨r, hr, rfl⟩ := hmarks
      exact .inr (.inr (.inl ⟨r, hr, .inl rfl⟩))
    | regionEnd =>
      obtain ⟨r, hr, rfl⟩ := hmarks
      exact .inr (.inr (.inl ⟨r, hr, .inr (.inl rfl)⟩))
    | handler =>
      obtain ⟨r, hr, rfl⟩ := hmarks
      exact .inr (.inr (.inl ⟨r, hr, .inr (.inr rfl)⟩))
    | target source =>
      exact .inr (.inr (.inr ⟨source, i, (target?_eq_some_iff hcode h).mpr hmarks, .inr rfl⟩))
    | afterBranch source =>
      obtain ⟨hbranch, rfl⟩ := hmarks
      obtain ⟨t, ht⟩ := (exists_target?_iff hdecode h).mpr hbranch
      exact .inr (.inr (.inr ⟨source, t, ht, .inl rfl⟩))

/-- No cause is named twice: an instruction is the source of one edge at most. -/
theorem nodup_causesAt (i : Nat) : (causesAt code.length regions g.edges i).Nodup := by
  have hcode : Sequential 0 0 code := sequential_of_decodeFrom hdecode
  obtain ⟨edges, hedges, -, rfl, -⟩ := build_eq_ok h
  have hsources : (g.edges.map (·.source)).Nodup := by
    refine (sublist_of_edgesAmong hedges).nodup ?_
    rw [hcode.map_index]
    exact List.nodup_range'
  -- each part of the list names sources of some edges, or is one cause at most
  have hmap (p : Edge → Bool) {f : Nat → Cause} (hf : Function.Injective f) :
      ((g.edges.filter p).map fun e => f e.source).Nodup := by
    have hkept : ((g.edges.filter p).map (·.source)).Nodup :=
      (List.filter_sublist.map _).nodup hsources
    have hinjective := hkept.map hf
    rwa [List.map_map] at hinjective
  have htargets := hmap (·.target == i) (f := Cause.target) fun _ _ => Cause.target.inj
  have hafter := hmap (·.source + 1 == i) (f := Cause.afterBranch) fun _ _ => Cause.afterBranch.inj
  have hwhen (b : Bool) (cause : Cause) : (if b then [cause] else []).Nodup := by
    cases b <;> simp
  -- the parts of the list differ by their constructors
  simp only [causesAt, List.nodup_append, hwhen, htargets, hafter, true_and]
  refine ⟨⟨⟨⟨⟨?_, ?_⟩, ?_⟩, ?_⟩, ?_⟩, ?_⟩
  all_goals
    rintro cause hfront _ hnext rfl
    cases cause <;> simp at hfront hnext

end Decoded

/-- A bound has the causes at its index. -/
theorem causes_of_mem_bounds (h : build code regions = .ok g) {b : Bound} (hb : b ∈ g.bounds) :
    b.causes = causesAt code.length regions g.edges b.index := by
  obtain ⟨edges, hedges, h⟩ := Result.bind_eq_ok.mp h
  obtain rfl := Result.pure_eq_ok.mp h
  obtain ⟨i, -, rfl⟩ := List.mem_map.mp hb
  rfl

/-- **A bound is found by its index.** -/
theorem bound?_eq_some_iff (h : build code regions = .ok g) {i : Nat} {b : Bound} :
    g.bound? i = some b ↔ b ∈ g.bounds ∧ b.index = i := by
  constructor
  · intro hb
    exact ⟨List.mem_of_find?_eq_some hb, by simpa using List.find?_some hb⟩
  · rintro ⟨hb, rfl⟩
    rw [bound?_eq_some h (List.mem_map_of_mem hb), ← causes_of_mem_bounds h hb]

/-! ### Labels -/

/-- In a list that ascends, as many elements are less than an element as stand before it. -/
theorem countP_lt_eq {xs : List Nat} (hxs : xs.Pairwise (· < ·)) {p i : Nat}
    (hp : xs[p]? = some i) : xs.countP (· < i) = p := by
  induction xs generalizing p with
  | nil => simp at hp
  | cons x xs ih =>
    obtain ⟨hx, hxs⟩ := List.pairwise_cons.mp hxs
    cases p with
    | zero =>
      obtain rfl : x = i := by simpa using hp
      simpa using fun y hy => Nat.le_of_lt (hx y hy)
    | succ p =>
      rw [List.getElem?_cons_succ] at hp
      have hlt : x < i := hx i (List.mem_of_getElem? hp)
      rw [List.countP_cons_of_pos (by simpa using hlt), ih hxs hp]

/-- **The label of a bound** inside the method: its number counts the bounds before it, and its kind
tells handlers from other places. -/
theorem label?_eq_some_iff_countP (h : build code regions = .ok g) {i : Nat} {label : Label} :
    g.label? i = some label ↔ i ∈ g.indices ∧ i < code.length ∧
      label.id = 1 + g.indices.countP (· < i) ∧
      label.kind = if ∃ r ∈ regions, r.handler = i then .handler else .branch := by
  have hasc := (pairwise_indices h).filter (· < g.code.length)
  -- a label is numbered among the bounds inside the method, and all bounds before one of these are
  -- inside
  have hcount {p : Nat} (hp : (g.indices.filter (· < g.code.length))[p]? = some i) :
      i < code.length ∧ p = g.indices.countP (· < i) := by
    have hlt : i < g.code.length := by simpa using (List.mem_filter.mp (List.mem_of_getElem? hp)).2
    refine ⟨code_of_build h ▸ hlt, ?_⟩
    rw [← countP_lt_eq hasc hp, List.countP_filter]
    refine List.countP_congr fun j _ => ?_
    simp only [Bool.and_eq_true, decide_eq_true_eq, and_iff_left_iff_imp]
    exact fun hj => Nat.lt_trans hj hlt
  have hkind : (if g.regions.any (·.handler == i) then LabelKind.handler else .branch) =
      if ∃ r ∈ regions, r.handler = i then .handler else .branch := by
    obtain ⟨-, -, -, -, rfl, -⟩ := build_eq_ok h
    simp
  rw [label?_eq_some_iff h, hkind]
  constructor
  · rintro ⟨p, hp, rfl⟩
    obtain ⟨hlt, rfl⟩ := hcount hp
    exact ⟨(List.mem_filter.mp (List.mem_of_getElem? hp)).1, hlt, Nat.add_comm _ _, rfl⟩
  · rintro ⟨hi, hlt, hid, hkind⟩
    have hmem : i ∈ g.indices.filter (· < g.code.length) := by
      rw [code_of_build h, List.mem_filter]
      exact ⟨hi, decide_eq_true hlt⟩
    obtain ⟨p, hp⟩ := List.getElem?_of_mem hmem
    obtain ⟨-, rfl⟩ := hcount hp
    refine ⟨_, hp, ?_⟩
    rw [← hkind, Nat.add_comm, ← hid]

end Graph

/-! ### Regions as a set -/

/-- Indices in ascending order are known by what is among them. -/
theorem ascending_congr {is js : List Nat} (h : ∀ k, k ∈ is ↔ k ∈ js) :
    ascending is = ascending js :=
  (pairwise_ascending is).eq_of_mem_iff (pairwise_ascending js) fun k => by
    rw [mem_ascending, mem_ascending, h]

namespace Graph

/-- The graph with other regions, all else being the same. -/
def withRegions (g : Graph) (rs : List Region) : Graph :=
  { g with regions := rs }

/-- **Regions count as a set**: listed in another order or more than once, they give the same bounds
and labels, or the same error. -/
theorem build_of_mem_iff {rs rs' : List Region} (hrs : ∀ r, r ∈ rs' ↔ r ∈ rs)
    (code : List Instruction) :
    build code rs' = (fun g => g.withRegions rs') <$> build code rs := by
  have hany (p : Region → Bool) : rs'.any p = rs.any p := by
    rw [Bool.eq_iff_iff, List.any_eq_true, List.any_eq_true]
    simp only [hrs]
  have hindices (edges : List Edge) :
      boundIndices code.length rs' edges = boundIndices code.length rs edges := by
    refine ascending_congr fun k => ?_
    simp only [List.mem_append, List.mem_cons, List.mem_flatMap, hrs]
  rcases hedges : edgesAmong code code with e | edges
  · rw [build, build, hedges]
    rfl
  · rw [build, build, hedges]
    simp only [bind, Except.bind, hindices, causesAt, labelsFor, hany]
    rfl

/-- The bounds and the labels of a graph are those that its code and the regions ask for. -/
structure Exact (code : List Instruction) (regions : List Region) (g : Graph) : Prop where
  pairwise_indices : g.indices.Pairwise (· < ·)
  mem_indices_iff : ∀ i, i ∈ g.indices ↔ ∃ cause : Cause, cause.Marks code regions i
  /-- Each bound has all its causes, and each of them once. -/
  causes : ∀ b ∈ g.bounds, b.causes.Nodup ∧
    ∀ cause : Cause, cause ∈ b.causes ↔ cause.Marks code regions b.index
  bound?_eq_some_iff : ∀ i b, g.bound? i = some b ↔ b ∈ g.bounds ∧ b.index = i
  /-- The bounds inside the method are numbered in order from 1 on. -/
  label?_eq_some_iff : ∀ i label, g.label? i = some label ↔ i ∈ g.indices ∧ i < code.length ∧
    label.id = 1 + g.indices.countP (· < i) ∧
    label.kind = if ∃ r ∈ regions, r.handler = i then .handler else .branch
  eq_of_id_eq : ∀ i j a b, g.label? i = some a → g.label? j = some b → a.id = b.id → i = j

end Graph

/-- **Bounds and labels are exact.** The graph of a decoded method is built exactly if every branch
lands on an instruction; otherwise the error names the first branch that does not. Its bounds are
the ends of the method, the starts, ends and handlers of the regions, and what stands behind a
branch or is jumped to, in ascending order and each with its causes. The bounds inside the method
have labels, numbered in order. The order of the regions does not count, nor how often one is
listed. -/
theorem bounds_exact {bytes : List UInt8} {code : List Instruction}
    (hdecode : decode bytes = .ok code) (regions : List Region) :
    ((∃ g, Graph.build code regions = .ok g) ↔
        ∀ a ∈ code, a.operation.isBranch = true → a.LandsIn code) ∧
      (∀ e, Graph.build code regions = .error e ↔ FailsToLand code e) ∧
      (∀ g, Graph.build code regions = .ok g → g.Exact code regions) ∧
      ∀ regions', (∀ r, r ∈ regions' ↔ r ∈ regions) →
        Graph.build code regions' =
          (fun g => g.withRegions regions') <$> Graph.build code regions := by
  refine ⟨Graph.exists_build_iff hdecode, fun e => Graph.build_eq_error_iff hdecode, ?_,
    fun regions' hregions => Graph.build_of_mem_iff hregions code⟩
  intro g hg
  exact
    { pairwise_indices := Graph.pairwise_indices hg
      mem_indices_iff := fun i => Graph.mem_indices_iff_marks hdecode hg
      causes := fun b hb => by
        rw [Graph.causes_of_mem_bounds hg hb]
        exact ⟨Graph.nodup_causesAt hdecode hg b.index,
          fun cause => Graph.mem_causesAt_iff hdecode hg⟩
      bound?_eq_some_iff := fun i b => Graph.bound?_eq_some_iff hg
      label?_eq_some_iff := fun i label => Graph.label?_eq_some_iff_countP hg
      eq_of_id_eq := fun i j a b => Graph.eq_of_label?_id_eq hg }

/-- A branch out of a loop inside of a region that is listed twice. -/
theorem bounds_exact_of_repeated_region :
    ∃ code g, decode [0x1a, 0x99, 0, 6, 0xa7, 0xff, 0xfc, 0xb1, 0xbf] = .ok code ∧
      Graph.build code [⟨0, 2, 4, "Throwable"⟩, ⟨0, 2, 4, "Throwable"⟩] = .ok g ∧
      g.indices = [0, 2, 3, 4, 5] ∧
      g.Exact code [⟨0, 2, 4, "Throwable"⟩, ⟨0, 2, 4, "Throwable"⟩] ∧
      Graph.build code [⟨0, 2, 4, "Throwable"⟩] = .ok (g.withRegions [⟨0, 2, 4, "Throwable"⟩]) := by
  have hok : (decode [0x1a, 0x99, 0, 6, 0xa7, 0xff, 0xfc, 0xb1, 0xbf] >>= fun code =>
      (fun g => (code, g, g.indices)) <$>
        Graph.build code [⟨0, 2, 4, "Throwable"⟩, ⟨0, 2, 4, "Throwable"⟩]).map (·.2.2) =
        .ok [0, 2, 3, 4, 5] := by
    decide +kernel
  obtain ⟨⟨code, g, indices⟩, h, hindices⟩ := Result.map_eq_ok.mp hok
  obtain ⟨code', hdecode, h⟩ := Result.bind_eq_ok.mp h
  obtain ⟨g', hg, h⟩ := Result.map_eq_ok.mp h
  cases h
  obtain ⟨-, -, hexact, hregions⟩ := bounds_exact hdecode
    [⟨0, 2, 4, "Throwable"⟩, ⟨0, 2, 4, "Throwable"⟩]
  refine ⟨code, g, hdecode, hg, hindices, hexact g hg, ?_⟩
  rw [hregions [⟨0, 2, 4, "Throwable"⟩] (by simp), hg]
  rfl

end JvmSource
