import JvmSource.Method
import JvmSource.Proofs.Flow.Block
import JvmSource.Proofs.Flow.Loop

/-!
# Lawful outlines

What the blocks and the loops of a method have to do with each other and with its graph, gathered
once from the three passes that make them (`Outline.Lawful`): blocks tile the code, branches go from
the ends of blocks to their starts, labels have numbers of their own, and loops end in branches to
their starts. A target that is resolved again is that of the edge, so the visit of the items, which
resolves them, follows the edges.

The order of the items, their scopes and the flow between them rest on these laws alone. So none of
the modules behind this one has to know how a graph is built, or how blocks and loops are found in
it; and the laws hold for the outline of any decoded method (`Outline.lawful_of_build`).

The second part is about *borders*: the indices at which a block starts, and the end of the method.
Blocks, loops and ranges of items begin and end at borders, and no border lies inside of a block.
-/

namespace JvmSource

/-- The blocks and the loops of an outline fit the edges of its graph. -/
structure Outline.Lawful (o : Outline) : Prop where
  tiles : Tiles 0 o.graph.code.length o.blocks
  /-- A target that is resolved again is that of the edge. -/
  resolve_eq : ∀ i, o.graph.resolve i = .ok (o.graph.target? i)
  /-- A branch is the last instruction of a block. -/
  exists_last : ∀ {i t : Nat}, o.graph.target? i = some t → ∃ b ∈ o.blocks, b.last = i
  /-- A branch jumps to the first instruction of a block. -/
  exists_start : ∀ {i t : Nat}, o.graph.target? i = some t → ∃ b ∈ o.blocks, b.start = t
  mem_successors_iff : ∀ {b : Block}, b ∈ o.blocks → ∀ {j : Nat}, j ∈ b.successors ↔
    o.graph.target? b.last = some j ∨ (j = b.stop ∧ o.graph.FallsThrough b.last)
  stop_lt_length : ∀ {b : Block}, b ∈ o.blocks → o.graph.FallsThrough b.last →
    b.stop < o.graph.code.length
  label_start : ∀ {b : Block}, b ∈ o.blocks → o.graph.label? b.start = some b.label
  label_kind_ne : ∀ {i : Nat} {a : Label}, o.graph.label? i = some a → a.kind ≠ .loop
  eq_of_label_id : ∀ {i j : Nat} {a b : Label}, o.graph.label? i = some a →
    o.graph.label? j = some b → a.id = b.id → i = j
  lawful_loop : ∀ {l : Loop}, l ∈ o.loops → l.Lawful o.graph
  pairwise_loops : o.loops.Pairwise fun a b => b.last < a.condition ∧ b.start ≠ a.start

/-- The outline of a decoded method, whatever its regions, is lawful. -/
theorem Outline.lawful_of_build {bytes : List UInt8} {regions : List Region} {o : Outline}
    (hdecode : decode bytes = .ok o.graph.code)
    (hbuild : Graph.build o.graph.code regions = .ok o.graph)
    (hblocks : o.graph.blocks = .ok o.blocks) (hloops : o.graph.loops = .ok o.loops) :
    o.Lawful := by
  have hcode : Sequential 0 0 o.graph.code := sequential_of_decodeFrom hdecode
  have htiles := Graph.tiles_blocks hcode hbuild hblocks
  refine
    { tiles := htiles
      resolve_eq := Graph.resolve_eq hcode hbuild
      exists_last := Graph.exists_last_eq_of_target? hcode hbuild hblocks
      exists_start := ?_
      mem_successors_iff := Graph.mem_successors_iff hcode hbuild hblocks
      stop_lt_length := Graph.stop_lt_length_of_fallsThrough hcode hbuild hblocks
      label_start := ?_
      label_kind_ne := ?_
      eq_of_label_id := Graph.eq_of_label?_id_eq hbuild
      lawful_loop := Graph.lawful_of_mem_loops hdecode hbuild hloops _
      pairwise_loops := Graph.pairwise_loops hdecode hbuild hloops }
  · intro i t ht
    exact (Graph.exists_block_start_iff hcode hbuild hblocks).mpr
      ⟨Graph.target_mem_indices hcode hbuild ht, (Graph.lt_length_of_target? hcode hbuild ht).2⟩
  · intro b hb
    obtain ⟨⟨start, stop⟩, -, hbetween⟩ := Result.exists_of_mem_mapM hblocks hb
    obtain ⟨rfl, -, hlabel, -⟩ := Graph.blockBetween_eq_ok hbetween
    exact hlabel
  · intro i a ha
    obtain ⟨p, -, rfl⟩ := (Graph.label?_eq_some_iff hbuild).mp ha
    dsimp only
    split <;> simp

/-- The outline of a method's code is lawful. -/
theorem Code.lawful_of_outline {c : Code} {pool : Pool} {o : Outline}
    (h : c.outline pool = .ok o) : o.Lawful := by
  obtain ⟨g, hgraph, h⟩ := Result.bind_eq_ok.mp h
  obtain ⟨blocks, hblocks, h⟩ := Result.bind_eq_ok.mp h
  obtain ⟨loops, hloops, h⟩ := Result.bind_eq_ok.mp h
  obtain rfl := Result.pure_eq_ok.mp h
  obtain ⟨regions, hdecode, -, -, hbuild, -⟩ := Code.graph_eq_ok hgraph
  exact Outline.lawful_of_build hdecode hbuild hblocks hloops

/-! ### Borders -/

/-- Whether a block starts at an index, or the method ends there. -/
def Outline.IsBorder (o : Outline) (i : Nat) : Prop :=
  i = o.graph.code.length ∨ ∃ b ∈ o.blocks, b.start = i

namespace Outline.Lawful

variable {o : Outline} (ho : o.Lawful)
include ho

/-- Where there is an edge there is a branch, whose target is found again. -/
theorem exists_branch {i target : Nat} (ht : o.graph.target? i = some target) :
    ∃ a, o.graph.code[i]? = some a ∧ a.operation.isBranch = true ∧
      requireTarget o.graph.code a = .ok target := by
  have hresolve := ho.resolve_eq i
  rw [ht, Graph.resolve] at hresolve
  split at hresolve
  · next a ha =>
    refine ⟨a, ha, ?_, by rw [requireTarget, hresolve]; rfl⟩
    rw [resolveTarget] at hresolve
    split at hresolve
    · cases hresolve
    · next htarget => exact Instruction.isBranch_of_branchTarget? htarget
  · cases hresolve

/-- A method that is not empty has a first block. -/
theorem exists_first (h : 0 < o.graph.code.length) : ∃ b, o.blocks[0]? = some b ∧ b.start = 0 := by
  have htiles := ho.tiles
  rcases hblocks : o.blocks with _ | ⟨b, bs⟩
  · rw [hblocks] at htiles
    exact absurd htiles (Nat.ne_of_lt h)
  · rw [hblocks] at htiles
    exact ⟨b, rfl, htiles.1⟩

/-- The start of the method is a border. -/
theorem isBorder_zero : o.IsBorder 0 := by
  rcases Nat.eq_zero_or_pos o.graph.code.length with hzero | hpos
  · exact .inl hzero.symm
  · obtain ⟨b, hb, hstart⟩ := ho.exists_first hpos
    exact .inr ⟨b, List.mem_of_getElem? hb, hstart⟩

/-- So is the end of each block. -/
theorem isBorder_stop {b : Block} (hb : b ∈ o.blocks) : o.IsBorder b.stop := by
  rcases Nat.lt_or_ge b.stop o.graph.code.length with hlt | hge
  · exact .inr (ho.tiles.exists_start_eq_stop hb hlt)
  · exact .inl (Nat.le_antisymm (ho.tiles.bounds hb).2.2 hge)

/-- So is every place that a branch jumps to. -/
theorem isBorder_target {i t : Nat} (ht : o.graph.target? i = some t) : o.IsBorder t :=
  .inr (ho.exists_start ht)

/-- Behind a branch there is a border. -/
theorem isBorder_succ {i t : Nat} (ht : o.graph.target? i = some t) : o.IsBorder (i + 1) := by
  obtain ⟨b, hb, rfl⟩ := ho.exists_last ht
  rw [ho.tiles.last_add_one hb]
  exact ho.isBorder_stop hb

/-- No border lies inside of a block. -/
theorem stop_le_of_isBorder {b : Block} (hb : b ∈ o.blocks) {i : Nat} (hi : o.IsBorder i)
    (hlt : b.start < i) : b.stop ≤ i := by
  rcases hi with rfl | ⟨c, hc, rfl⟩
  · exact (ho.tiles.bounds hb).2.2
  · refine Nat.le_of_not_lt ?_
    intro hinside
    obtain rfl := ho.tiles.eq_of_contains hb hc ⟨Nat.le_of_lt hlt, hinside⟩
      (ho.tiles.contains_start hc)
    exact Nat.lt_irrefl _ hlt

end Outline.Lawful

/-- A jump does not go on behind itself. -/
theorem Graph.not_fallsThrough_of_jumpsAt {g : Graph} {i : Nat} (h : g.jumpsAt i = true) :
    ¬ g.FallsThrough i := by
  rintro ⟨a, ha, hends⟩
  rw [jumpsAt, ha, Option.any_some] at h
  rw [Operation.endsFlow_eq, h, Bool.or_true] at hends
  cases hends

end JvmSource
