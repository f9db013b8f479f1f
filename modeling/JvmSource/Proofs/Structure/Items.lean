import JvmSource.Proofs.Structure.Brackets

/-!
# The items of a method

Putting the parts of a method in order gives items unless a loop cannot be nested, and the items are
what they should be: `items_lose_nothing`.

That nothing else can go wrong is an induction along the recursion of `Outline.emit`. A range begins
at a border, so where no loop starts a block does, and that block is not empty. What is behind a
block or a loop is a border again. The one error that is left is the one for a loop that runs past
the end of its range.

What the items are is known from the order of a range: each item that belongs to the method occurs
among them, and none occurs twice, so it occurs once. That loops match as brackets, and what stands
between their ends, is known from there as well.
-/

namespace JvmSource

/-- The order of a range between two borders fails only at a loop that cannot be nested. -/
theorem Outline.Lawful.exists_unstructured_of_emit {o : Outline} (ho : o.Lawful)
    {pending : List (Nat × Loop)} {index stop : Nat} {e : Error}
    (hsub : pending.Sublist o.numberedLoops) (hborder : o.IsBorder index)
    (hstop : stop ≤ o.graph.code.length)
    (h : o.emit (keptBlocks o.blocks) pending index stop = .error e) :
    ∃ loop ∈ o.loops, .error e = (loop.unstructured : Result Unit) := by
  induction pending, index, stop using Outline.emit.induct (o := o) with
  | case1 pending index stop hindex number loop rest htake hlast =>
    rw [emit_of_takeLoop?_eq_some hindex htake, if_pos hlast] at h
    exact ⟨loop, mem_loops_of_numbered (hsub.subset (mem_of_takeLoop? htake)), by cases h; rfl⟩
  | case2 pending index stop hindex number loop rest htake hlast ihfront ihback ihbehind =>
    rw [emit_of_takeLoop?_eq_some hindex htake, if_neg hlast] at h
    have hloop : loop ∈ o.loops := mem_loops_of_numbered (hsub.subset (mem_of_takeLoop? htake))
    -- each of the three ranges begins at a border: at the head of the loop, at its start, and right
    -- behind its last instruction
    have hlawful := ho.lawful_loop hloop
    have hheadlast := hlawful.head_le_last
    have hrest := (sublist_of_takeLoop? htake).trans hsub
    obtain ⟨i, hhead⟩ := ho.exists_target_head hloop
    rcases Result.bind_eq_error.mp h with h | ⟨front, hfront, h⟩
    · exact ihfront hrest (ho.isBorder_target hhead) (by omega) h
    replace hrest := (emits_of_emit hfront).rest_sublist.trans hrest
    rcases Result.bind_eq_error.mp h with h | ⟨back, hback, h⟩
    · exact ihback front hrest (ho.isBorder_target hlawful.target_last) (by omega) h
    replace hrest := (emits_of_emit hback).rest_sublist.trans hrest
    rcases Result.bind_eq_error.mp h with h | ⟨behind, hbehind, h⟩
    · exact ihbehind front back hrest (ho.isBorder_succ hlawful.target_last) hstop h
    · cases h
  | case3 pending index stop hindex htake hblock =>
    -- no block starts here, which a border inside the method rules out
    rcases hborder with rfl | ⟨b, hb, rfl⟩
    · omega
    · obtain ⟨number, c, hc⟩ := exists_blockAt? hb
      simp [hblock] at hc
  | case4 pending index stop hindex htake number b hb hlt ih =>
    simp only [emit_of_takeLoop?_eq_none hindex htake, hb, if_pos hlt] at h
    have hmem := List.mem_of_getElem? (getElem?_of_blockAt? hb).1
    rcases Result.bind_eq_error.mp h with h | ⟨behind, hbehind, h⟩
    · exact ih hsub (ho.isBorder_stop hmem) hstop h
    · cases h
  | case5 pending index stop hindex htake number b hb hle =>
    -- the block would be empty
    obtain ⟨hmem, rfl⟩ := getElem?_of_blockAt? hb
    exact absurd (ho.tiles.bounds (List.mem_of_getElem? hmem)).2.1 hle
  | case6 pending index stop hindex =>
    rw [emit, dif_neg hindex] at h
    cases h

/-- **The order loses and duplicates nothing.** Putting the parts of a method in order gives items,
or it fails at a loop that cannot be nested. In items that it gives, every kept block occurs once
and no other block occurs; every loop has one opening and one closing, and these match as brackets;
between them stand the kept blocks of the loop, the one at its head first; and any two loops are
apart or nested. -/
theorem items_lose_nothing {bytes : List UInt8} {regions : List Region} {o : Outline}
    (hdecode : decode bytes = .ok o.graph.code)
    (hbuild : Graph.build o.graph.code regions = .ok o.graph)
    (hblocks : o.graph.blocks = .ok o.blocks) (hloops : o.graph.loops = .ok o.loops) :
    ((∃ items, o.items = .ok items) ∨ ∃ loop ∈ o.loops, o.items = loop.unstructured) ∧
      ∀ items, o.items = .ok items →
        (∀ number b, items.count (.block number b) =
          if o.blocks[number]? = some b ∧ o.Keeps number then 1 else 0) ∧
        (∀ number loop, items.count (.loopOpen number loop) =
          if o.loops[number]? = some loop then 1 else 0) ∧
        (∀ number loop, items.count (.loopClose number loop) =
          if o.loops[number]? = some loop then 1 else 0) ∧
        Bracketed items ∧
        (∀ number (loop : Loop), o.loops[number]? = some loop → loop.EnclosedIn o number items) ∧
        o.loops.Pairwise Loop.ApartOrNested := by
  have ho : o.Lawful := Outline.lawful_of_build hdecode hbuild hblocks hloops
  constructor
  · rcases h : o.items with e | items
    · rcases Result.bind_eq_error.mp h with hemit | ⟨_, _, h⟩
      · obtain ⟨loop, hloop, heq⟩ := ho.exists_unstructured_of_emit (List.Sublist.refl _)
          ho.isBorder_zero (Nat.le_refl _) hemit
        exact .inr ⟨loop, hloop, by cases heq; rfl⟩
      · cases h
    · exact .inl ⟨items, rfl⟩
  · intro items h
    obtain ⟨rest, hemits⟩ := Outline.emits_of_items h
    have hnodup := ho.nodup_items h
    refine ⟨?_, ?_, ?_, hemits.bracketed, ?_, ho.pairwise_apartOrNested h⟩
    · intro number b
      rw [hnodup.count]
      exact if_congr (ho.mem_block_iff h) rfl rfl
    · intro number loop
      rw [hnodup.count]
      exact if_congr (ho.mem_loopOpen_iff h) rfl rfl
    · intro number loop
      rw [hnodup.count]
      exact if_congr (ho.mem_loopClose_iff h) rfl rfl
    · intro number loop hloop
      exact hemits.enclosedIn ho (List.Sublist.refl _) (Outline.mem_numberedLoops.mpr hloop)
        (Nat.zero_le _) (ho.start_lt_length (List.mem_of_getElem? hloop))

/-- A `while` loop: its condition comes first, then its body. -/
theorem items_lose_nothing_of_whileLoop :
    ∃ (o : Outline) (items : List Item),
      decode [0xa7, 0, 6, 0x84, 0, 1, 0x1a, 0x9b, 0xff, 0xfc, 0xb1] = .ok o.graph.code ∧
      Graph.build o.graph.code [] = .ok o.graph ∧ o.graph.blocks = .ok o.blocks ∧
      o.graph.loops = .ok o.loops ∧ o.items = .ok items ∧ Bracketed items ∧
      ∀ number b, items.count (.block number b) =
        if o.blocks[number]? = some b ∧ o.Keeps number then 1 else 0 := by
  have hok : (do
      let code ← decode [0xa7, 0, 6, 0x84, 0, 1, 0x1a, 0x9b, 0xff, 0xfc, 0xb1]
      let graph ← Graph.build code []
      let blocks ← graph.blocks
      let loops ← graph.loops
      let items ← ({ graph, blocks, loops } : Outline).items
      return (code, graph, blocks, loops, items)).isOk = true := by
    decide +kernel
  obtain ⟨_, h⟩ := Result.exists_of_isOk hok
  obtain ⟨code, hcode, h⟩ := Result.bind_eq_ok.mp h
  obtain ⟨graph, hgraph, h⟩ := Result.bind_eq_ok.mp h
  obtain ⟨blocks, hblocks, h⟩ := Result.bind_eq_ok.mp h
  obtain ⟨loops, hloops, h⟩ := Result.bind_eq_ok.mp h
  obtain ⟨items, hitems, -⟩ := Result.bind_eq_ok.mp h
  obtain rfl := Graph.code_of_build hgraph
  have hall := (items_lose_nothing (o := ⟨graph, blocks, loops⟩) hcode hgraph hblocks hloops).2
    items hitems
  exact ⟨⟨graph, blocks, loops⟩, items, hcode, hgraph, hblocks, hloops, hitems, hall.2.2.2.1,
    hall.1⟩

end JvmSource
