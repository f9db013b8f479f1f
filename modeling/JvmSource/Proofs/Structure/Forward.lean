import JvmSource.Proofs.Structure.Failure
import JvmSource.Proofs.Structure.Jump

/-!
# Methods without a branch back

If no branch of a method jumps back, its targets lie ahead (`Graph.forward_of_branchOffset?`). Then
there are no loops (`Graph.loops_eq_nil`), and the items are the kept blocks in source order
(`Outline.Lawful.items_eq_sourceItems`).

A jump to an item further on is always a `break`, however many scopes have to be opened around each
other for it (`Outline.Lawful.exists_visit`). So the visit comes to its end, and the body is always
written, whatever the lines of its blocks are. What is in it is said row by row
(`Outline.Lawful.rows_of_nest`): the rows of the kept blocks in source order, each with a `break`
for the jump at its end, and between them nothing but rows that open and close scopes. That these
scopes are well nested is a matter of the visit and not repeated here.

The evaluation of the blocks knows nothing of their order, so if the text of such a method fails, it
fails for a reason that has nothing to do with where control goes: `forward_methods_structured`.
-/

namespace JvmSource

open Result (FailsOnly)
open Error (NotFlow)

namespace Graph

/-- Every branch jumps ahead. A branch to itself does not. -/
def Forward (g : Graph) : Prop :=
  ∀ i t, g.target? i = some t → i < t

/-- Branches with positive offsets jump ahead. -/
theorem forward_of_branchOffset? {code : List Instruction} {regions : List Region} {g : Graph}
    (hcode : Sequential 0 0 code) (h : build code regions = .ok g)
    (hoffsets : ∀ a ∈ code, ∀ offset, a.branchOffset? = some offset → 0 < offset) : g.Forward := by
  intro i t ht
  obtain ⟨a, b, ha, -, htarget⟩ := (target?_eq_some_iff hcode h).mp ht
  obtain ⟨offset, hoffset, -⟩ := Option.map_eq_some_iff.mp htarget
  exact (lt_iff_of_target? hcode h ht ha hoffset).mpr
    (hoffsets a (List.mem_of_getElem? ha) offset hoffset)

/-- A method that only jumps ahead has no loops. -/
theorem loops_eq_nil {g : Graph}
    (hoffsets : ∀ a ∈ g.code, ∀ offset, a.branchOffset? = some offset → 0 < offset) :
    g.loops = .ok [] := by
  have hnone (last resume : Nat) :
      (g.code[last]?).filter (fun a => a.jumpsBack && decide (last < resume)) = none := by
    rw [Option.filter_eq_none_iff]
    intro a ha hback
    rw [Bool.and_eq_true, Instruction.jumpsBack, Option.any_eq_true] at hback
    obtain ⟨⟨offset, hoffset, hle⟩, -⟩ := hback
    have := hoffsets a (List.mem_of_getElem? ha) offset hoffset
    rw [decide_eq_true_eq] at hle
    omega
  have hbelow (n resume : Nat) (starts : List Nat) : g.findLoops n resume starts = .ok [] := by
    induction n generalizing resume starts with
    | zero => rfl
    | succ last ih =>
      rw [findLoops, hnone]
      exact ih resume starts
  exact hbelow _ _ _

end Graph

/-! ### Items in source order -/

namespace Outline

/-- Blocks as items, numbered from `n`, those that are not kept left out. -/
def keptItems (o : Outline) (n : Nat) (blocks : List Block) : List Item :=
  ((blocks.zipIdx n).filter fun p => o.Keeps p.2).map fun p => .block p.2 p.1

/-- The kept blocks of a method in source order. -/
def sourceItems (o : Outline) : List Item :=
  o.keptItems 0 o.blocks

/-- The items of some blocks are that of the first one, if it is kept, and those of the others. -/
theorem keptItems_cons (o : Outline) (n : Nat) (b : Block) (blocks : List Block) :
    o.keptItems n (b :: blocks) =
      (if o.Keeps n then [.block n b] else []) ++ o.keptItems (n + 1) blocks := by
  rw [keptItems, keptItems, List.zipIdx_cons]
  split <;> simp_all

/-- The starts of the kept blocks ascend in source order. -/
theorem Lawful.pairwise_sourceItems {o : Outline} (ho : o.Lawful) :
    o.sourceItems.Pairwise fun x y => ∀ m n b c, x = .block m b → y = .block n c →
      b.start < c.start := by
  have hzip : o.blocks.zipIdx.Pairwise fun p q => p.1.start < q.1.start := by
    rw [← List.pairwise_map (f := Prod.fst) (R := fun a b : Block => a.start < b.start),
      List.zipIdx_map_fst]
    exact ho.tiles.pairwise_start
  rw [sourceItems, keptItems, List.pairwise_map]
  refine (hzip.filter _).imp ?_
  rintro ⟨b, m⟩ ⟨c, n⟩ hlt _ _ _ _ ⟨⟩ ⟨⟩
  exact hlt

/-- An item further on in the source is further on in the text. -/
theorem Lawful.lt_of_start_lt {o : Outline} (ho : o.Lawful) {k q m n : Nat} {b c : Block}
    (hk : o.sourceItems[k]? = some (.block m b)) (hq : o.sourceItems[q]? = some (.block n c))
    (hlt : b.start < c.start) : k < q := by
  have hpairwise := List.pairwise_iff_getElem.mp ho.pairwise_sourceItems
  obtain ⟨hklt, hk⟩ := List.getElem?_eq_some_iff.mp hk
  obtain ⟨hqlt, hq⟩ := List.getElem?_eq_some_iff.mp hq
  rcases Nat.lt_trichotomy k q with h | rfl | h
  · exact h
  · cases hk.symm.trans hq
    exact absurd hlt (Nat.lt_irrefl _)
  · have := hpairwise q k hqlt hklt h _ _ _ _ hq hk
    omega

end Outline

/-- Where no loop is left to be opened, the blocks of a range come in source order. -/
theorem Emits.eq_keptItems {o : Outline} (ho : o.Lawful) {pending rest : List (Nat × Loop)}
    {index stop : Nat} {items : List Item} (h : Emits o pending index stop items rest)
    (hpending : pending = []) (before after : List Block) (hblocks : o.blocks = before ++ after)
    (hafter : Tiles index stop after) : items = o.keptItems before.length after := by
  induction h generalizing before after with
  | done hstop =>
    cases after with
    | nil => rfl
    | cons b after =>
      obtain ⟨rfl, hlt, htail⟩ := hafter
      have := htail.le
      omega
  -- no loop is pending, so none is taken out
  | loop _ htake => simp [hpending, takeLoop?] at htake
  | @block _ _ _ _ number b _ hindex _ hb _ _ ih =>
    cases after with
    | nil => exact absurd hafter (Nat.ne_of_lt hindex)
    | cons c after =>
      obtain ⟨rfl, hlt, htail⟩ := hafter
      -- the block that is found is the next one
      obtain ⟨hnumber, hstart⟩ := Outline.getElem?_of_blockAt? hb
      have hc : o.blocks[before.length]? = some c := by simp [hblocks]
      have hcontains := ho.tiles.contains_start (List.mem_of_getElem? hc)
      obtain rfl : number = before.length := by
        refine ho.tiles.position_unique hnumber hc ?_ hcontains
        exact hstart ▸ ho.tiles.contains_start (List.mem_of_getElem? hnumber)
      obtain rfl : b = c := Option.some.inj (hnumber.symm.trans hc)
      have hrest := ih hpending (before ++ [b]) after (by simp [hblocks]) htail
      rw [Outline.keptItems_cons, hrest, List.length_append, List.length_singleton]

namespace Outline.Lawful

variable {o : Outline} (ho : o.Lawful) (hloops : o.loops = [])
include ho hloops

/-- **Without loops the items are the kept blocks in source order.** -/
theorem items_eq_sourceItems : o.items = .ok o.sourceItems := by
  have hpending : o.numberedLoops = [] := by simp [numberedLoops, hloops]
  cases hitems : o.items with
  | error e =>
    rcases Result.bind_eq_error.mp hitems with hemit | ⟨_, _, h⟩
    · obtain ⟨loop, hloop, -⟩ := ho.exists_unstructured_of_emit (List.Sublist.refl _)
        ho.isBorder_zero (Nat.le_refl _) hemit
      rw [hloops] at hloop
      cases hloop
    · cases h
  | ok items =>
    obtain ⟨rest, hemits⟩ := emits_of_items hitems
    rw [hemits.eq_keptItems ho hpending [] o.blocks rfl ho.tiles]
    rfl

/-- **A jump to an item further on is never refused.** -/
theorem exists_visit (hforward : o.graph.Forward) {k : Nat} {item : Item}
    (hk : o.sourceItems[k]? = some item) (scopes : List Scope) :
    ∃ after, o.visit o.sourceItems k item scopes = .ok after := by
  have hitems := ho.items_eq_sourceItems hloops
  obtain ⟨⟨b, number⟩, -, rfl⟩ := List.mem_map.mp (List.mem_of_getElem? hk)
  replace hk : o.sourceItems[k]? = some (.block number b) := hk
  have hmem : b ∈ o.blocks := ho.mem_blocks_of_item hitems hk
  rw [visit]
  cases hentry : o.isLoopEntry b.last with
  | true => exact ⟨_, by rw [visitBlock, hentry]; rfl⟩
  | false =>
    rw [ho.visitBlock_eq hentry]
    split
    · exact ⟨_, rfl⟩
    · next target htarget =>
      obtain ⟨label, hlabel⟩ := ho.exists_label_of_target htarget
      obtain ⟨q, hq⟩ := ho.exists_itemAt? hitems htarget
      obtain ⟨n, c, hc, rfl⟩ := getElem?_of_itemAt? hq
      -- the items come in the order of their blocks
      have hlt : k < q := by
        refine ho.lt_of_start_lt hk hc (Nat.lt_of_le_of_lt ?_ (hforward _ _ htarget))
        have := (ho.tiles.bounds hmem).2.1
        rw [Block.last]
        omega
      rw [visitJump, hlabel]
      simp only [structuredJump, hq, if_pos hlt]
      exact ⟨_, rfl⟩

/-- **The visit of a method that only jumps ahead comes to an end.** -/
theorem exists_nest (hforward : o.graph.Forward) : ∃ n, o.nest o.sourceItems = .ok n := by
  cases hnest : o.nest o.sourceItems with
  | ok n => exact ⟨n, rfl⟩
  | error e =>
    obtain ⟨before, item, after, m, hsplit, -, hvisit⟩ := exists_of_visitFrom_eq_error hnest
    have hk : o.sourceItems[0 + before.length]? = some item := by simp [hsplit]
    obtain ⟨_, hok⟩ := ho.exists_visit hloops hforward hk (m.closeBefore (0 + before.length)).opened
    cases hvisit.symm.trans hok

end Outline.Lawful

/-! ### The rows -/

namespace Row

/-- Of two labelled scopes that open before one item, the one that ends later opens first. -/
theorem opening_pair {l m : Label} {k closeL closeM : Nat} (h : closeL < closeM) (i : Nat) :
    opening [⟨.label l, k, closeL⟩, ⟨.label m, k, closeM⟩] i =
      if k = i then [.enter (m.text ++ ": \x7b"), .enter (l.text ++ ": \x7b")] else [] := by
  by_cases hk : k = i
  · have hle : ¬ 2 * closeM + 1 ≤ 2 * closeL + 1 := by omega
    simp [opening, scopesOpening, hk, List.mergeSort, Scope.key, openingText?, hle]
  · simp [opening, scopesOpening, hk]

end Row

namespace Outline

/-- The lines of a block, the jump at its end written as a `break` out of the scope with the label
of its target. The lines of a block without a jump stay as they are. -/
def breakLines (o : Outline) (b : Block) (ls : List (Option String)) : List (Option String) :=
  match (o.graph.target? b.last).bind o.graph.label? with
  | none => ls
  | some label =>
    ls.modify (b.last - b.start) (·.map fun text =>
      Text.replaceFirst text ("goto " ++ label.text) ("break " ++ label.text))

/-- The rows of some blocks with their numbers, one after the other. The first one is item `k`, and
before each of them stand the rows of the scopes that close and open there. -/
theorem rowsFrom_blocks (o : Outline) (options : Options) (lines : List (List (Option String)))
    (scopes : List Scope) (k : Nat) (blocks : List (Block × Nat)) :
    o.rowsFrom options lines scopes k (blocks.map fun p => .block p.2 p.1) =
      .ok ((blocks.zipIdx k).flatMap fun ((b, number), k) =>
        (Row.closing scopes k ++ Row.opening scopes k)
          ++ blockRows options b (lines.getD number [])) := by
  induction blocks generalizing k with
  | nil => rfl
  | cons p blocks ih =>
    rw [List.map_cons, rowsFrom, ih, List.zipIdx_cons, List.flatMap_cons]
    rfl

/-- Scopes close and open on rows of their own. -/
theorem ne_line_of_mem_closing_opening {scopes : List Scope} {k : Nat} {row : Row}
    (h : row ∈ Row.closing scopes k ++ Row.opening scopes k) (text : String) :
    row ≠ .line text := by
  rintro rfl
  simp [Row.closing, Row.opening] at h

namespace Lawful

variable {o : Outline} (ho : o.Lawful) (hloops : o.loops = [])
include ho hloops

/-- **Without loops every jump is a `break`** out of the scope with the label of its target. -/
theorem jump_eq_breakOut {n : Nesting} (hnest : o.nest o.sourceItems = .ok n) {k number : Nat}
    {b : Block} (hk : o.sourceItems[k]? = some (.block number b)) :
    n.jumps[k]? = some (((o.graph.target? b.last).bind o.graph.label?).map .breakOut) := by
  have hitems := ho.items_eq_sourceItems hloops
  have hentry : o.isLoopEntry b.last = false := by simp [isLoopEntry, hloops]
  obtain ⟨jump, hjump, hexplains⟩ := (ho.wellNested hitems hnest).explains k number b hk
  rw [hjump]
  rcases jump with _ | (_ | label | ⟨label, name⟩)
  · rw [hexplains.2]
    rfl
  · cases hentry.symm.trans hexplains
  · -- a jump that is written has the label of its target
    obtain ⟨-, s, -, -, -, target, htarget, -⟩ := hexplains
    obtain ⟨label', jump, hlabel, hjump', hleads⟩ :=
      ho.exists_leadsTo hitems hnest hk hentry htarget
    obtain rfl := Option.some.inj (Option.some.inj (hjump.symm.trans hjump'))
    obtain rfl : label = label' := hleads
    rw [htarget, Option.bind_some, hlabel]
    rfl
  · -- the items of a loop would be among the blocks
    obtain ⟨-, s, m, loop, hfits, hkind, -⟩ := hexplains
    obtain ⟨m, loop, -, -, hopen⟩ :=
      hfits.getElem?_of_opens (Scope.IsLoop.opens_eq ⟨m, loop, hkind⟩)
    obtain ⟨p, -, hp⟩ := List.mem_map.mp (List.mem_of_getElem? hopen)
    cases hp

/-- The visit rewrites the lines of each block for the `break` at its end. -/
theorem getD_rewriteLines {n : Nesting} (hnest : o.nest o.sourceItems = .ok n) {k number : Nat}
    {b : Block} (hk : o.sourceItems[k]? = some (.block number b))
    (lines : List (List (Option String))) :
    (n.rewriteLines o.sourceItems lines).getD number [] =
      o.breakLines b (lines.getD number []) := by
  rw [List.getD_eq_getElem?_getD, List.getD_eq_getElem?_getD, ho.getElem?_rewriteLines
    (ho.items_eq_sourceItems hloops) hk (ho.jump_eq_breakOut hloops hnest hk), breakLines]
  cases (o.graph.target? b.last).bind o.graph.label? with
  | none => simp
  | some label =>
    cases lines[number]? with
    | none => simp
    | some ls =>
      simp only [Option.map_some, Option.elim_some, Option.getD_some, Nesting.rewriteBlock]
      congr 1
      funext line
      cases line <;> rfl

/-- **The rows of a method without loops** are those of its kept blocks in source order. Before each
of them stand those of the scopes that close and open there. -/
theorem rows_of_nest {n : Nesting} (hnest : o.nest o.sourceItems = .ok n) (options : Options)
    (lines : List (List (Option String))) :
    o.rows options lines = .ok ((o.blocks.zipIdx.filter fun p => o.Keeps p.2).zipIdx.flatMap
      fun ((b, number), k) => Row.closing n.closed k ++ Row.opening n.closed k
        ++ blockRows options b (o.breakLines b (lines.getD number []))) := by
  have hrows := o.rowsFrom_blocks options (n.rewriteLines o.sourceItems lines) n.closed 0
    (o.blocks.zipIdx.filter fun p => o.Keeps p.2)
  refine Result.bind_eq_ok.mpr ⟨_, ho.items_eq_sourceItems hloops,
    Result.bind_eq_ok.mpr ⟨n, hnest, hrows.trans (congrArg Except.ok ?_)⟩⟩
  refine List.flatMap_congr fun ⟨⟨b, number⟩, k⟩ hmem => ?_
  have hk : o.sourceItems[k]? = some (.block number b) := by
    rw [sourceItems, keptItems, List.getElem?_map, List.mem_zipIdx_iff_getElem?.mp hmem]
    rfl
  dsimp only
  rw [ho.getD_rewriteLines hloops hnest hk]

end Lawful

end Outline

/-- The lines of the blocks of a method fail for no reason that has to do with the flow. -/
theorem Signature.failsOnly_blockLines {o : Outline} (ho : o.graph.Labelled) (sig : Signature)
    (c : Code) (pool : Pool) (options : Options) :
    FailsOnly NotFlow (sig.blockLines c pool options o) := by
  refine (Result.failsOnly_bind (by simp)).mpr fun table _ => ?_
  refine (Result.failsOnly_bind (by simp)).mpr fun locals _ => ?_
  exact Context.failsOnly_evaluateAll_notFlow ho _ _

/-- **Every method without a branch back can be structured.** In a checked method whose branches all
have positive offsets no loops are found, and the items are the kept blocks in source order. The
body is written whatever the lines of the blocks are: its rows are those of the kept blocks in that
order, with nothing but openings and closings of scopes between them, and the last line of a block
that branches has its `goto` replaced by a `break` to the same label. So no text of such a method
fails because of where control goes, however its jumps overlap. -/
theorem forward_methods_structured {c : Code} {pool : Pool} {g : Graph} {bs : List Block}
    (hgraph : c.graph pool = .ok g) (hblocks : g.blocks = .ok bs)
    (hoffsets : ∀ a ∈ g.code, ∀ offset, a.branchOffset? = some offset → 0 < offset) :
    g.loops = .ok [] ∧
      Outline.items ⟨g, bs, []⟩ = .ok ((bs.zipIdx.filter fun (_, number) =>
        (keptBlocks bs).getD number false).map fun (b, number) => .block number b) ∧
      (∀ options lines, ∃ (between : Nat → List Row) (rows : List Row),
        (∀ k, ∀ row ∈ between k, ∀ text, row ≠ .line text) ∧
        (rows =
          (bs.zipIdx.filter fun (_, number) => (keptBlocks bs).getD number false).zipIdx.flatMap
          fun ((b, number), k) => between k ++
            Outline.blockRows options b (Outline.breakLines ⟨g, bs, []⟩ b (lines.getD number []))) ∧
        Outline.rows ⟨g, bs, []⟩ options lines = .ok rows ∧
        Outline.body ⟨g, bs, []⟩ options lines =
          .ok ("\x7b" ++ String.join ((Row.layout 1 rows).map fun (depth, text) =>
            Outline.rowText options.indent depth text) ++ "\n\x7d")) ∧
      ∀ (sig : Signature) options e, sig.body c pool options = .error e → e.isFlow = false := by
  obtain ⟨regions, hdecode, -, hcode, hbuild, -⟩ := Code.graph_eq_ok hgraph
  have hforward := Graph.forward_of_branchOffset? hcode hbuild hoffsets
  have hloops := Graph.loops_eq_nil hoffsets
  have ho : Outline.Lawful ⟨g, bs, []⟩ := Outline.lawful_of_build hdecode hbuild hblocks hloops
  have hkeeps : (fun p : Block × Nat => decide (Outline.Keeps ⟨g, bs, []⟩ p.2)) =
      fun (_, number) => (keptBlocks bs).getD number false := by
    funext p
    simp [Outline.Keeps]
  obtain ⟨n, hnest⟩ := ho.exists_nest rfl hforward
  have hrows := ho.rows_of_nest rfl hnest
  rw [hkeeps] at hrows
  refine ⟨hloops, ?_, ?_, ?_⟩
  · rw [ho.items_eq_sourceItems rfl, Outline.sourceItems, Outline.keptItems, hkeeps]
  · intro options lines
    have hbetween (k : Nat) : ∀ row ∈ Row.closing n.closed k ++ Row.opening n.closed k,
        ∀ text, row ≠ .line text :=
      fun _ => Outline.ne_line_of_mem_closing_opening
    exact ⟨fun k => Row.closing n.closed k ++ Row.opening n.closed k, _, hbetween, rfl,
      hrows options lines, Result.bind_eq_ok.mpr ⟨_, hrows options lines, rfl⟩⟩
  · intro sig options
    have houtline : c.outline pool = .ok ⟨g, bs, []⟩ :=
      Result.bind_eq_ok.mpr ⟨g, hgraph, Result.bind_eq_ok.mpr ⟨bs, hblocks,
        Result.bind_eq_ok.mpr ⟨[], hloops, rfl⟩⟩⟩
    -- the lines are written before the structure is known, and they fail for other reasons
    have hlines := sig.failsOnly_blockLines (o := ⟨g, bs, []⟩)
      (Graph.labelled_of_build hdecode hbuild) c pool options
    rw [Signature.body_eq, houtline]
    refine (Result.failsOnly_bind hlines).mpr fun lines _ => ?_
    exact (Result.failsOnly_bind (hrows options lines ▸ Result.failsOnly_ok _)).mpr fun _ _ =>
      Result.failsOnly_ok _

/-- Two jumps that cross: each leaves a scope that begins before the scope of the other one ends.
The five blocks follow each other in the text as they do in the code. -/
theorem forward_methods_structured_of_crossing_jumps :
    ∃ (g : Graph) (bs : List Block) (lines : List (List (Option String)))
        (between : Nat → List Row),
      (Code.ofParts 1 1 [0x1a, 0x99, 0, 10, 0x1a, 0x9a, 0, 9, 0x84, 0, 1, 0x84, 0, 1, 0xb1]
        [] []).graph ⟨#[]⟩ = .ok g ∧ g.blocks = .ok bs ∧
      (∀ a ∈ g.code, ∀ offset, a.branchOffset? = some offset → 0 < offset) ∧
      g.target? 1 = some 5 ∧ g.target? 3 = some 6 ∧ g.loops = .ok [] ∧
      (bs.map fun b => b.stop - b.start) = lines.map List.length ∧
      Outline.rows ⟨g, bs, []⟩ {} lines =
        .ok ((bs.zipIdx.filter fun (_, number) => (keptBlocks bs).getD number false).zipIdx.flatMap
          fun ((b, number), k) => between k ++
            Outline.blockRows {} b (Outline.breakLines ⟨g, bs, []⟩ b (lines.getD number []))) ∧
      Outline.body ⟨g, bs, []⟩ {} lines = .ok (String.join ["\x7b", "\n\tL5: \x7b",
        "\n\t\tL4: \x7b", "\n\t\t\t/*  1 */ if(arg0 == 0) \x7b break L4; \x7d",
        "\n\t\t\t/*  3 */ if(arg0 != 0) \x7b break L5; \x7d", "\n\t\t\t/*  4 */ arg0++;",
        "\n\t\t\x7d", "\n\t\t/*  5 */ arg0++;", "\n\t\x7d", "\n\t/*  6 */ return;",
        "\n\x7d"]) := by
  obtain ⟨lines, hok, hwritten⟩ : ∃ lines : List (List (Option String)),
      ((Code.ofParts 1 1 [0x1a, 0x99, 0, 10, 0x1a, 0x9a, 0, 9, 0x84, 0, 1, 0x84, 0, 1, 0xb1]
        [] []).graph ⟨#[]⟩ >>= fun g => g.blocks >>= fun bs =>
          .ok (g.code.map (·.branchOffset?), g.edges, bs.map fun b => b.stop - b.start)) =
        .ok ([none, some 10, none, some 9, none, none, none], [⟨1, 5⟩, ⟨3, 6⟩],
          lines.map List.length) ∧
      ((Code.ofParts 1 1 [0x1a, 0x99, 0, 10, 0x1a, 0x9a, 0, 9, 0x84, 0, 1, 0x84, 0, 1, 0xb1]
        [] []).graph ⟨#[]⟩ >>= fun g => g.blocks >>= fun bs =>
          Outline.nest ⟨g, bs, []⟩ (Outline.sourceItems ⟨g, bs, []⟩) >>= fun n =>
          .ok (n.closed,
            (bs.zipIdx.filter fun p => Outline.Keeps ⟨g, bs, []⟩ p.2).zipIdx.flatMap
              fun ((b, number), k) => Row.closing n.closed k
                ++ (if 0 = k then [.enter "L5: \x7b", .enter "L4: \x7b"] else [])
                ++ Outline.blockRows {} b
                  (Outline.breakLines ⟨g, bs, []⟩ b (lines.getD number [])))) =
        .ok ([⟨.label ⟨4, .branch⟩, 0, 3⟩, ⟨.label ⟨5, .branch⟩, 0, 4⟩],
          [.enter "L5: \x7b", .enter "L4: \x7b",
            .line "/*  1 */ if(arg0 == 0) \x7b break L4; \x7d",
            .line "/*  3 */ if(arg0 != 0) \x7b break L5; \x7d", .line "/*  4 */ arg0++;", .leave,
            .line "/*  5 */ arg0++;", .leave, .line "/*  6 */ return;"]) := by
    refine ⟨[[none, some "if(arg0 == 0) \x7b goto L4; \x7d"],
      [none, some "if(arg0 != 0) \x7b goto L5; \x7d"], [some "arg0++;"], [some "arg0++;"],
      [some "return;"]], ?_, ?_⟩
    · decide +kernel
    · decide +kernel
  obtain ⟨g, hgraph, h⟩ := Result.bind_eq_ok.mp hok
  obtain ⟨bs, hblocks, h⟩ := Result.bind_eq_ok.mp h
  obtain ⟨hoffsets, hedges, hshape⟩ : _ ∧ _ ∧ _ := by
    simpa only [Except.ok.injEq, Prod.mk.injEq] using h
  obtain ⟨g', hgraph', h⟩ := Result.bind_eq_ok.mp hwritten
  obtain rfl := Except.ok.inj (hgraph.symm.trans hgraph')
  obtain ⟨bs', hblocks', h⟩ := Result.bind_eq_ok.mp h
  obtain rfl := Except.ok.inj (hblocks.symm.trans hblocks')
  obtain ⟨n, hnest, h⟩ := Result.bind_eq_ok.mp h
  obtain ⟨hclosed, hlist⟩ := Prod.mk.inj (Except.ok.inj h)
  have hpos : ∀ a ∈ g.code, ∀ offset, a.branchOffset? = some offset → 0 < offset := by
    intro a ha offset hoffset
    have hmem : some offset ∈ [none, some 10, none, some 9, none, none, none] := by
      rw [← hoffsets, ← hoffset]
      exact List.mem_map_of_mem ha
    have hcases : offset = 10 ∨ offset = 9 := by simpa using hmem
    omega
  obtain ⟨hloops, -, hbody, -⟩ := forward_methods_structured hgraph hblocks hpos
  obtain ⟨between, rows, -, rfl, hbetween, -⟩ := hbody {} lines
  refine ⟨g, bs, lines, between, hgraph, hblocks, hpos, by rw [Graph.target?, hedges]; rfl,
    by rw [Graph.target?, hedges]; rfl, hloops, hshape, hbetween, ?_⟩
  -- both scopes open with the first block, the one for the jump further on outside
  have hopening (k : Nat) : Row.opening n.closed k =
      if 0 = k then [.enter "L5: \x7b", .enter "L4: \x7b"] else [] := by
    rw [hclosed]
    exact Row.opening_pair (by decide) k
  obtain ⟨regions, hdecode, -, -, hbuild, -⟩ := Code.graph_eq_ok hgraph
  have hrows := (Outline.lawful_of_build hdecode hbuild hblocks hloops).rows_of_nest rfl hnest
  simp only [hopening] at hrows
  refine Result.bind_eq_ok.mpr ⟨_, (hrows {} lines).trans (congrArg Except.ok hlist), ?_⟩
  decide +kernel

end JvmSource
