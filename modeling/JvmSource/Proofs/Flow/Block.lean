import Mathlib.Tactic.ByContra
import JvmSource.Flow.Block
import JvmSource.Proofs.Flow.Graph

/-!
# Blocks and the flow between instructions

The blocks of a method tile it: each begins where the one before it ends, and none is empty
(`Graph.tiles_blocks`). Their starts are the bounds inside the method, so a block ends exactly where
the next bound is (`Graph.stop_eq_of_succ_mem`), and its successors are read off its last
instruction (`Graph.mem_successors_iff`).

The main statement is `blocks_represent_flow`. Control goes from one instruction of a checked method
to another exactly if it goes on inside a block, or if it goes from the last instruction of a block
to one of the block's successors. Three passes have to agree for this:

* the bounds: every branch is followed by one, and so is every place it jumps to;
* the check: returns and throws are only kept from the middle of a block by it, since what stands
  behind one of them must be a bound;
* the cutting into blocks: the last block must not run off the end.

The flow between instructions (`FlowsTo`) is stated without any of the passes, from the offsets of
the instructions and from what the operations are.

That blocks tile a range (`Tiles`) is a recursion on the list of blocks, and what follows from it,
such as that every index lies in exactly one block, is proved by induction on that list. Nothing of
this depends on how blocks are found.
-/

namespace JvmSource

/-- Whether an instruction belongs to a block. -/
def Block.Contains (b : Block) (i : Nat) : Prop :=
  b.start ≤ i ∧ i < b.stop

/-- The instructions of a block are those of the method from its start on. -/
theorem Block.getElem?_of_body {b : Block} {code front behind : List Instruction}
    {instr : Instruction} (h : b.body code = front ++ instr :: behind) :
    code[b.start + front.length]? = some instr ∧ b.Contains (b.start + front.length) := by
  have hget : (b.body code)[front.length]? = some instr := by simp [h]
  rw [Block.body, List.getElem?_take] at hget
  split at hget
  · next hlt =>
    rw [List.getElem?_drop] at hget
    exact ⟨hget, Nat.le_add_right _ _, by omega⟩
  · cases hget

/-! ### Blocks that tile a range -/

/-- Blocks that are not empty and cover the indices from `start` up to `stop` in order, without
gap or overlap. -/
def Tiles (start stop : Nat) : List Block → Prop
  | [] => start = stop
  | b :: bs => b.start = start ∧ start < b.stop ∧ Tiles b.stop stop bs

namespace Tiles

variable {start stop : Nat} {bs : List Block}

theorem le (h : Tiles start stop bs) : start ≤ stop := by
  induction bs generalizing start with
  | nil => exact Nat.le_of_eq h
  | cons b bs ih =>
    obtain ⟨-, hlt, htail⟩ := h
    exact Nat.le_trans (Nat.le_of_lt hlt) (ih htail)

/-- Every block of a tiling is a part of the range and is not empty. -/
theorem bounds (h : Tiles start stop bs) {b : Block} (hb : b ∈ bs) :
    start ≤ b.start ∧ b.start < b.stop ∧ b.stop ≤ stop := by
  induction bs generalizing start with
  | nil => simp at hb
  | cons c bs ih =>
    obtain ⟨rfl, hlt, htail⟩ := h
    rcases List.mem_cons.mp hb with rfl | hb
    · exact ⟨Nat.le_refl _, hlt, htail.le⟩
    · obtain ⟨h1, h2, h3⟩ := ih htail hb
      exact ⟨by omega, h2, h3⟩

/-- Every index of the range lies in a block. -/
theorem exists_contains (h : Tiles start stop bs) {i : Nat} (hi : start ≤ i) (hi' : i < stop) :
    ∃ b ∈ bs, b.Contains i := by
  induction bs generalizing start with
  | nil =>
    have : start = stop := h
    omega
  | cons b bs ih =>
    obtain ⟨rfl, hlt, htail⟩ := h
    by_cases hb : i < b.stop
    · exact ⟨b, List.mem_cons_self, hi, hb⟩
    · obtain ⟨c, hc, hci⟩ := ih htail (by omega)
      exact ⟨c, List.mem_cons_of_mem _ hc, hci⟩

/-- No index lies in two blocks. -/
theorem position_unique (h : Tiles start stop bs) {p q i : Nat} {b c : Block}
    (hb : bs[p]? = some b) (hc : bs[q]? = some c) (hbi : b.Contains i) (hci : c.Contains i) :
    p = q := by
  induction bs generalizing start p q with
  | nil => simp at hb
  | cons d bs ih =>
    obtain ⟨rfl, hlt, htail⟩ := h
    cases p with
    | zero =>
      cases q with
      | zero => rfl
      | succ q =>
        obtain rfl : d = b := by simpa using hb
        have hle := (htail.bounds (List.mem_of_getElem? (List.getElem?_cons_succ ▸ hc))).1
        exact absurd hbi.2 (Nat.not_lt.mpr (Nat.le_trans hle hci.1))
    | succ p =>
      cases q with
      | zero =>
        obtain rfl : d = c := by simpa using hc
        have hle := (htail.bounds (List.mem_of_getElem? (List.getElem?_cons_succ ▸ hb))).1
        exact absurd hci.2 (Nat.not_lt.mpr (Nat.le_trans hle hbi.1))
      | succ q =>
        rw [List.getElem?_cons_succ] at hb hc
        rw [ih htail hb hc]

/-- An index lies in one block only. -/
theorem eq_of_contains (h : Tiles start stop bs) {i : Nat} {b c : Block} (hb : b ∈ bs) (hc : c ∈ bs)
    (hbi : b.Contains i) (hci : c.Contains i) : b = c := by
  obtain ⟨p, hp⟩ := List.getElem?_of_mem hb
  obtain ⟨q, hq⟩ := List.getElem?_of_mem hc
  obtain rfl := h.position_unique hp hq hbi hci
  exact Option.some.inj (hp.symm.trans hq)

/-- Behind a block stands the next one, or the end of the range. -/
theorem exists_start_eq_stop (h : Tiles start stop bs) {b : Block} (hb : b ∈ bs)
    (hstop : b.stop < stop) : ∃ c ∈ bs, c.start = b.stop := by
  induction bs generalizing start with
  | nil => simp at hb
  | cons d bs ih =>
    obtain ⟨rfl, hlt, htail⟩ := h
    rcases List.mem_cons.mp hb with rfl | hb
    · cases bs with
      | nil =>
        have : b.stop = stop := htail
        omega
      | cons c bs => exact ⟨c, by simp, htail.1⟩
    · obtain ⟨c, hc, hstart⟩ := ih htail hb
      exact ⟨c, List.mem_cons_of_mem _ hc, hstart⟩

/-- The blocks of a tiling start one behind the other. -/
theorem pairwise_start (h : Tiles start stop bs) :
    bs.Pairwise fun a b => a.start < b.start := by
  induction bs generalizing start with
  | nil => exact List.Pairwise.nil
  | cons b bs ih =>
    obtain ⟨rfl, hlt, htail⟩ := h
    refine List.pairwise_cons.mpr ⟨fun c hc => ?_, ih htail⟩
    exact Nat.lt_of_lt_of_le hlt (htail.bounds hc).1

theorem contains_start (h : Tiles start stop bs) {b : Block} (hb : b ∈ bs) :
    b.Contains b.start :=
  ⟨Nat.le_refl _, (h.bounds hb).2.1⟩

/-- The first block starts where the range does. -/
theorem start_of_getElem?_zero (h : Tiles start stop bs) {b : Block} (hb : bs[0]? = some b) :
    b.start = start := by
  cases bs with
  | nil => simp at hb
  | cons c bs =>
    obtain rfl : c = b := by simpa using hb
    exact h.1

/-- The last instruction of a block is the one in front of its end. -/
theorem last_add_one (h : Tiles start stop bs) {b : Block} (hb : b ∈ bs) :
    b.last + 1 = b.stop := by
  have hlt := (h.bounds hb).2.1
  rw [Block.last]
  omega

end Tiles

namespace Graph

/-- Whether control may go on behind an instruction: whether there is one, and it does not end the
flow. -/
def FallsThrough (g : Graph) (i : Nat) : Prop :=
  ∃ a, g.code[i]? = some a ∧ a.operation.endsFlow = false

variable {code : List Instruction} {regions : List Region} {g : Graph} {bs : List Block}

/-! ### The blocks of a graph -/

/-- What a block is read off from. -/
theorem blockBetween_eq_ok {start stop : Nat} {b : Block} (h : g.blockBetween start stop = .ok b) :
    b.start = start ∧ b.stop = stop ∧ g.label? start = some b.label ∧
      b.caught = g.caughtAt start ∧
      ∃ last, g.code[stop - 1]? = some last ∧ g.successors last stop = .ok b.successors := by
  obtain ⟨label, hlabel, h⟩ := Result.bind_eq_ok.mp h
  have hlabel' : g.label? start = some label := by
    rw [exitLabel] at hlabel
    split at hlabel <;> simp_all
  split at h
  · cases h
  · next last hlast =>
    obtain ⟨successors, hsuccessors, h⟩ := Result.bind_eq_ok.mp h
    obtain ⟨exits, -, h⟩ := Result.bind_eq_ok.mp h
    obtain rfl := Result.pure_eq_ok.mp h
    exact ⟨rfl, rfl, hlabel', rfl, last, hlast, hsuccessors⟩

/-- The pairs of neighbours in a list of bounds, cut off at `size`. -/
private def spansOf (size : Nat) (is : List Nat) : List (Nat × Nat) :=
  ((is.zip is.tail).map fun (start, stop) => (start, min stop size)).filter
    fun (start, stop) => decide (start < stop)

/-- One step along the bounds: neighbours make a span if something lies between them. -/
private theorem spansOf_cons_cons (size a b : Nat) (is : List Nat) :
    spansOf size (a :: b :: is) =
      if a < min b size then (a, min b size) :: spansOf size (b :: is)
      else spansOf size (b :: is) := by
  simp only [spansOf, List.tail_cons, List.zip_cons_cons, List.map_cons, List.filter_cons,
    decide_eq_true_eq]

/-- There is no span behind the end of the method. -/
private theorem spansOf_eq_nil {size : Nat} {is : List Nat} (h : ∀ i ∈ is, size ≤ i) :
    spansOf size is = [] := by
  rw [spansOf, List.filter_eq_nil_iff]
  rintro ⟨start, stop⟩ hmem
  obtain ⟨⟨x, y⟩, hxy, heq⟩ := List.mem_map.mp hmem
  have hx := h x (List.of_mem_zip hxy).1
  obtain ⟨rfl, rfl⟩ := Prod.mk.inj heq
  simp only [decide_eq_true_eq]
  omega

/-- The blocks between neighbouring bounds tile the range from the first bound to the end of the
method, if that is a bound. -/
private theorem tiles_of_forall₂ {size : Nat} {f : Nat × Nat → Result Block}
    (hf : ∀ {s b}, f s = .ok b → b.start = s.1 ∧ b.stop = s.2) {a : Nat} {is : List Nat}
    {bs : List Block} (hasc : (a :: is).Pairwise (· < ·)) (hsize : size ∈ a :: is)
    (h : List.Forall₂ (fun s b => f s = .ok b) (spansOf size (a :: is)) bs) :
    Tiles a size bs ∧ bs.map (·.start) = (a :: is).filter (· < size) := by
  induction is generalizing a bs with
  | nil =>
    obtain rfl : size = a := by simpa using hsize
    obtain rfl : bs = [] := List.forall₂_nil_left_iff.mp h
    exact ⟨rfl, by simp⟩
  | cons b is ih =>
    obtain ⟨hlt, hasc'⟩ := List.pairwise_cons.mp hasc
    rcases List.mem_cons.mp hsize with rfl | hsize
    · -- the method ends at the first bound: no block is left
      have hbehind : ∀ i ∈ size :: b :: is, size ≤ i := by
        intro i hi
        rcases List.mem_cons.mp hi with rfl | hi
        · exact Nat.le_refl _
        · exact Nat.le_of_lt (hlt i hi)
      rw [spansOf_eq_nil hbehind, List.forall₂_nil_left_iff] at h
      subst h
      refine ⟨rfl, ?_⟩
      rw [List.map_nil, eq_comm, List.filter_eq_nil_iff]
      exact fun i hi => by simpa using hbehind i hi
    · -- the first span is a block, and the induction hypothesis tiles the range behind it
      have hab : a < b := hlt b List.mem_cons_self
      have hbsize : b ≤ size := by
        rcases List.mem_cons.mp hsize with rfl | hmem
        · exact Nat.le_refl _
        · exact Nat.le_of_lt ((List.pairwise_cons.mp hasc').1 size hmem)
      rw [spansOf_cons_cons, Nat.min_eq_left hbsize, if_pos hab] at h
      obtain ⟨c, cs, hc, hcs, rfl⟩ := List.forall₂_cons_left_iff.mp h
      obtain ⟨hstart, hstop⟩ := hf hc
      obtain ⟨htiles, hstarts⟩ := ih hasc' hsize hcs
      refine ⟨⟨hstart, by rw [hstop]; exact hab, by rw [hstop]; exact htiles⟩, ?_⟩
      have hfilter : (a :: b :: is).filter (· < size) = a :: (b :: is).filter (· < size) :=
        List.filter_cons_of_pos (decide_eq_true (by omega))
      rw [List.map_cons, hstarts, hstart, hfilter]

/-- The successors of an instruction, read off the edges of the graph. They are resolved again from
the code, with the same outcome. -/
theorem successors_eq (hcode : Sequential 0 0 code) (h : build code regions = .ok g) {i stop : Nat}
    {last : Instruction} (hlast : g.code[i]? = some last) :
    g.successors last stop =
      if last.operation.endsFlow then .ok (g.target? i).toList
      else if stop = g.code.length then .error (.missingTerminator last.index)
      else .ok (if (g.target? i).toList.contains stop then (g.target? i).toList
        else (g.target? i).toList ++ [stop]) := by
  rw [successors, resolveTarget_eq hcode h hlast]
  rfl

section Blocks

variable (hcode : Sequential 0 0 code) (h : build code regions = .ok g) (hbs : g.blocks = .ok bs)
include hcode h hbs

/-- The blocks tile the method, and start at the bounds inside it. Both come out of one induction
along the bounds. -/
private theorem tiles_and_starts :
    Tiles 0 g.code.length bs ∧ bs.map (·.start) = g.indices.filter (· < g.code.length) := by
  have hasc := pairwise_indices h
  have hzero := zero_mem_indices hcode h
  have hlength := length_mem_indices hcode h
  have hspans := Result.mapM_eq_ok.mp hbs
  rw [code_of_build h] at *
  obtain ⟨a, is, his⟩ := List.exists_cons_of_ne_nil (List.ne_nil_of_mem hzero)
  rw [his] at hasc hzero hlength
  -- the bounds ascend from 0, so 0 is the first of them
  obtain rfl : a = 0 := by
    rcases List.mem_cons.mp hzero with rfl | hmem
    · rfl
    · exact absurd ((List.pairwise_cons.mp hasc).1 0 hmem) (Nat.not_lt_zero a)
  rw [his]
  refine tiles_of_forall₂ (f := fun s => g.blockBetween s.1 s.2) ?_ hasc hlength ?_
  · intro s b hb
    obtain ⟨hstart, hstop, -⟩ := blockBetween_eq_ok hb
    exact ⟨hstart, hstop⟩
  · rw [spans, code_of_build h, his] at hspans
    exact hspans

/-- The blocks tile the method. -/
theorem tiles_blocks : Tiles 0 g.code.length bs :=
  (tiles_and_starts hcode h hbs).1

/-- The blocks start at the bounds inside the method. -/
theorem map_start_blocks : bs.map (·.start) = g.indices.filter (· < g.code.length) :=
  (tiles_and_starts hcode h hbs).2

/-- A block starts exactly at each bound inside the method. -/
theorem exists_block_start_iff {i : Nat} :
    (∃ b ∈ bs, b.start = i) ↔ i ∈ g.indices ∧ i < g.code.length := by
  rw [← List.mem_map (f := fun b : Block => b.start), map_start_blocks hcode h hbs, List.mem_filter,
    decide_eq_true_eq]

/-- A block ends where the next bound is. -/
theorem stop_eq_of_succ_mem {b : Block} (hb : b ∈ bs) {i : Nat} (hi : b.Contains i)
    (hsucc : i + 1 ∈ g.indices) : b.stop = i + 1 := by
  have htiles := tiles_blocks hcode h hbs
  by_contra hne
  have hlt : i + 1 < b.stop := Nat.lt_of_le_of_ne hi.2 (Ne.symm hne)
  have hlength : i + 1 < g.code.length := Nat.lt_of_lt_of_le hlt (htiles.bounds hb).2.2
  obtain ⟨c, hc, hcstart⟩ := (exists_block_start_iff hcode h hbs).mpr ⟨hsucc, hlength⟩
  have hbc : b = c := by
    refine htiles.eq_of_contains hb hc (i := i + 1) ⟨Nat.le_succ_of_le hi.1, hlt⟩ ?_
    exact hcstart ▸ htiles.contains_start hc
  have := hi.1
  rw [hbc, hcstart] at this
  omega

/-- The last instruction of a block decides about its successors. -/
theorem exists_last_of_mem {b : Block} (hb : b ∈ bs) :
    ∃ last, g.code[b.last]? = some last ∧ last.index = b.last ∧
      g.successors last b.stop = .ok b.successors := by
  obtain ⟨⟨start, stop⟩, -, hbetween⟩ := Result.exists_of_mem_mapM hbs hb
  obtain ⟨-, rfl, -, -, last, hlast, hsuccessors⟩ := blockBetween_eq_ok hbetween
  refine ⟨last, hlast, ?_, hsuccessors⟩
  rw [code_of_build h] at hlast
  rw [hcode.index_eq hlast, Nat.zero_add, Block.last]

/-- The successors of a block are the target of its last instruction and, unless that ends the
flow, the block behind it. -/
theorem mem_successors_iff {b : Block} (hb : b ∈ bs) {j : Nat} :
    j ∈ b.successors ↔ g.target? b.last = some j ∨ (j = b.stop ∧ g.FallsThrough b.last) := by
  obtain ⟨last, hlast, -, hsuccessors⟩ := exists_last_of_mem hcode h hbs hb
  have hfalls : g.FallsThrough b.last ↔ last.operation.endsFlow = false := by
    rw [FallsThrough, hlast]
    simp
  rw [hfalls]
  rw [successors_eq hcode h hlast] at hsuccessors
  cases hends : last.operation.endsFlow with
  | true =>
    rw [hends, if_pos rfl, Except.ok.injEq] at hsuccessors
    simp [← hsuccessors]
  | false =>
    simp only [hends, Bool.false_eq_true, if_false] at hsuccessors
    split at hsuccessors
    · cases hsuccessors
    · rw [← Except.ok.inj hsuccessors]
      split <;> simp_all [or_comm]

/-- No block runs off the end of the method. -/
theorem stop_lt_length_of_fallsThrough {b : Block} (hb : b ∈ bs) (hfalls : g.FallsThrough b.last) :
    b.stop < g.code.length := by
  obtain ⟨last, hlast, -, hsuccessors⟩ := exists_last_of_mem hcode h hbs hb
  obtain ⟨a, ha, hends⟩ := hfalls
  obtain rfl : last = a := Option.some.inj (hlast.symm.trans ha)
  rw [successors_eq hcode h hlast, hends] at hsuccessors
  simp only [Bool.false_eq_true, if_false] at hsuccessors
  split at hsuccessors
  · cases hsuccessors
  · next hne => exact Nat.lt_of_le_of_ne ((tiles_blocks hcode h hbs).bounds hb).2.2 hne

/-- The successors of a block are starts of blocks. -/
theorem exists_block_of_mem_successors {b : Block} (hb : b ∈ bs) {j : Nat}
    (hj : j ∈ b.successors) : ∃ c ∈ bs, c.start = j := by
  rw [exists_block_start_iff hcode h hbs]
  rcases (mem_successors_iff hcode h hbs hb).mp hj with htarget | ⟨rfl, hfalls⟩
  · exact ⟨target_mem_indices hcode h htarget, (lt_length_of_target? hcode h htarget).2⟩
  · rw [← exists_block_start_iff hcode h hbs]
    exact (tiles_blocks hcode h hbs).exists_start_eq_stop hb
      (stop_lt_length_of_fallsThrough hcode h hbs hb hfalls)

/-- A branch is the last instruction of a block. -/
theorem exists_last_eq_of_target? {i t : Nat} (ht : g.target? i = some t) :
    ∃ b ∈ bs, b.last = i := by
  obtain ⟨hlt, -⟩ := lt_length_of_target? hcode h ht
  obtain ⟨b, hb, hi⟩ := (tiles_blocks hcode h hbs).exists_contains (Nat.zero_le i) hlt
  have hstop := stop_eq_of_succ_mem hcode h hbs hb hi (succ_mem_indices hcode h ht)
  exact ⟨b, hb, by rw [Block.last]; omega⟩

end Blocks

/-! ### Control between instructions -/

end Graph

/-- Control may go from instruction `i` of a method to instruction `j`: on to the next one, unless
`i` ends the flow, or to the one at the offset that the branch `i` jumps to. -/
def FlowsTo (code : List Instruction) (i j : Nat) : Prop :=
  (j = i + 1 ∧ ∃ a, code[i]? = some a ∧ a.operation.endsFlow = false) ∨
    ∃ a b, code[i]? = some a ∧ code[j]? = some b ∧ a.branchTarget? = some (b.offset : Int)

namespace Graph

variable {code : List Instruction} {regions : List Region} {g : Graph} {bs : List Block}

/-- The flow of control in terms of the graph: on to the next instruction, or along an edge. -/
theorem flowsTo_iff (hcode : Sequential 0 0 code) (h : build code regions = .ok g) {i j : Nat} :
    FlowsTo code i j ↔ (j = i + 1 ∧ g.FallsThrough i) ∨ g.target? i = some j := by
  rw [target?_eq_some_iff hcode h, FallsThrough, code_of_build h]
  rfl

/-- What stands behind a return or a throw in a checked method is a bound. -/
theorem succ_mem_indices_of_isExit (hcode : Sequential 0 0 code) (h : build code regions = .ok g)
    (hvalid : g.validate = .ok ()) {i : Nat} {a : Instruction} (ha : g.code[i]? = some a)
    (hexit : a.operation.isExit = true) : i + 1 ∈ g.indices := by
  obtain ⟨hi, -⟩ := List.getElem?_eq_some_iff.mp ha
  by_cases hlast : i + 1 = g.code.length
  · rw [hlast, code_of_build h]
    exact length_mem_indices hcode h
  · obtain ⟨_, hreach, -⟩ := Result.bind_eq_ok.mp hvalid
    have hmem : a ∈ g.code.dropLast := by
      refine List.mem_of_getElem? (i := i) ?_
      rw [List.getElem?_dropLast, if_pos (by omega), ha]
    have hcheck := Result.forM_eq_ok.mp hreach a hmem
    have hindex : a.index = i := by
      rw [code_of_build h] at ha
      rw [hcode.index_eq ha, Nat.zero_add]
    rw [hexit, hindex] at hcheck
    cases hlabel : g.label? (i + 1) with
    | none => simp [hlabel] at hcheck
    | some label => exact ((isSome_label?_iff h).mp (by rw [hlabel]; rfl)).1

/-- What ends the flow in a checked method stands before a bound, and so does every branch. -/
theorem succ_mem_indices_of_endsFlow (hcode : Sequential 0 0 code)
    (h : build code regions = .ok g) (hvalid : g.validate = .ok ())
    (hopcodes : ∀ a ∈ code, a.opcode ∈ Opcode.catalogue) {i : Nat} {a : Instruction}
    (ha : g.code[i]? = some a) (hends : a.operation.endsFlow = true ∨ a.operation.isBranch = true) :
    i + 1 ∈ g.indices := by
  by_cases hexit : a.operation.isExit = true
  · exact succ_mem_indices_of_isExit hcode h hvalid ha hexit
  · have hbranch : a.operation.isBranch = true := by
      rcases hends with hends | hbranch
      · rw [Operation.endsFlow_eq, Bool.or_eq_true] at hends
        exact Operation.isBranch_of_isJump (hends.resolve_left hexit)
      · exact hbranch
    have hmem : a ∈ code := code_of_build h ▸ List.mem_of_getElem? ha
    have htarget := (isSome_branchTarget?_iff (hopcodes a hmem)).mpr hbranch
    obtain ⟨t, ht⟩ := exists_target?_of_isSome hcode h ha htarget
    exact succ_mem_indices hcode h ht

/-- Before the last instruction of a block of a checked method there is neither a branch nor
anything that ends the flow. -/
theorem straight_of_ne_last (hcode : Sequential 0 0 code) (h : build code regions = .ok g)
    (hbs : g.blocks = .ok bs) (hvalid : g.validate = .ok ())
    (hopcodes : ∀ a ∈ code, a.opcode ∈ Opcode.catalogue) {b : Block} (hb : b ∈ bs) {i : Nat}
    {a : Instruction} (hi : b.Contains i) (hlast : i ≠ b.last) (ha : g.code[i]? = some a) :
    a.operation.endsFlow = false ∧ a.operation.isBranch = false := by
  rw [← Bool.not_eq_true, ← Bool.not_eq_true, ← not_or]
  intro hends
  have hsucc := succ_mem_indices_of_endsFlow hcode h hvalid hopcodes ha hends
  have hstop := stop_eq_of_succ_mem hcode h hbs hb hi hsucc
  rw [Block.last] at hlast
  omega

/-- **Control between blocks**: where no block ends the flow in its middle, control goes on inside
of a block, or from the end of a block to one of its successors. -/
theorem flowsTo_iff_blocks (hcode : Sequential 0 0 g.code) (h : build g.code regions = .ok g)
    (hbs : g.blocks = .ok bs)
    (hmiddle : ∀ b ∈ bs, ∀ i a, b.Contains i → i ≠ b.last → g.code[i]? = some a →
      a.operation.endsFlow = false) {i j : Nat} :
    FlowsTo g.code i j ↔
      (j = i + 1 ∧ ∃ b ∈ bs, b.Contains i ∧ b.Contains j) ∨
        ∃ b ∈ bs, b.last = i ∧ j ∈ b.successors := by
  have htiles := tiles_blocks hcode h hbs
  rw [flowsTo_iff hcode h]
  constructor
  · rintro (⟨rfl, hfalls⟩ | htarget)
    · have ⟨a, ha, _⟩ := hfalls
      obtain ⟨hlt, -⟩ := List.getElem?_eq_some_iff.mp ha
      obtain ⟨b, hb, hi⟩ := htiles.exists_contains (Nat.zero_le i) hlt
      by_cases hstop : i + 1 < b.stop
      · exact .inl ⟨rfl, b, hb, hi, Nat.le_succ_of_le hi.1, hstop⟩
      · -- the instruction is the last one of its block, and the next block a successor
        have hlast : b.last = i := by
          have := hi.2
          rw [Block.last]
          omega
        refine .inr ⟨b, hb, hlast, (mem_successors_iff hcode h hbs hb).mpr (.inr ⟨?_, ?_⟩)⟩
        · rw [← hlast, htiles.last_add_one hb]
        · rwa [hlast]
    · -- a branch is the last instruction of its block
      obtain ⟨b, hb, rfl⟩ := exists_last_eq_of_target? hcode h hbs htarget
      exact .inr ⟨b, hb, rfl, (mem_successors_iff hcode h hbs hb).mpr (.inl htarget)⟩
  · rintro (⟨rfl, b, hb, hi, hj⟩ | ⟨b, hb, rfl, hj⟩)
    · have hlt : i < g.code.length := Nat.lt_of_lt_of_le hi.2 (htiles.bounds hb).2.2
      have hlast : i ≠ b.last := by
        have := hj.2
        rw [Block.last]
        omega
      have ha := List.getElem?_eq_getElem hlt
      exact .inl ⟨rfl, _, ha, hmiddle b hb i _ hi hlast ha⟩
    · rcases (mem_successors_iff hcode h hbs hb).mp hj with htarget | ⟨rfl, hfalls⟩
      · exact .inr htarget
      · exact .inl ⟨(htiles.last_add_one hb).symm, hfalls⟩

end Graph

/-- **Blocks represent the flow between instructions exactly.** The blocks of a checked method tile
it, and start at the bounds inside it. Control goes from `i` to `j` exactly if both lie in one block
and `j` is next, or `i` is the last instruction of a block that has `j` as a successor; successors
are starts of blocks. Before the last instruction of a block there is neither a branch nor anything
that ends the flow. -/
theorem blocks_represent_flow {c : Code} {pool : Pool} {g : Graph} {bs : List Block}
    (hgraph : c.graph pool = .ok g) (hblocks : g.blocks = .ok bs) :
    Tiles 0 g.code.length bs ∧
      bs.map (·.start) = g.indices.filter (· < g.code.length) ∧
      (∀ i j, FlowsTo g.code i j ↔
        (j = i + 1 ∧ ∃ b ∈ bs, b.Contains i ∧ b.Contains j) ∨
          ∃ b ∈ bs, b.last = i ∧ j ∈ b.successors) ∧
      (∀ b ∈ bs, ∀ j ∈ b.successors, ∃ b' ∈ bs, b'.start = j) ∧
      ∀ b ∈ bs, ∀ i a, b.Contains i → i ≠ b.last → g.code[i]? = some a →
        a.operation.endsFlow = false ∧ a.operation.isBranch = false := by
  obtain ⟨regions, hdecode, -, hcode, hbuild, hvalid⟩ := Code.graph_eq_ok hgraph
  have hopcodes := opcode_mem_of_decodeFrom hdecode
  have hmiddle : ∀ b ∈ bs, ∀ i a, b.Contains i → i ≠ b.last → g.code[i]? = some a →
      a.operation.endsFlow = false ∧ a.operation.isBranch = false := by
    intro b hb i a hi hlast ha
    exact Graph.straight_of_ne_last hcode hbuild hblocks hvalid hopcodes hb hi hlast ha
  refine ⟨Graph.tiles_blocks hcode hbuild hblocks, Graph.map_start_blocks hcode hbuild hblocks,
    ?_, ?_, hmiddle⟩
  · intro i j
    refine Graph.flowsTo_iff_blocks hcode hbuild hblocks ?_
    intro b hb i a hi hlast ha
    exact (hmiddle b hb i a hi hlast ha).1
  · intro b hb j hj
    exact Graph.exists_block_of_mem_successors hcode hbuild hblocks hb hj

/-- A conditional branch, two returns and a handler: four blocks. -/
theorem blocks_represent_flow_of_branch_and_handler :
    ∃ g bs, (Code.ofParts 1 1 [0x1a, 0x99, 0, 5, 0x04, 0xac, 0x05, 0xac, 0xbf]
        [⟨0, 4, 8, 0⟩] []).graph ⟨#[]⟩ = .ok g ∧ g.blocks = .ok bs ∧
      Tiles 0 g.code.length bs ∧
      ∀ i j, FlowsTo g.code i j ↔
        (j = i + 1 ∧ ∃ b ∈ bs, b.Contains i ∧ b.Contains j) ∨
          ∃ b ∈ bs, b.last = i ∧ j ∈ b.successors := by
  have hok : ((Code.ofParts 1 1 [0x1a, 0x99, 0, 5, 0x04, 0xac, 0x05, 0xac, 0xbf]
      [⟨0, 4, 8, 0⟩] []).graph ⟨#[]⟩ >>= fun g => (g, ·) <$> g.blocks).isOk = true := by
    decide +kernel
  obtain ⟨⟨g, bs⟩, h⟩ := Result.exists_of_isOk hok
  obtain ⟨g, hgraph, h⟩ := Result.bind_eq_ok.mp h
  obtain ⟨bs, hblocks, -⟩ := Result.map_eq_ok.mp h
  have hflow := blocks_represent_flow hgraph hblocks
  exact ⟨g, bs, hgraph, hblocks, hflow.1, hflow.2.2.1⟩

end JvmSource
