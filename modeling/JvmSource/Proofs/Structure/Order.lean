import Mathlib.Data.List.Pairwise
import JvmSource.Proofs.Structure.Outline

/-!
# The order of the items

`Outline.emit` is opened once, into the relation `Emits` of a range, the loops still to come and the
items it is written as. It has one constructor for each case: nothing is left of the range, a loop
starts at its first instruction, or a block does.

The relation forgets how the recursion ends: the weights by which it is measured do not appear in
it. From here on an argument about the items of a range is an induction on `Emits`. For a lawful
outline there is a stronger one (`Emits.lawful_induction`). It comes with everything that is known
at each step, of the loop that is opened and of the loops that are pending for each of the three
parts (`Emits.LoopStep`), or of the block (`Emits.BlockStep`), so that the laws of the outline are
used in one place.

With it, a range is written as the items that belong to it (`Emits.mem_items_iff`), none of them
twice (`Emits.nodup_items`): its kept blocks, and the parts of the pending loops that start in it. A
pending loop that starts in a range also ends there (`Emits.last_lt`), and two of them are apart or
nested (`Emits.apart_or_nested`). The loops that a range leaves are those that do not start in it
(`Emits.mem_rest_iff`). This holds although the part of a loop in front of its head is written
behind the other part, with the loops that the other part has left.
-/

namespace JvmSource

/-! ### Positions in a list -/

section LastPosition

variable {α : Type} {p : α → Bool} {xs : List α}

/-- The last position at which a predicate holds is one at which it holds. -/
theorem getElem?_of_lastPosition? {i : Nat} (h : lastPosition? p xs = some i) :
    ∃ x, xs[i]? = some x ∧ p x = true := by
  obtain ⟨⟨x, j⟩, hlast, rfl⟩ := Option.map_eq_some_iff.mp h
  obtain ⟨hmem, hp⟩ := List.mem_filter.mp (List.mem_of_getLast? hlast)
  exact ⟨x, List.mem_zipIdx_iff_getElem?.mp hmem, hp⟩

/-- A predicate that holds somewhere has a last position. -/
theorem exists_lastPosition? {i : Nat} {x : α} (hi : xs[i]? = some x) (hx : p x = true) :
    ∃ j, lastPosition? p xs = some j := by
  rcases hlast : lastPosition? p xs with _ | j
  · have hnil := List.getLast?_eq_none_iff.mp (Option.map_eq_none_iff.mp hlast)
    have hnot := List.filter_eq_nil_iff.mp hnil (x, i) (List.mem_zipIdx_iff_getElem?.mpr hi)
    exact absurd hx hnot
  · exact ⟨j, rfl⟩

/-- The only position at which a predicate holds is the last one. -/
theorem lastPosition?_eq_some {i : Nat} {x : α} (hi : xs[i]? = some x) (hx : p x = true)
    (hunique : ∀ j y, xs[j]? = some y → p y = true → j = i) : lastPosition? p xs = some i := by
  obtain ⟨j, hj⟩ := exists_lastPosition? hi hx
  obtain ⟨y, hy, hp⟩ := getElem?_of_lastPosition? hj
  rw [hj, hunique j y hy hp]

end LastPosition

/-! ### Loops taken out of a list -/

/-- Taking a loop out of a list leaves the others, in their order. -/
theorem takeLoop?_eq_some {index : Nat} {loops rest : List (Nat × Loop)} {found : Nat × Loop}
    (h : takeLoop? index loops = some (found, rest)) :
    found.2.start = index ∧ ∃ before after, loops = before ++ found :: after ∧
      rest = before ++ after := by
  induction loops generalizing rest with
  | nil => cases h
  | cons first loops ih =>
    rw [takeLoop?] at h
    split at h
    · next hstart =>
      obtain ⟨rfl, rfl⟩ := Prod.mk.inj (Option.some.inj h)
      exact ⟨hstart, [], loops, rfl, rfl⟩
    · obtain ⟨⟨found', rest'⟩, h', heq⟩ := Option.map_eq_some_iff.mp h
      obtain ⟨rfl, rfl⟩ := Prod.mk.inj heq
      obtain ⟨hstart, before, after, rfl, rfl⟩ := ih h'
      exact ⟨hstart, first :: before, after, rfl, rfl⟩

theorem sublist_of_takeLoop? {index : Nat} {loops rest : List (Nat × Loop)} {found : Nat × Loop}
    (h : takeLoop? index loops = some (found, rest)) : rest.Sublist loops := by
  obtain ⟨-, before, after, rfl, rfl⟩ := takeLoop?_eq_some h
  exact (List.Sublist.refl before).append (List.sublist_cons_self found after)

theorem mem_of_takeLoop? {index : Nat} {loops rest : List (Nat × Loop)} {found : Nat × Loop}
    (h : takeLoop? index loops = some (found, rest)) : found ∈ loops := by
  obtain ⟨-, before, after, rfl, -⟩ := takeLoop?_eq_some h
  simp

/-- No loop is taken out where none starts. -/
theorem takeLoop?_eq_none_iff {index : Nat} {loops : List (Nat × Loop)} :
    takeLoop? index loops = none ↔ ∀ p ∈ loops, p.2.start ≠ index := by
  induction loops with
  | nil => simp [takeLoop?]
  | cons first loops ih =>
    rw [takeLoop?, List.forall_mem_cons, ← ih]
    split <;> simp_all

namespace Outline

/-! ### Numbered loops -/

/-- A loop is numbered by its position in the outline. -/
theorem mem_numberedLoops {o : Outline} {number : Nat} {loop : Loop} :
    (number, loop) ∈ o.numberedLoops ↔ o.loops[number]? = some loop := by
  rw [numberedLoops, List.mem_map]
  constructor
  · rintro ⟨⟨l, n⟩, hmem, heq⟩
    obtain ⟨rfl, rfl⟩ := Prod.mk.inj heq
    exact List.mem_zipIdx_iff_getElem?.mp hmem
  · intro h
    exact ⟨(loop, number), List.mem_zipIdx_iff_getElem?.mpr h, rfl⟩

theorem mem_loops_of_numbered {o : Outline} {p : Nat × Loop} (hp : p ∈ o.numberedLoops) :
    p.2 ∈ o.loops :=
  List.mem_of_getElem? (mem_numberedLoops.mp hp)

/-- No two of the numbered loops share their start. -/
theorem Lawful.pairwise_numberedLoops {o : Outline} (ho : o.Lawful) :
    o.numberedLoops.Pairwise fun p q => p.2.start ≠ q.2.start := by
  have hpairwise : o.loops.Pairwise fun a b => a.start ≠ b.start :=
    ho.pairwise_loops.imp fun h => Ne.symm h.2
  rw [numberedLoops, List.pairwise_map]
  rwa [← List.zipIdx_map_fst 0 o.loops, List.pairwise_map] at hpairwise

/-- Whether the block with a number appears in the text. -/
def Keeps (o : Outline) (number : Nat) : Prop :=
  (keptBlocks o.blocks).getD number false = true

instance (o : Outline) (number : Nat) : Decidable (o.Keeps number) :=
  inferInstanceAs (Decidable (_ = true))

/-- A block is kept if it is the first one, a handler, or some block leads to it. -/
theorem keeps_iff {o : Outline} {number : Nat} {b : Block} (hb : o.blocks[number]? = some b) :
    o.Keeps number ↔
      number = 0 ∨ b.isHandler = true ∨ ∃ c ∈ o.blocks, b.start ∈ c.successors := by
  rw [Keeps, keptBlocks, List.getD_eq_getElem?_getD, List.getElem?_map, List.getElem?_zipIdx, hb]
  simp [or_assoc]

/-- The block that starts at an index. -/
theorem getElem?_of_blockAt? {o : Outline} {index number : Nat} {b : Block}
    (h : o.blockAt? index = some (number, b)) : o.blocks[number]? = some b ∧ b.start = index := by
  obtain ⟨n, hn, h⟩ := Option.bind_eq_some_iff.mp h
  obtain ⟨c, hc, h⟩ := Option.bind_eq_some_iff.mp h
  obtain ⟨rfl, rfl⟩ := Prod.mk.inj (Option.some.inj h)
  obtain ⟨x, hx, hstart⟩ := getElem?_of_lastPosition? hn
  obtain rfl := Option.some.inj (hx.symm.trans hc)
  exact ⟨hc, by simpa using hstart⟩

/-- A loop has an exit of its own exactly if its last branch may fall through. -/
theorem mem_exitItems {o : Outline} {number : Nat} {loop : Loop} {x : Item} :
    x ∈ o.exitItems number loop ↔
      x = .loopExit number loop ∧ o.graph.jumpsAt loop.last = false := by
  rw [exitItems]
  split <;> simp_all

/-- A block is found where one starts. -/
theorem exists_blockAt? {o : Outline} {b : Block} (hb : b ∈ o.blocks) :
    ∃ number c, o.blockAt? b.start = some (number, c) := by
  obtain ⟨i, hi⟩ := List.getElem?_of_mem hb
  obtain ⟨j, hj⟩ := exists_lastPosition? (p := fun c : Block => c.start == b.start) hi (by simp)
  obtain ⟨c, hc, -⟩ := getElem?_of_lastPosition? hj
  exact ⟨j, c, by simp [blockAt?, hj, hc]⟩

end Outline

/-! ### The items of a range -/

/-- The range from `index` up to `stop` is written as `items`, when the loops `pending` have not
been opened before it and `rest` are those that it leaves. -/
inductive Emits (o : Outline) :
    (pending : List (Nat × Loop)) → (index stop : Nat) → (items : List Item) →
      (rest : List (Nat × Loop)) → Prop
  | done {pending : List (Nat × Loop)} {index stop : Nat} (hstop : stop ≤ index) :
    Emits o pending index stop [] pending
  | loop {pending rest₀ rest₁ rest₂ rest₃ : List (Nat × Loop)} {index stop number : Nat}
      {loop : Loop} {front back behind : List Item} (hindex : index < stop)
      (htake : takeLoop? index pending = some ((number, loop), rest₀)) (hlast : loop.last < stop)
      (hfront : Emits o rest₀ loop.head (loop.last + 1) front rest₁)
      (hback : Emits o rest₁ loop.start loop.head back rest₂)
      (hbehind : Emits o rest₂ (loop.last + 1) stop behind rest₃) :
    Emits o pending index stop
      (.loopOpen number loop :: front ++ o.exitItems number loop ++ back
        ++ .loopClose number loop :: behind) rest₃
  | block {pending rest : List (Nat × Loop)} {index stop number : Nat} {b : Block}
      {items : List Item} (hindex : index < stop) (htake : takeLoop? index pending = none)
      (hb : o.blockAt? index = some (number, b)) (hstop : index < b.stop)
      (hbehind : Emits o pending b.stop stop items rest) :
    Emits o pending index stop ((if o.Keeps number then [.block number b] else []) ++ items) rest

namespace Outline

variable {o : Outline} {kept : List Bool} {pending rest : List (Nat × Loop)} {index stop : Nat}

/-- The items where a loop starts: those of the loop's two parts, and those behind it. -/
theorem emit_of_takeLoop?_eq_some {number : Nat} {loop : Loop} (hindex : index < stop)
    (htake : takeLoop? index pending = some ((number, loop), rest)) :
    o.emit kept pending index stop =
      if stop ≤ loop.last then loop.unstructured
      else do
        let front ← o.emit kept rest loop.head (loop.last + 1)
        let back ← o.emit kept front.pending loop.start loop.head
        let behind ← o.emit kept back.pending (loop.last + 1) stop
        return ⟨.loopOpen number loop :: front.items ++ o.exitItems number loop ++ back.items
            ++ .loopClose number loop :: behind.items, behind.pending,
          have htaken := Nat.le_of_add_right_le (Nat.le_of_eq (totalWeight_of_takeLoop? htake))
          Nat.le_trans behind.weight_pending_le (Nat.le_trans back.weight_pending_le
            (Nat.le_trans front.weight_pending_le htaken))⟩ := by
  rw [emit, dif_pos hindex]
  split
  · next heq =>
    obtain ⟨⟨rfl, rfl⟩, rfl⟩ : (_ ∧ _) ∧ _ := by simpa using heq.symm.trans htake
    rfl
  · next heq => simp [htake] at heq

/-- The items where no loop starts: the block, if it is kept, and the items behind it. -/
theorem emit_of_takeLoop?_eq_none (hindex : index < stop) (htake : takeLoop? index pending = none) :
    o.emit kept pending index stop =
      match o.blockAt? index with
      | none => .error (.missingTerminator index)
      | some (number, b) =>
        if index < b.stop then do
          let behind ← o.emit kept pending b.stop stop
          return ⟨(if kept.getD number false then [.block number b] else []) ++ behind.items,
            behind.pending, behind.weight_pending_le⟩
        else .error (.missingTerminator index) := by
  rw [emit, dif_pos hindex]
  split
  · next heq => simp [htake] at heq
  · rfl

/-- What `emit` gives is what the relation says. The induction follows the recursion of `emit`, with
its three calls for a loop and one for a block. -/
theorem emits_of_emit {e : Emitted (totalWeight pending)}
    (h : o.emit (keptBlocks o.blocks) pending index stop = .ok e) :
    Emits o pending index stop e.items e.pending := by
  induction pending, index, stop using Outline.emit.induct (o := o) with
  | case1 pending index stop hindex number loop rest htake hlast =>
    rw [emit_of_takeLoop?_eq_some hindex htake, if_pos hlast] at h
    cases h
  | case2 pending index stop hindex number loop rest htake hlast ihfront ihback ihbehind =>
    rw [emit_of_takeLoop?_eq_some hindex htake, if_neg hlast] at h
    obtain ⟨front, hfront, h⟩ := Result.bind_eq_ok.mp h
    obtain ⟨back, hback, h⟩ := Result.bind_eq_ok.mp h
    obtain ⟨behind, hbehind, h⟩ := Result.bind_eq_ok.mp h
    obtain rfl := Result.pure_eq_ok.mp h
    exact .loop hindex htake (Nat.lt_of_not_le hlast) (ihfront hfront) (ihback front hback)
      (ihbehind front back hbehind)
  | case3 pending index stop hindex htake hblock =>
    rw [emit_of_takeLoop?_eq_none hindex htake, hblock] at h
    cases h
  | case4 pending index stop hindex htake number block hblock hstop ih =>
    simp only [emit_of_takeLoop?_eq_none hindex htake, hblock, if_pos hstop] at h
    obtain ⟨behind, hbehind, h⟩ := Result.bind_eq_ok.mp h
    obtain rfl := Result.pure_eq_ok.mp h
    exact .block hindex htake hblock hstop (ih hbehind)
  | case5 pending index stop hindex htake number block hblock hstop =>
    simp only [emit_of_takeLoop?_eq_none hindex htake, hblock, if_neg hstop] at h
    cases h
  | case6 pending index stop hindex =>
    rw [emit, dif_neg hindex] at h
    obtain rfl := Result.pure_eq_ok.mp h
    exact .done (Nat.le_of_not_lt hindex)

/-- The items of a method are those of the range of all its instructions. -/
theorem emits_of_items {items : List Item} (h : o.items = .ok items) :
    ∃ rest, Emits o o.numberedLoops 0 o.graph.code.length items rest := by
  obtain ⟨e, he, h⟩ := Result.bind_eq_ok.mp h
  obtain rfl := Result.pure_eq_ok.mp h
  exact ⟨e.pending, emits_of_emit he⟩

end Outline

namespace Emits

variable {o : Outline} {pending rest : List (Nat × Loop)} {index stop : Nat} {items : List Item}

/-! ### The loops that are left -/

/-- A range leaves some of the loops that are pending. -/
theorem rest_sublist (h : Emits o pending index stop items rest) : rest.Sublist pending := by
  induction h with
  | done => exact List.Sublist.refl _
  | loop _ htake _ _ _ _ ihfront ihback ihbehind =>
    exact ihbehind.trans (ihback.trans (ihfront.trans (sublist_of_takeLoop? htake)))
  | block _ _ _ _ _ ih => exact ih

section Lawful

variable (ho : o.Lawful)
include ho

/-- A loop that is pending is a loop of the outline. -/
private theorem lawful_of_mem (hsub : pending.Sublist o.numberedLoops) {p : Nat × Loop}
    (hp : p ∈ pending) : p.2.Lawful o.graph :=
  ho.lawful_loop (Outline.mem_loops_of_numbered (hsub.subset hp))

/-- What is known where a loop is opened. -/
private theorem opened_of_takeLoop? (hsub : pending.Sublist o.numberedLoops) {number : Nat}
    {loop : Loop} (htake : takeLoop? index pending = some ((number, loop), rest)) :
    loop.Lawful o.graph ∧ loop.start = index ∧ rest.Sublist o.numberedLoops :=
  ⟨lawful_of_mem ho hsub (mem_of_takeLoop? htake), (takeLoop?_eq_some htake).1,
    (sublist_of_takeLoop? htake).trans hsub⟩

/-- Where a loop starts, only that loop is taken out. -/
private theorem mem_rest_of_takeLoop? (hsub : pending.Sublist o.numberedLoops) {found : Nat × Loop}
    (htake : takeLoop? index pending = some (found, rest)) {p : Nat × Loop} :
    p ∈ rest ↔ p ∈ pending ∧ p.2.start ≠ index := by
  obtain ⟨rfl, before, after, rfl, rfl⟩ := takeLoop?_eq_some htake
  have hpairwise := ho.pairwise_numberedLoops.sublist hsub
  obtain ⟨-, hfound, hacross⟩ := List.pairwise_append.mp hpairwise
  constructor
  · intro hp
    rcases List.mem_append.mp hp with hp | hp
    · exact ⟨by simp [hp], hacross p hp found List.mem_cons_self⟩
    · exact ⟨by simp [hp], Ne.symm ((List.pairwise_cons.mp hfound).1 p hp)⟩
  · rintro ⟨hp, hne⟩
    rcases List.mem_append.mp hp with hp | hp
    · exact List.mem_append_left _ hp
    · rcases List.mem_cons.mp hp with rfl | hp
      · exact absurd rfl hne
      · exact List.mem_append_right _ hp

/-- No loop starts behind the first instruction of a block. -/
private theorem start_eq_of_contains (hsub : pending.Sublist o.numberedLoops) {p : Nat × Loop}
    (hp : p ∈ pending) {b : Block} (hb : b ∈ o.blocks) (hstart : b.Contains p.2.start) :
    p.2.start = b.start := by
  obtain ⟨c, hc, hcstart⟩ := ho.exists_start (lawful_of_mem ho hsub hp).target_last
  have hcb := ho.tiles.eq_of_contains hb hc hstart (hcstart ▸ ho.tiles.contains_start hc)
  rw [hcb, hcstart]

/-- A range leaves exactly the pending loops that do not start in it. -/
theorem mem_rest_iff (h : Emits o pending index stop items rest)
    (hsub : pending.Sublist o.numberedLoops) {p : Nat × Loop} :
    p ∈ rest ↔ p ∈ pending ∧ ¬ (index ≤ p.2.start ∧ p.2.start < stop) := by
  induction h with
  | done hstop => exact ⟨fun hp => ⟨hp, by omega⟩, And.left⟩
  | @loop pending rest₀ rest₁ rest₂ rest₃ index stop number loop front back behind hindex htake
      hlast hfront hback hbehind ihfront ihback ihbehind =>
    obtain ⟨hloop, hstart, hsub₀⟩ := opened_of_takeLoop? ho hsub htake
    have hhead := hloop.start_le_head
    have hheadlast := hloop.head_le_last
    have hsub₁ := hfront.rest_sublist.trans hsub₀
    have hsub₂ := hback.rest_sublist.trans hsub₁
    -- the three ranges of a loop cover its own range and what is behind it
    rw [ihbehind hsub₂, ihback hsub₁, ihfront hsub₀, mem_rest_of_takeLoop? ho hsub htake]
    simp only [and_assoc]
    exact and_congr_right fun _ => by omega
  | @block pending rest index stop number b items hindex htake hb hstop hbehind ih =>
    rw [ih hsub]
    refine and_congr_right ?_
    intro hp
    refine not_congr ?_
    obtain ⟨hnumber, rfl⟩ := Outline.getElem?_of_blockAt? hb
    constructor
    · omega
    · rintro ⟨hle, hlt⟩
      refine ⟨Nat.le_of_not_lt ?_, hlt⟩
      intro hbelow
      have heq := start_eq_of_contains ho hsub hp (List.mem_of_getElem? hnumber) ⟨hle, hbelow⟩
      exact takeLoop?_eq_none_iff.mp htake p hp heq

/-- What is known where a loop is opened, of the loop and of the loops that are pending before, in
and behind it. Each list of pending loops is a part of the numbered loops, and is known by what is
in it. -/
structure LoopStep (o : Outline) (pending rest₀ rest₁ rest₂ : List (Nat × Loop))
    (index stop number : Nat) (loop : Loop) : Prop where
  lawful : loop.Lawful o.graph
  start_eq : loop.start = index
  last_lt : loop.last < stop
  mem : (number, loop) ∈ pending
  sublist : pending.Sublist o.numberedLoops
  sublist₀ : rest₀.Sublist o.numberedLoops
  sublist₁ : rest₁.Sublist o.numberedLoops
  sublist₂ : rest₂.Sublist o.numberedLoops
  mem_rest₀ : ∀ p, p ∈ rest₀ ↔ p ∈ pending ∧ p.2.start ≠ index
  mem_rest₁ : ∀ p, p ∈ rest₁ ↔
    p ∈ pending ∧ p.2.start ≠ index ∧ ¬ (loop.head ≤ p.2.start ∧ p.2.start < loop.last + 1)
  mem_rest₂ : ∀ p, p ∈ rest₂ ↔
    p ∈ pending ∧ ¬ (index ≤ p.2.start ∧ p.2.start < loop.last + 1)

/-- What is known where a block is written: no pending loop starts inside of it. -/
structure BlockStep (o : Outline) (pending : List (Nat × Loop)) (index number : Nat) (b : Block) :
    Prop where
  getElem? : o.blocks[number]? = some b
  start_eq : b.start = index
  lt_stop : index < b.stop
  sublist : pending.Sublist o.numberedLoops
  not_contains : ∀ p ∈ pending, ¬ b.Contains p.2.start

omit ho in
/-- **Induction over the items of a range**, with what is known at each step of a lawful outline. -/
theorem lawful_induction (ho : o.Lawful)
    {motive : List (Nat × Loop) → Nat → Nat → List Item → Prop}
    (done : ∀ {pending index stop}, stop ≤ index → motive pending index stop [])
    (loop : ∀ {pending rest₀ rest₁ rest₂ rest₃ index stop number loop front back behind},
      LoopStep o pending rest₀ rest₁ rest₂ index stop number loop →
      Emits o rest₀ loop.head (loop.last + 1) front rest₁ →
      Emits o rest₁ loop.start loop.head back rest₂ →
      Emits o rest₂ (loop.last + 1) stop behind rest₃ →
      motive rest₀ loop.head (loop.last + 1) front → motive rest₁ loop.start loop.head back →
      motive rest₂ (loop.last + 1) stop behind →
      motive pending index stop (.loopOpen number loop :: front ++ o.exitItems number loop ++ back
        ++ .loopClose number loop :: behind))
    (block : ∀ {pending rest index stop number b items}, index < stop →
      BlockStep o pending index number b → Emits o pending b.stop stop items rest →
      motive pending b.stop stop items →
      motive pending index stop ((if o.Keeps number then [.block number b] else []) ++ items))
    (hsub : pending.Sublist o.numberedLoops) (h : Emits o pending index stop items rest) :
    motive pending index stop items := by
  induction h with
  | done hstop => exact done hstop
  | @loop pending rest₀ rest₁ rest₂ rest₃ index stop number l front back behind hindex htake
      hlast hfront hback hbehind ihfront ihback ihbehind =>
    obtain ⟨hlawful, hstart, hsub₀⟩ := opened_of_takeLoop? ho hsub htake
    have hhead := hlawful.start_le_head
    have hheadlast := hlawful.head_le_last
    have hsub₁ := hfront.rest_sublist.trans hsub₀
    have hmem₀ : ∀ p, p ∈ rest₀ ↔ p ∈ pending ∧ p.2.start ≠ index :=
      fun p => mem_rest_of_takeLoop? ho hsub htake
    have hmem₁ : ∀ p, p ∈ rest₁ ↔ p ∈ pending ∧ p.2.start ≠ index ∧
        ¬ (l.head ≤ p.2.start ∧ p.2.start < l.last + 1) := by
      intro p
      rw [hfront.mem_rest_iff ho hsub₀, hmem₀, and_assoc]
    have hsub₂ := hback.rest_sublist.trans hsub₁
    refine loop ⟨hlawful, hstart, hlast, mem_of_takeLoop? htake, hsub, hsub₀, hsub₁, hsub₂, hmem₀,
      hmem₁, ?_⟩ hfront hback hbehind (ihfront hsub₀) (ihback hsub₁) (ihbehind hsub₂)
    intro p
    rw [hback.mem_rest_iff ho hsub₁, hmem₁, and_assoc]
    exact and_congr_right fun _ => by omega
  | @block pending rest index stop number b items hindex htake hb hstop hbehind ih =>
    obtain ⟨hnumber, hstart⟩ := Outline.getElem?_of_blockAt? hb
    refine block hindex ⟨hnumber, hstart, hstop, hsub, ?_⟩ hbehind (ih hsub)
    intro p hp hcontains
    -- a loop that starts in the block starts with it, and would have been taken out
    have heq := start_eq_of_contains ho hsub hp (List.mem_of_getElem? hnumber) hcontains
    exact takeLoop?_eq_none_iff.mp htake p hp (heq.trans hstart)

end Lawful

end Emits

/-! ### What a range is written as -/

/-- Two spans, each from where it starts up to where it stops, that have nothing in common, or one
of which contains the other. -/
def SpansApartOrNested (start stop start' stop' : Nat) : Prop :=
  stop ≤ start' ∨ stop' ≤ start ∨ (start ≤ start' ∧ stop' ≤ stop) ∨
    (start' ≤ start ∧ stop ≤ stop')

/-- It does not matter which of two spans is named first. -/
theorem SpansApartOrNested.symm {start stop start' stop' : Nat}
    (h : SpansApartOrNested start stop start' stop') :
    SpansApartOrNested start' stop' start stop := by
  rcases h with h | h | h | h
  · exact .inr (.inl h)
  · exact .inl h
  · exact .inr (.inr (.inr h))
  · exact .inr (.inr (.inl h))

/-- Two loops that have no instruction in common, or one of which contains the other. -/
def Loop.ApartOrNested (a b : Loop) : Prop :=
  SpansApartOrNested a.start (a.last + 1) b.start (b.last + 1)

/-- An item that belongs to the range from `index` up to `stop`: a kept block that starts there, or
a part of a pending loop that does. -/
def Item.Belongs (o : Outline) (pending : List (Nat × Loop)) (index stop : Nat) : Item → Prop
  | .block number b =>
    o.blocks[number]? = some b ∧ o.Keeps number ∧ index ≤ b.start ∧ b.start < stop
  | .loopOpen number loop | .loopClose number loop =>
    (number, loop) ∈ pending ∧ index ≤ loop.start ∧ loop.start < stop
  | .loopExit number loop =>
    (number, loop) ∈ pending ∧ index ≤ loop.start ∧ loop.start < stop ∧
      o.graph.jumpsAt loop.last = false

namespace Emits

variable {o : Outline} {pending rest : List (Nat × Loop)} {index stop : Nat} {items : List Item}

section Lawful

variable (ho : o.Lawful) (hsub : pending.Sublist o.numberedLoops)
  (h : Emits o pending index stop items rest)
include ho hsub h

omit h in
/-- A pending loop is known by its start. -/
theorem eq_of_start_eq {p q : Nat × Loop} (hp : p ∈ pending) (hq : q ∈ pending)
    (hstart : p.2.start = q.2.start) : p = q := by
  have hsymm : Std.Symm fun a b : Nat × Loop => a.2.start ≠ b.2.start := ⟨fun _ _ => Ne.symm⟩
  by_contra hne
  exact (ho.pairwise_numberedLoops.sublist hsub).forall hp hq hne hstart

omit hsub h in
/-- A pending loop that starts in a range is the loop opened there, or is pending for the part of
the range in which it starts. -/
theorem LoopStep.mem_cases {rest₀ rest₁ rest₂ : List (Nat × Loop)} {number : Nat} {loop : Loop}
    (hstep : LoopStep o pending rest₀ rest₁ rest₂ index stop number loop) {p : Nat × Loop}
    (hp : p ∈ pending) (hle : index ≤ p.2.start) (hlt : p.2.start < stop) :
    p = (number, loop) ∨
      (p ∈ rest₀ ∧ loop.head ≤ p.2.start ∧ p.2.start < loop.last + 1) ∨
      (p ∈ rest₁ ∧ loop.start ≤ p.2.start ∧ p.2.start < loop.head) ∨
      (p ∈ rest₂ ∧ loop.last + 1 ≤ p.2.start ∧ p.2.start < stop) := by
  have hstart := hstep.start_eq
  have hheadlast := hstep.lawful.head_le_last
  rw [hstep.mem_rest₀, hstep.mem_rest₁, hstep.mem_rest₂]
  by_cases hsame : p.2.start = index
  · exact .inl (eq_of_start_eq ho hstep.sublist hp hstep.mem (hsame.trans hstart.symm))
  · rcases Nat.lt_or_ge p.2.start loop.head with hhead | hhead
    · exact .inr (.inr (.inl ⟨⟨hp, hsame, by omega⟩, by omega, hhead⟩))
    · rcases Nat.lt_or_ge p.2.start (loop.last + 1) with hlast | hlast
      · exact .inr (.inl ⟨⟨hp, hsame⟩, hhead, hlast⟩)
      · exact .inr (.inr (.inr ⟨⟨hp, by omega⟩, hlast, hlt⟩))

/-- A range is written as the items that belong to it. Each of them belongs to one part of the
range, or is the opening, the exit or the closing of the loop there. -/
theorem mem_items_iff {x : Item} : x ∈ items ↔ x.Belongs o pending index stop := by
  refine lawful_induction ho
    (motive := fun pending index stop items => ∀ x, x ∈ items ↔ x.Belongs o pending index stop)
    ?_ ?_ ?_ hsub h x
  · intro pending index stop hstop x
    cases x <;> simp only [Item.Belongs, List.not_mem_nil, false_iff] <;> omega
  · intro pending rest₀ rest₁ rest₂ rest₃ index stop number loop front back behind hstep _ _ _
      ihfront ihback ihbehind x
    -- an item is the loop's own, or belongs to one of the three parts, which do not meet
    obtain ⟨hlawful, hstart, hlast, hmem, hsub, -, -, -, hrest₀, hrest₁, hrest₂⟩ := hstep
    have hhead := hlawful.start_le_head
    have hheadlast := hlawful.head_le_last
    have hsame : ∀ {n l}, (n, l) ∈ pending → l.start = index → n = number ∧ l = loop :=
      fun hp hl => Prod.mk.inj (eq_of_start_eq ho hsub hp hmem (hl.trans hstart.symm))
    simp only [List.mem_append, List.mem_cons, ihfront, ihback, ihbehind, Outline.mem_exitItems]
    cases x with
    | block n b =>
      simp only [Item.Belongs, reduceCtorEq, false_or, false_and, or_false]
      grind
    | loopOpen n l | loopExit n l | loopClose n l =>
      simp only [Item.Belongs, hrest₀, hrest₁, hrest₂]
      grind
  · intro pending rest index stop number b items hindex hstep _ ih x
    -- no loop and no other block starts inside of the block
    obtain ⟨hnumber, hstart, hstop, -, hnot⟩ := hstep
    have hbmem := List.mem_of_getElem? hnumber
    rw [List.mem_append, ih]
    cases x with
    | block n c =>
      have hsame : ∀ {m}, o.blocks[m]? = some c → index ≤ c.start → c.start < b.stop →
          m = number := fun hm hle hlt =>
        ho.tiles.position_unique hm hnumber (ho.tiles.contains_start (List.mem_of_getElem? hm))
          ⟨hstart ▸ hle, hlt⟩
      simp only [Item.Belongs]
      split <;> grind
    | loopOpen n l | loopExit n l | loopClose n l =>
      have := hnot (n, l)
      simp only [Item.Belongs, Block.Contains] at this ⊢
      split <;> grind

omit ho hsub h in
/-- No item belongs to two ranges that do not meet. -/
private theorem not_belongs_of_le {i s : Nat} {pending' : List (Nat × Loop)} {x : Item}
    (hx : x.Belongs o pending index stop) (hle : stop ≤ i) : ¬ x.Belongs o pending' i s := by
  intro hx'
  cases x with
  | block n b =>
    obtain ⟨-, -, -, hlt⟩ := hx
    obtain ⟨-, -, hle', -⟩ := hx'
    omega
  | loopOpen n l | loopClose n l =>
    obtain ⟨-, -, hlt⟩ := hx
    obtain ⟨-, hle', -⟩ := hx'
    omega
  | loopExit n l =>
    obtain ⟨-, -, hlt, -⟩ := hx
    obtain ⟨-, hle', -⟩ := hx'
    omega

/-- No item is written twice. -/
theorem nodup_items : items.Nodup := by
  refine lawful_induction ho (motive := fun _ _ _ items => items.Nodup) ?_ ?_ ?_ hsub h
  · intro _ _ _ _
    exact List.nodup_nil
  · intro pending rest₀ rest₁ rest₂ rest₃ index stop number loop front back behind hstep hfront
      hback hbehind ihfront ihback ihbehind
    have hhead := hstep.lawful.start_le_head
    have hheadlast := hstep.lawful.head_le_last
    have hmemfront := fun x => hfront.mem_items_iff ho hstep.sublist₀ (x := x)
    have hmemback := fun x => hback.mem_items_iff ho hstep.sublist₁ (x := x)
    have hmembehind := fun x => hbehind.mem_items_iff ho hstep.sublist₂ (x := x)
    -- the three parts are ranges that do not meet
    have hback_front : ∀ x ∈ back, x ∉ front := fun x hx hx' =>
      not_belongs_of_le ((hmemback x).mp hx) (Nat.le_refl _) ((hmemfront x).mp hx')
    have hfront_behind : ∀ x ∈ front, x ∉ behind := fun x hx hx' =>
      not_belongs_of_le ((hmemfront x).mp hx) (Nat.le_refl _) ((hmembehind x).mp hx')
    have hback_behind : ∀ x ∈ back, x ∉ behind := fun x hx hx' =>
      not_belongs_of_le ((hmemback x).mp hx) (by omega) ((hmembehind x).mp hx')
    -- the loop itself is no longer pending in any of them
    have hnot₀ : (number, loop) ∉ rest₀ := fun hmem =>
      ((hstep.mem_rest₀ _).mp hmem).2 hstep.start_eq
    have hnot₁ : (number, loop) ∉ rest₁ := fun hmem => hnot₀ (hfront.rest_sublist.subset hmem)
    have hnot₂ : (number, loop) ∉ rest₂ := fun hmem => hnot₁ (hback.rest_sublist.subset hmem)
    have hown : ∀ x, x = .loopOpen number loop ∨ x = .loopExit number loop ∨
        x = .loopClose number loop → x ∉ front ∧ x ∉ back ∧ x ∉ behind := by
      rintro x (rfl | rfl | rfl) <;> rw [hmemfront, hmemback, hmembehind] <;>
        exact ⟨fun hx => hnot₀ hx.1, fun hx => hnot₁ hx.1, fun hx => hnot₂ hx.1⟩
    have hexit : (o.exitItems number loop).Nodup := by
      rw [Outline.exitItems]
      split <;> simp
    clear hmemfront hmemback hmembehind
    simp only [List.cons_append, List.append_assoc, List.nodup_cons, List.nodup_append,
      List.mem_append, List.mem_cons, Outline.mem_exitItems]
    grind
  · intro pending rest index stop number b items hindex hstep hbehind ih
    split
    · refine List.nodup_cons.mpr ⟨?_, ih⟩
      intro hmem
      have hstart := ((hbehind.mem_items_iff ho hstep.sublist).mp hmem).2.2.1
      have := hstep.start_eq
      have := hstep.lt_stop
      omega
    · exact ih

/-- A pending loop that starts in a range also ends there. -/
theorem last_lt {p : Nat × Loop} (hp : p ∈ pending) (hindex : index ≤ p.2.start)
    (hstop : p.2.start < stop) : p.2.last < stop := by
  refine lawful_induction ho (motive := fun pending index stop _ =>
    ∀ p ∈ pending, index ≤ p.2.start → p.2.start < stop → p.2.last < stop)
    ?_ ?_ ?_ hsub h p hp hindex hstop
  · intro _ _ _ _ _ _ _ _
    omega
  · intro pending rest₀ rest₁ rest₂ rest₃ index stop number loop front back behind hstep _ _ _
      ihfront ihback ihbehind p hp hle hlt
    have hlast := hstep.last_lt
    have hheadlast := hstep.lawful.head_le_last
    rcases hstep.mem_cases ho hp hle hlt with rfl | ⟨hp, hle, hlt⟩ | ⟨hp, hle, hlt⟩ | ⟨hp, hle, hlt⟩
    · exact hlast
    · have := ihfront p hp hle hlt
      omega
    · have := ihback p hp hle hlt
      omega
    · exact ihbehind p hp hle hlt
  · intro pending rest index stop number b items hindex hstep _ ih p hp hle hlt
    have hnot := hstep.not_contains p hp
    have hstart := hstep.start_eq
    refine ih p hp (Nat.le_of_not_lt fun hbelow => hnot ⟨?_, hbelow⟩) hlt
    omega

/-- Two pending loops that start in a range are apart from each other, or one lies in the other. -/
theorem apart_or_nested {p q : Nat × Loop} (hp : p ∈ pending) (hq : q ∈ pending)
    (hpindex : index ≤ p.2.start) (hpstop : p.2.start < stop) (hqindex : index ≤ q.2.start)
    (hqstop : q.2.start < stop) : p.2.ApartOrNested q.2 := by
  refine lawful_induction ho (motive := fun pending index stop _ => ∀ p ∈ pending, ∀ q ∈ pending,
    index ≤ p.2.start → p.2.start < stop → index ≤ q.2.start → q.2.start < stop →
      p.2.ApartOrNested q.2) ?_ ?_ ?_ hsub h p hp q hq hpindex hpstop hqindex hqstop
  · intros
    omega
  · intro pending rest₀ rest₁ rest₂ rest₃ index stop number loop front back behind hstep hfront
      hback hbehind ihfront ihback ihbehind p hp q hq hpindex hpstop hqindex hqstop
    have hheadlast := hstep.lawful.head_le_last
    have hstart := hstep.lawful.start_le_head
    have hlastfront := fun {r} => hfront.last_lt ho hstep.sublist₀ (p := r)
    have hlastback := fun {r} => hback.last_lt ho hstep.sublist₁ (p := r)
    -- two loops of one part are known by induction; loops of different parts lie apart, since each
    -- ends in the part in which it starts; and the loop itself contains its front and its back
    rcases hstep.mem_cases ho hp hpindex hpstop with rfl | ⟨hp, hple, hplt⟩ | ⟨hp, hple, hplt⟩ |
        ⟨hp, hple, hplt⟩ <;>
      rcases hstep.mem_cases ho hq hqindex hqstop with rfl | ⟨hq, hqle, hqlt⟩ | ⟨hq, hqle, hqlt⟩ |
        ⟨hq, hqle, hqlt⟩
    all_goals grind [Loop.ApartOrNested, SpansApartOrNested]
  · intro pending rest index stop number b items hindex hstep _ ih p hp q hq hpindex hpstop hqindex
      hqstop
    have hstart := hstep.start_eq
    refine ih p hp q hq (Nat.le_of_not_lt fun hlt => hstep.not_contains p hp ⟨by omega, hlt⟩) hpstop
      (Nat.le_of_not_lt fun hlt => hstep.not_contains q hq ⟨by omega, hlt⟩) hqstop

end Lawful

end Emits

end JvmSource
