import Mathlib.Order.Bounds.Defs
import JvmSource.Flow.Loop
import JvmSource.Proofs.Flow.Graph

/-!
# The loops of a method

Each loop that is found ends in a branch to its start, and its condition lies between the two. A
`while` loop has the jump to its condition right before it (`Loop.Lawful`). The search goes down
from the end of the method and resumes below the condition of the loop it has found, so that of two
loops the later one ends before the condition of the earlier one; and no two loops share their start
(`Graph.pairwise_loops`). Nothing here keeps two loops from overlapping: that is for the order of
the items to refuse.

The search resolves the targets of branches for itself. For a graph that has been built they are
those of the edges, so each part of the search has a lemma that says what it finds in terms of
edges:

* `Graph.findExit_of_jumpsAt`: the nearest of the places that the loop is left for;
* `Graph.exists_findEntrance`: where a jump right before the loop enters it (`Graph.Enters`);
* `Graph.exists_findCondition`: a bound inside of the loop;
* `Graph.exists_findForm`: one of the two forms of a loop, from the two before.

What the search does at one index is said once (`Graph.findLoops_succ_eq_ok`): nothing ends there,
or a loop does and the search goes on in front of its condition. All other facts about the search
are inductions along this step.
-/

namespace JvmSource

/-- What a loop of a graph has in common with every other. -/
structure Loop.Lawful (g : Graph) (loop : Loop) : Prop where
  target_last : g.target? loop.last = some loop.start
  start_le_condition : loop.start ≤ loop.condition
  condition_le_last : loop.condition ≤ loop.last
  /-- A jump over the body enters a `while` loop. -/
  entry : loop.kind = .whileLoop → loop.start < loop.condition ∧
    ∃ before, loop.start = before + 1 ∧ g.jumpsAt before = true ∧
      g.target? before = some loop.condition

namespace Loop.Lawful

variable {g : Graph} {loop : Loop}

/-- The head of a loop is its start or its condition, and does not stand before the start. -/
theorem start_le_head (h : loop.Lawful g) : loop.start ≤ loop.head := by
  rw [Loop.head]
  split
  · exact h.start_le_condition
  · exact Nat.le_refl _

/-- Nor does it stand behind the last branch. -/
theorem head_le_last (h : loop.Lawful g) : loop.head ≤ loop.last := by
  rw [Loop.head]
  split
  · exact h.condition_le_last
  · exact Nat.le_trans h.start_le_condition h.condition_le_last

theorem start_le_last (h : loop.Lawful g) : loop.start ≤ loop.last :=
  Nat.le_trans h.start_le_condition h.condition_le_last

end Loop.Lawful

namespace Graph

variable {bytes : List UInt8} {regions : List Region} {g : Graph} {start last : Nat}

/-- A jump right before the loop from `start` to `last` enters it at `entry`, behind its start. -/
def Enters (g : Graph) (start last entry : Nat) : Prop :=
  start < entry ∧ entry ≤ last ∧
    ∃ before, start = before + 1 ∧ g.jumpsAt before = true ∧ g.target? before = some entry

/-- A loop has one entrance at most. -/
theorem Enters.unique {entry entry' : Nat} (h : g.Enters start last entry)
    (h' : g.Enters start last entry') : entry = entry' := by
  obtain ⟨-, -, before, rfl, -, htarget⟩ := h
  obtain ⟨-, -, before', hbefore, -, htarget'⟩ := h'
  obtain rfl := Nat.succ.inj hbefore
  exact Option.some.inj (htarget.symm.trans htarget')

/-- A branch between `start` and `last` jumps to `target`, somewhere behind `last`. The branch at
`last` goes back, so it is not counted. -/
def Leaves (g : Graph) (start last target : Nat) : Prop :=
  last < target ∧ ∃ i, start ≤ i ∧ i < last ∧ g.target? i = some target

/-- The branches of a range are the instructions in it that are branches. -/
theorem mem_branchesBetween_iff {stop : Nat} {a : Instruction} :
    a ∈ g.branchesBetween start stop ↔
      a.operation.isBranch = true ∧ ∃ i, start ≤ i ∧ i < stop ∧ g.code[i]? = some a := by
  rw [branchesBetween, List.mem_filter, and_comm, List.mem_iff_getElem?]
  refine and_congr_right fun _ => ⟨?_, ?_⟩
  · rintro ⟨k, hk⟩
    rw [List.getElem?_drop, List.getElem?_take] at hk
    split at hk
    · exact ⟨start + k, Nat.le_add_right _ _, by assumption, hk⟩
    · cases hk
  · rintro ⟨i, hstart, hstop, hi⟩
    refine ⟨i - start, ?_⟩
    rw [List.getElem?_drop, List.getElem?_take, Nat.add_sub_cancel' hstart, if_pos hstop, hi]

section Built

variable (hdecode : decode bytes = .ok g.code) (hbuild : build g.code regions = .ok g)
include hdecode hbuild

/-! ### The parts of a loop -/

/-- A branch inside of a loop is resolved to where the graph has its edge to. -/
theorem exists_requireTarget_of_mem {stop : Nat} {a : Instruction}
    (ha : a ∈ g.branchesBetween start stop) :
    ∃ i t, start ≤ i ∧ i < stop ∧ g.target? i = some t ∧ requireTarget g.code a = .ok t := by
  obtain ⟨hbranch, i, hstart, hstop, hi⟩ := mem_branchesBetween_iff.mp ha
  obtain ⟨t, ht⟩ := exists_target?_of_isBranch hdecode hbuild hi hbranch
  exact ⟨i, t, hstart, hstop, ht,
    (requireTarget_eq_ok_iff (sequential_of_decodeFrom hdecode) hbuild hi).mpr ht⟩

/-- The branches inside of a loop are all resolved, to the targets of the edges. -/
theorem exists_targetsBetween (start stop : Nat) :
    ∃ targets, (g.branchesBetween start stop).mapM (requireTarget g.code) = .ok targets ∧
      ∀ t, t ∈ targets ↔ ∃ i, start ≤ i ∧ i < stop ∧ g.target? i = some t := by
  have hcode : Sequential 0 0 g.code := sequential_of_decodeFrom hdecode
  obtain ⟨targets, htargets⟩ := Result.exists_mapM_eq_ok
    fun a (ha : a ∈ g.branchesBetween start stop) => by
      obtain ⟨_, t, -, -, -, ht⟩ := exists_requireTarget_of_mem hdecode hbuild ha
      exact ⟨t, ht⟩
  refine ⟨targets, htargets, fun t => ⟨fun ht => ?_, ?_⟩⟩
  · obtain ⟨a, ha, hrequire⟩ := Result.exists_of_mem_mapM htargets ht
    obtain ⟨i, t', hstart, hstop, ht', hrequire'⟩ := exists_requireTarget_of_mem hdecode hbuild ha
    obtain rfl := Except.ok.inj (hrequire.symm.trans hrequire')
    exact ⟨i, hstart, hstop, ht'⟩
  · rintro ⟨i, hstart, hstop, ht⟩
    obtain ⟨a, ha, hbranch⟩ := exists_branch_of_target? hcode hbuild ht
    have hmem : a ∈ g.branchesBetween start stop :=
      mem_branchesBetween_iff.mpr ⟨hbranch, i, hstart, hstop, ha⟩
    exact Result.mem_of_mapM htargets hmem ((requireTarget_eq_ok_iff hcode hbuild ha).mpr ht)

/-- The exit of a loop whose last branch always jumps: the nearest place that the loop is left for.
The search fails if there is none, and for no other reason. -/
theorem findExit_of_jumpsAt (hjumps : g.jumpsAt last = true) (start : Nat) :
    (∃ exit, g.findExit start last = .ok exit ∧ IsLeast {t | g.Leaves start last t} exit) ∨
      g.findExit start last = .error (.loopExitNotFound start last) := by
  obtain ⟨targets, htargets, hmem⟩ := exists_targetsBetween hdecode hbuild start last
  have hleaves (t : Nat) : t ∈ targets.filter (last < ·) ↔ g.Leaves start last t := by
    rw [List.mem_filter, hmem, decide_eq_true_eq, and_comm, Leaves]
  rw [findExit, if_pos hjumps, htargets]
  cases hmin : (targets.filter (last < ·)).min? with
  | none => exact .inr (by simp [bind, Except.bind, hmin])
  | some exit =>
    obtain ⟨hexit, hle⟩ := List.min?_eq_some_iff.mp hmin
    refine .inl ⟨exit, by simp [bind, Except.bind, hmin, pure, Except.pure],
      (hleaves exit).mp hexit, ?_⟩
    exact fun t ht => hle t ((hleaves t).mpr ht)

/-- The entrance of a loop is the place that a jump right before the loop enters it at. -/
theorem exists_findEntrance (start last : Nat) :
    ∃ entrance, g.findEntrance start last = .ok entrance ∧
      ∀ entry, entrance = some entry ↔ g.Enters start last entry := by
  have hcode : Sequential 0 0 g.code := sequential_of_decodeFrom hdecode
  cases start with
  -- a loop at the start of the method has no instruction before it
  | zero => exact ⟨none, rfl, fun entry => by simp [Enters]⟩
  | succ before =>
    have henters (entry : Nat) : g.Enters (before + 1) last entry ↔ before + 1 < entry ∧
        entry ≤ last ∧ g.jumpsAt before = true ∧ g.target? before = some entry := by
      simp [Enters]
    simp only [henters, findEntrance]
    cases ha : g.code[before]? with
    | none => exact ⟨none, rfl, fun entry => by simp [jumpsAt, ha]⟩
    | some a =>
      have hjumps : g.jumpsAt before = a.operation.isJump := by simp [jumpsAt, ha]
      cases hjump : a.operation.isJump with
      | false => exact ⟨none, by simp [hjump], fun entry => by simp [hjumps, hjump]⟩
      | true =>
        obtain ⟨t, ht⟩ := exists_target?_of_isBranch hdecode hbuild ha
          (Operation.isBranch_of_isJump hjump)
        have hrequire := (requireTarget_eq_ok_iff hcode hbuild ha).mpr ht
        refine ⟨if before + 1 < t ∧ t ≤ last then some t else none, ?_, fun entry => ?_⟩
        · simp [hjump, hrequire, bind, Except.bind, pure, Except.pure]
        · rw [hjumps, hjump, ht]
          split <;> simp <;> omega

/-- Whether a block goes back to the start of a loop is read off its last branch. -/
theorem exists_returnsTo (start stop : Nat) : ∃ returns, g.returnsTo start stop = .ok returns := by
  rw [returnsTo]
  split
  · exact ⟨false, rfl⟩
  · next a ha =>
    split
    · next hbranch =>
      obtain ⟨t, ht⟩ := exists_target?_of_isBranch hdecode hbuild ha hbranch
      have hrequire :=
        (requireTarget_eq_ok_iff (sequential_of_decodeFrom hdecode) hbuild ha).mpr ht
      exact ⟨t == start, by rw [hrequire]; rfl⟩
    · exact ⟨false, rfl⟩

/-- The condition of a loop that is entered at its top begins at a bound inside of the loop. -/
theorem exists_findCondition (hle : start ≤ last) (hstart : start ∈ g.indices) :
    ∃ condition, g.findCondition start last = .ok condition ∧
      start ≤ condition ∧ condition ≤ last ∧ condition ∈ g.indices := by
  have hinside : ∀ s ∈ (g.spansInside start last).reverse,
      start ≤ s.1 ∧ s.1 ≤ last ∧ s.1 ∈ g.indices := by
    intro s hs
    obtain ⟨hmem, hbounds⟩ := List.mem_filter.mp (List.mem_reverse.mp hs)
    rw [Bool.and_eq_true, decide_eq_true_eq, decide_eq_true_eq] at hbounds
    exact ⟨hbounds.1, Nat.le_of_lt hbounds.2, (List.of_mem_zip hmem).1⟩
  rw [findCondition]
  split
  · exact ⟨start, rfl, Nat.le_refl _, hle, hstart⟩
  · next index next above hspans =>
    rw [hspans] at hinside
    obtain ⟨hfirst, habove⟩ := List.forall_mem_cons.mp hinside
    refine Result.exists_foldlM_eq_ok (fun s hs condition hcondition => ?_) hfirst
    obtain ⟨returns, hreturns⟩ := exists_returnsTo hdecode hbuild start s.2
    refine ⟨if returns then s.1 else condition, by simp only [hreturns]; rfl, ?_⟩
    split
    · exact habove s hs
    · exact hcondition

/-- Where the condition of a loop begins and how the loop is entered is always found. -/
theorem exists_findForm (hle : start ≤ last) (hstart : start ∈ g.indices) :
    ∃ condition kind, g.findForm start last = .ok (condition, kind) ∧
      ((kind = .whileLoop ∧ g.Enters start last condition) ∨
        (kind = .doWhile ∧ (∀ entry, ¬ g.Enters start last entry) ∧
          start ≤ condition ∧ condition ≤ last ∧ condition ∈ g.indices)) := by
  obtain ⟨entrance, hentrance, henters⟩ := exists_findEntrance hdecode hbuild start last
  rw [findForm, hentrance]
  cases entrance with
  | some entry => exact ⟨entry, .whileLoop, rfl, .inl ⟨rfl, (henters entry).mp rfl⟩⟩
  | none =>
    obtain ⟨condition, hcondition, hbounds⟩ := exists_findCondition hdecode hbuild hle hstart
    refine ⟨condition, .doWhile, ?_, .inr ⟨rfl, fun entry hentry => ?_, hbounds⟩⟩
    · simp [bind, Except.bind, hcondition, pure, Except.pure]
    · cases (henters entry).mpr hentry

end Built

/-! ### One loop -/

/-- The parts of a loop that has been found. -/
theorem findLoop_eq_ok {starts : List Nat} {loop : Loop}
    (h : g.findLoop starts start last = .ok loop) :
    loop.start = start ∧ loop.last = last ∧ start ∉ starts ∧
      g.findExit start last = .ok loop.exit ∧
      g.findForm start last = .ok (loop.condition, loop.kind) := by
  obtain ⟨exit, hexit, h⟩ := Result.bind_eq_ok.mp h
  obtain ⟨⟨condition, kind⟩, hform, h⟩ := Result.bind_eq_ok.mp h
  dsimp only at h
  split at h
  · cases h
  · next hstarts =>
    obtain ⟨_, -, h⟩ := Result.bind_eq_ok.mp h
    obtain rfl := Result.pure_eq_ok.mp h
    exact ⟨rfl, rfl, by simpa using hstarts, hexit, hform⟩

section Built

variable (hdecode : decode bytes = .ok g.code) (hbuild : build g.code regions = .ok g)
include hdecode hbuild

/-- A loop that has been found at a branch back is lawful. -/
theorem lawful_of_findLoop {starts : List Nat} {loop : Loop} (htarget : g.target? last = some start)
    (hle : start ≤ last) (h : g.findLoop starts start last = .ok loop) : loop.Lawful g := by
  have hcode : Sequential 0 0 g.code := sequential_of_decodeFrom hdecode
  obtain ⟨rfl, rfl, -, -, hform⟩ := findLoop_eq_ok h
  obtain ⟨condition, kind, hform', hkind⟩ :=
    exists_findForm hdecode hbuild hle (target_mem_indices hcode hbuild htarget)
  obtain ⟨rfl, rfl⟩ := Prod.mk.inj (Except.ok.inj (hform.symm.trans hform'))
  rcases hkind with ⟨-, hlt, hle', hbefore⟩ | ⟨hdo, -, hstart, hlast, -⟩
  · exact ⟨htarget, Nat.le_of_lt hlt, hle', fun _ => ⟨hlt, hbefore⟩⟩
  · refine ⟨htarget, hstart, hlast, fun hwhile => ?_⟩
    cases hdo.symm.trans hwhile

/-! ### The search -/

/-- A branch jumps back exactly if its edge does. -/
theorem jumpsBack_iff {a : Instruction} (ha : g.code[last]? = some a) :
    a.jumpsBack = true ↔ ∃ t, g.target? last = some t ∧ t ≤ last := by
  have hcode : Sequential 0 0 g.code := sequential_of_decodeFrom hdecode
  rw [Instruction.jumpsBack]
  cases hoffset : a.branchOffset? with
  | none =>
    refine iff_of_false (by simp) ?_
    rintro ⟨t, ht, -⟩
    obtain ⟨a', b, ha', -, htarget⟩ := (target?_eq_some_iff hcode hbuild).mp ht
    obtain rfl := Option.some.inj (ha.symm.trans ha')
    simp [Instruction.branchTarget?, hoffset] at htarget
  | some offset =>
    obtain ⟨t, ht⟩ := exists_target?_of_isSome hcode hbuild ha
      (by simp [Instruction.branchTarget?, hoffset])
    -- the offset is positive exactly if the target stands behind the branch
    have hlt := lt_iff_of_target? hcode hbuild ht ha hoffset
    rw [Option.any_some, decide_eq_true_eq]
    constructor
    · intro hle
      exact ⟨t, ht, by omega⟩
    · rintro ⟨t', ht', hle⟩
      obtain rfl := Option.some.inj (ht.symm.trans ht')
      omega

/-- **One step of the search**: either nothing at `last` closes a loop in front of `resume`, or the
loop that ends there is found and the search goes on in front of its condition. -/
theorem findLoops_succ_eq_ok {resume : Nat} {starts : List Nat} {loops : List Loop}
    (h : g.findLoops (last + 1) resume starts = .ok loops) :
    (g.findLoops last resume starts = .ok loops ∧
        (last < resume → ∀ t, g.target? last = some t → last < t)) ∨
      ∃ start loop rest, last < resume ∧ g.target? last = some start ∧ start ≤ last ∧
        g.findLoop starts start last = .ok loop ∧
        g.findLoops last loop.condition (start :: starts) = .ok rest ∧ loops = loop :: rest := by
  have hcode : Sequential 0 0 g.code := sequential_of_decodeFrom hdecode
  rw [findLoops] at h
  split at h
  · next hnone =>
    refine .inl ⟨h, fun hresume t ht => ?_⟩
    obtain ⟨a, ha, -⟩ := exists_branch_of_target? hcode hbuild ht
    rw [Option.filter_eq_none_iff] at hnone
    refine Nat.lt_of_not_le fun hle => hnone a ha ?_
    rw [(jumpsBack_iff hdecode hbuild ha).mpr ⟨t, ht, hle⟩, decide_eq_true hresume, Bool.and_true]
  · next a hsome =>
    obtain ⟨ha, hback⟩ := Option.filter_eq_some_iff.mp hsome
    rw [Bool.and_eq_true, decide_eq_true_eq] at hback
    obtain ⟨t, ht, hle⟩ := (jumpsBack_iff hdecode hbuild ha).mp hback.1
    obtain ⟨start, hstart, h⟩ := Result.bind_eq_ok.mp h
    obtain ⟨loop, hloop, h⟩ := Result.bind_eq_ok.mp h
    obtain ⟨rest, hrest, h⟩ := Result.bind_eq_ok.mp h
    obtain rfl := Result.pure_eq_ok.mp h
    obtain rfl := Option.some.inj
      (ht.symm.trans ((requireTarget_eq_ok_iff hcode hbuild ha).mp hstart))
    exact .inr ⟨t, loop, rest, hback.2, ht, hle, hloop, hrest, rfl⟩

/-- The loops below an index. The induction is on that index; what the search has found above it
shows in `resume` and `starts` only. -/
theorem findLoops_eq_ok {n resume : Nat} {starts : List Nat} {loops : List Loop}
    (h : g.findLoops n resume starts = .ok loops) :
    (∀ l ∈ loops, l.Lawful g ∧ l.last < resume ∧ l.start ∉ starts) ∧
      loops.Pairwise fun a b => b.last < a.condition ∧ b.start ≠ a.start := by
  induction n generalizing resume starts loops with
  | zero =>
    obtain rfl : [] = loops := by simpa [findLoops] using h
    simp
  | succ last ih =>
    rcases findLoops_succ_eq_ok hdecode hbuild h with
      ⟨h, -⟩ | ⟨start, loop, rest, hresume, htarget, hle, hloop, hrest, rfl⟩
    · exact ih h
    · have hlawful := lawful_of_findLoop hdecode hbuild htarget hle hloop
      obtain ⟨rfl, rfl, hstarts, -⟩ := findLoop_eq_ok hloop
      obtain ⟨hall, hpairwise⟩ := ih hrest
      constructor
      · intro l hl
        rcases List.mem_cons.mp hl with rfl | hl
        · exact ⟨hlawful, hresume, hstarts⟩
        · obtain ⟨hl', hlt, hnot⟩ := hall l hl
          have hbelow := hlawful.condition_le_last
          exact ⟨hl', by omega, fun hmem => hnot (List.mem_cons_of_mem _ hmem)⟩
      · refine List.pairwise_cons.mpr ⟨?_, hpairwise⟩
        intro l hl
        obtain ⟨-, hlt, hnot⟩ := hall l hl
        exact ⟨hlt, fun heq => hnot (heq ▸ List.mem_cons_self)⟩

/-- Every loop of a method is lawful. -/
theorem lawful_of_mem_loops {loops : List Loop} (h : g.loops = .ok loops) :
    ∀ l ∈ loops, l.Lawful g :=
  fun l hl => ((findLoops_eq_ok hdecode hbuild h).1 l hl).1

/-- Of two loops of a method, the later one ends before the condition of the earlier one, and they
start at different places. -/
theorem pairwise_loops {loops : List Loop} (h : g.loops = .ok loops) :
    loops.Pairwise fun a b => b.last < a.condition ∧ b.start ≠ a.start :=
  (findLoops_eq_ok hdecode hbuild h).2

end Built

end Graph

end JvmSource
