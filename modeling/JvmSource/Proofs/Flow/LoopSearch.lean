import JvmSource.Proofs.Flow.Bounds
import JvmSource.Proofs.Flow.Loop

/-!
# What the search for loops finds

Each loop that is found has the form that its last branch, the jump before it and the branches
inside of it give it (`Loop.WellFormed`). That form is stated by where branches jump to in the code
(`BranchesTo`), without the edges of the graph and without the search. Where the last branch of a
loop may fall through, the exit is right behind it; where it always jumps, the exit is the least of
the places that the loop is left for.

Conversely every branch back is a part of a loop: the search passes over a branch only if it stands
between the condition of a loop and its last branch (`Graph.exists_loop_of_target?`). The induction
is on the index from which the search goes down; the loops found above it are known only by the
index at which the search resumes.

Since the next loop ends before the condition of the one found before it, a branch back is a part of
exactly one loop (`loops_well_formed`).
-/

namespace JvmSource

/-- A jump right before the loop enters it at `entry`, behind its start. Other entrances do not
count. -/
def Loop.EnteredAt (g : Graph) (loop : Loop) (entry : Nat) : Prop :=
  loop.start < entry ∧ entry ≤ loop.last ∧
    ∃ before, loop.start = before + 1 ∧ g.jumpsAt before = true ∧ BranchesTo g.code before entry

/-- A branch of the loop leaves it for `target`, somewhere behind it. -/
def Loop.LeftFor (g : Graph) (loop : Loop) (target : Nat) : Prop :=
  loop.last < target ∧ ∃ i, loop.start ≤ i ∧ i < loop.last ∧ BranchesTo g.code i target

/-- The form of a loop, by the branches of the code. -/
structure Loop.WellFormed (g : Graph) (loop : Loop) : Prop where
  start_le_condition : loop.start ≤ loop.condition
  condition_le_last : loop.condition ≤ loop.last
  last_lt_exit : loop.last < loop.exit
  exit_le_length : loop.exit ≤ g.code.length
  branchesTo_start : BranchesTo g.code loop.last loop.start
  condition_mem : loop.condition ∈ g.indices
  /-- A loop is a `while` loop if a jump enters it, and that jump goes to its condition. -/
  kind_eq_iff : loop.kind = .whileLoop ↔ ∃ entry, loop.EnteredAt g entry
  condition_eq : ∀ entry, loop.EnteredAt g entry → loop.condition = entry
  /-- A loop is left behind its last branch, if that may fall through. -/
  exit_eq : g.jumpsAt loop.last = false → loop.exit = loop.last + 1
  isLeast_exit : g.jumpsAt loop.last = true → IsLeast {target | loop.LeftFor g target} loop.exit

namespace Graph

variable {bytes : List UInt8} {regions : List Region} {g : Graph} {loop : Loop}

section Built

variable (hdecode : decode bytes = .ok g.code) (hbuild : build g.code regions = .ok g)
include hdecode hbuild

/-! ### One loop -/

/-- The edges of the graph are the branches of the code. -/
theorem target?_eq_some_iff_branchesTo {i j : Nat} :
    g.target? i = some j ↔ BranchesTo g.code i j :=
  target?_eq_some_iff (sequential_of_decodeFrom hdecode) hbuild

/-- The search finds the entrance of a loop where a branch enters it. -/
theorem enteredAt_iff {entry : Nat} :
    loop.EnteredAt g entry ↔ g.Enters loop.start loop.last entry := by
  simp only [Enters, target?_eq_some_iff_branchesTo hdecode hbuild]
  rfl

/-- The search looks for the exit of a loop where a branch leaves it. -/
theorem leftFor_iff {target : Nat} :
    loop.LeftFor g target ↔ g.Leaves loop.start loop.last target := by
  simp only [Leaves, target?_eq_some_iff_branchesTo hdecode hbuild]
  rfl

/-- A jump at the end of a loop is passed by at the nearest place that the loop is left for. -/
theorem isLeast_of_findExit (hjumps : g.jumpsAt loop.last = true)
    (hexit : g.findExit loop.start loop.last = .ok loop.exit) :
    IsLeast {target | loop.LeftFor g target} loop.exit := by
  simp only [leftFor_iff hdecode hbuild]
  rcases findExit_of_jumpsAt hdecode hbuild hjumps loop.start with
    ⟨exit, hexit', hleast⟩ | hfails
  · obtain rfl := Except.ok.inj (hexit.symm.trans hexit')
    exact hleast
  · cases hexit.symm.trans hfails

/-- **A loop that has been found is well formed.** -/
theorem wellFormed_of_findLoop {starts : List Nat} (htarget : g.target? loop.last = some loop.start)
    (hle : loop.start ≤ loop.last) (hloop : g.findLoop starts loop.start loop.last = .ok loop) :
    loop.WellFormed g := by
  have hcode : Sequential 0 0 g.code := sequential_of_decodeFrom hdecode
  have hlawful := lawful_of_findLoop hdecode hbuild htarget hle hloop
  obtain ⟨-, -, -, hexit, hform⟩ := findLoop_eq_ok hloop
  obtain ⟨condition, kind, hform', hkind⟩ :=
    exists_findForm hdecode hbuild hle (target_mem_indices hcode hbuild htarget)
  obtain ⟨rfl, rfl⟩ := Prod.mk.inj (Except.ok.inj (hform'.symm.trans hform))
  have hleast := fun hjumps => isLeast_of_findExit hdecode hbuild hjumps hexit
  -- where the instruction behind the branch can be reached, the search ends at once
  have hnext : g.jumpsAt loop.last = false → loop.exit = loop.last + 1 := by
    intro hjumps
    rw [findExit, if_neg (by simp [hjumps]), Except.ok.injEq] at hexit
    exact hexit.symm
  obtain ⟨hlast, -⟩ := lt_length_of_target? hcode hbuild htarget
  -- otherwise the exit is a place behind the loop that a branch inside leads to
  have hbehind : loop.last < loop.exit ∧ loop.exit ≤ g.code.length := by
    rcases hjumps : g.jumpsAt loop.last with _ | _
    · have := hnext hjumps
      omega
    · obtain ⟨hlt, i, -, -, a, b, -, hb, -⟩ := (hleast hjumps).1
      exact ⟨hlt, Nat.le_of_lt (List.getElem?_eq_some_iff.mp hb).1⟩
  have hcondition : loop.condition ∈ g.indices := by
    rcases hkind with ⟨-, -, -, before, -, -, hentry⟩ | ⟨-, -, -, -, hmem⟩
    · exact target_mem_indices hcode hbuild hentry
    · exact hmem
  -- a loop is entered at one place at most
  have hentered : ∀ entry, loop.EnteredAt g entry →
      loop.kind = .whileLoop ∧ loop.condition = entry := by
    intro entry hentry
    rw [enteredAt_iff hdecode hbuild] at hentry
    rcases hkind with ⟨hkind, hentry'⟩ | ⟨-, hnone, -⟩
    · exact ⟨hkind, hentry'.unique hentry⟩
    · exact absurd hentry (hnone entry)
  exact
    { start_le_condition := hlawful.start_le_condition
      condition_le_last := hlawful.condition_le_last
      last_lt_exit := hbehind.1
      exit_le_length := hbehind.2
      branchesTo_start := (target?_eq_some_iff_branchesTo hdecode hbuild).mp htarget
      condition_mem := hcondition
      kind_eq_iff := by
        constructor
        · intro hwhile
          refine ⟨loop.condition, (enteredAt_iff hdecode hbuild).mpr ?_⟩
          rcases hkind with ⟨-, hentry⟩ | ⟨hdo, -⟩
          · exact hentry
          · cases hdo.symm.trans hwhile
        · rintro ⟨entry, hentry⟩
          exact (hentered entry hentry).1
      condition_eq := fun entry hentry => (hentered entry hentry).2
      exit_eq := hnext
      isLeast_exit := hleast }

/-! ### The search -/

/-- Every loop has been found at its last branch. -/
theorem exists_findLoop_of_mem {n resume : Nat} {starts : List Nat} {loops : List Loop}
    (h : g.findLoops n resume starts = .ok loops) (hloop : loop ∈ loops) :
    g.target? loop.last = some loop.start ∧ loop.start ≤ loop.last ∧
      ∃ starts', g.findLoop starts' loop.start loop.last = .ok loop := by
  induction n generalizing resume starts loops with
  | zero =>
    obtain rfl : [] = loops := by simpa [findLoops] using h
    simp at hloop
  | succ last ih =>
    rcases findLoops_succ_eq_ok hdecode hbuild h with
      ⟨h, -⟩ | ⟨start, found, rest, -, htarget, hle, hfound, hrest, rfl⟩
    · exact ih h hloop
    · rcases List.mem_cons.mp hloop with rfl | hloop
      · obtain ⟨rfl, rfl, -⟩ := findLoop_eq_ok hfound
        exact ⟨htarget, hle, starts, hfound⟩
      · exact ih hrest hloop

/-- **The search misses no branch back.** The induction is on the index from which the search goes
down; what lies at or behind `resume` belongs to a loop that was found before. -/
theorem exists_loop_of_target? {n resume : Nat} {starts : List Nat} {loops : List Loop}
    (h : g.findLoops n resume starts = .ok loops) {i t : Nat} (hi : i < n) (hresume : i < resume)
    (htarget : g.target? i = some t) (hback : t ≤ i) :
    ∃ l ∈ loops, l.condition ≤ i ∧ i ≤ l.last := by
  induction n generalizing resume starts loops with
  | zero => exact absurd hi (Nat.not_lt_zero i)
  | succ last ih =>
    rcases findLoops_succ_eq_ok hdecode hbuild h with
      ⟨h, hpassed⟩ | ⟨start, found, rest, -, htarget', hle, hfound, hrest, rfl⟩
    · -- the branch at `i` would have been taken
      have hne : i ≠ last := by
        rintro rfl
        exact absurd (hpassed hresume t htarget) (Nat.not_lt.mpr hback)
      exact ih h (by omega) hresume
    · have hlawful := lawful_of_findLoop hdecode hbuild htarget' hle hfound
      obtain ⟨-, hlast, -⟩ := findLoop_eq_ok hfound
      by_cases hcondition : i < found.condition
      · have hbelow := hlawful.condition_le_last
        obtain ⟨l, hl, hrange⟩ := ih hrest (by omega) hcondition
        exact ⟨l, List.mem_cons_of_mem _ hl, hrange⟩
      · exact ⟨found, List.mem_cons_self, by omega, by omega⟩

end Built

end Graph

/-- Where each loop ends before the condition of those in front of it, no index is part of two. -/
theorem Loop.eq_of_mem_range {loops : List Loop} {a b : Loop} {i : Nat}
    (h : loops.Pairwise fun a b => b.last < a.condition) (ha : a ∈ loops) (hb : b ∈ loops)
    (hia : a.condition ≤ i ∧ i ≤ a.last) (hib : b.condition ≤ i ∧ i ≤ b.last) : a = b := by
  induction h with
  | nil => simp at ha
  | cons hfirst _ ih =>
    rcases List.mem_cons.mp ha with rfl | ha' <;> rcases List.mem_cons.mp hb with rfl | hb'
    · rfl
    · have := hfirst b hb'
      omega
    · have := hfirst a ha'
      omega
    · exact ih ha' hb'

/-- **Loops are well formed and complete.** Each loop of a decoded method has the form that its
branches give it. No two loops start at one place, and each ends before the condition of the one
found before it, so that no index lies between the condition and the end of two loops. Every branch
that does not jump ahead lies there for exactly one loop. -/
theorem loops_well_formed {bytes : List UInt8} {regions : List Region} {g : Graph}
    {loops : List Loop} (hdecode : decode bytes = .ok g.code)
    (hbuild : Graph.build g.code regions = .ok g) (hloops : g.loops = .ok loops) :
    (∀ l ∈ loops, l.WellFormed g) ∧ (loops.map (·.start)).Nodup ∧
      (loops.Pairwise fun a b => b.last < a.condition) ∧
      ∀ i a offset, g.code[i]? = some a → a.branchOffset? = some offset → offset ≤ 0 →
        ∃! l, l ∈ loops ∧ l.condition ≤ i ∧ i ≤ l.last := by
  have hcode : Sequential 0 0 g.code := sequential_of_decodeFrom hdecode
  have hpairwise := Graph.pairwise_loops hdecode hbuild hloops
  have hdisjoint : loops.Pairwise fun a b => b.last < a.condition := hpairwise.imp And.left
  refine ⟨fun l hl => ?_, ?_, hdisjoint, ?_⟩
  · obtain ⟨htarget, hle, starts, hfound⟩ :=
      Graph.exists_findLoop_of_mem hdecode hbuild hloops hl
    exact Graph.wellFormed_of_findLoop hdecode hbuild htarget hle hfound
  · rw [List.Nodup, List.pairwise_map]
    exact hpairwise.imp fun hab heq => hab.2 heq.symm
  · intro i a offset ha hoffset hle
    have hbranch : a.branchTarget?.isSome := by simp [Instruction.branchTarget?, hoffset]
    obtain ⟨t, ht⟩ := Graph.exists_target?_of_isSome hcode hbuild ha hbranch
    have hback : t ≤ i := by
      have := Graph.lt_iff_of_target? hcode hbuild ht ha hoffset
      omega
    have hi := (Graph.lt_length_of_target? hcode hbuild ht).1
    obtain ⟨l, hl, hrange⟩ :=
      Graph.exists_loop_of_target? hdecode hbuild hloops hi hi ht hback
    refine ⟨l, ⟨hl, hrange⟩, ?_⟩
    rintro l' ⟨hl', hrange'⟩
    exact Loop.eq_of_mem_range hdisjoint hl' hl hrange' hrange

/-- A `while` loop, with the jump to its condition and the branch back from there. -/
theorem loops_well_formed_of_whileLoop :
    ∃ g, decode [0xa7, 0, 6, 0x84, 0, 1, 0x1a, 0x9a, 0xff, 0xfc, 0xb1] = .ok g.code ∧
      Graph.build g.code [] = .ok g ∧ g.loops = .ok [⟨1, 2, 3, 4, .whileLoop⟩] ∧
      Loop.WellFormed g ⟨1, 2, 3, 4, .whileLoop⟩ := by
  have hok : (decode [0xa7, 0, 6, 0x84, 0, 1, 0x1a, 0x9a, 0xff, 0xfc, 0xb1] >>= fun code =>
      Graph.build code [] >>= fun g => g.loops) = .ok [⟨1, 2, 3, 4, .whileLoop⟩] := by
    decide +kernel
  obtain ⟨code, hdecode, h⟩ := Result.bind_eq_ok.mp hok
  obtain ⟨g, hbuild, hloops⟩ := Result.bind_eq_ok.mp h
  obtain rfl := Graph.code_of_build hbuild
  exact ⟨g, hdecode, hbuild, hloops,
    (loops_well_formed hdecode hbuild hloops).1 _ List.mem_cons_self⟩

end JvmSource
