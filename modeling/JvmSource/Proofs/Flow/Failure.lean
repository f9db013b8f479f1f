import JvmSource.Proofs.Failure
import JvmSource.Proofs.Flow.Block
import JvmSource.Proofs.Flow.Loop

/-!
# Failures of the flow passes

Every branch is resolved once, when the graph is built. The passes behind it resolve the same
targets again, each with an error of its own for a target that is not there, and always find them
(`Graph.resolveTarget_eq`, `Graph.exists_label?_of_target?`). What is left to fail for is then:

* cutting the method into blocks fails exactly if it runs off its end, and the error names its last
  instruction (`Graph.blocks_eq_error_iff`);
* the search for loops fails at a loop that has no form in the text: one whose start is that of
  another loop, one that nothing leaves, or one with a branch into its condition
  (`Graph.failsOnly_loops_isLoopFault`).

For the blocks the argument is about spans: each lies between two neighbouring bounds, so its first
instruction has a label, and what it may lead to is an edge or the next bound. Only behind the last
span there is nothing to lead to. For the loops the parts of the search are gone through; the lemmas
that say what each part finds also say that it fails for no other reason.
-/

namespace JvmSource

open Result (FailsOnly)

/-- The error is about a loop that has no form in the text, whatever its branches resolve to. -/
def Error.isLoopFault : Error → Bool
  | duplicateLoopStart .. | loopExitNotFound .. | ambiguousCondition .. => true
  | _ => false

namespace Graph

/-- The method runs off its end, and the error says so. -/
def RunsOff (g : Graph) (e : Error) : Prop :=
  g.FallsThrough (g.code.length - 1) ∧ e = .missingTerminator (g.code.length - 1)

variable {code : List Instruction} {regions : List Region} {g : Graph}

section Built

variable (hcode : Sequential 0 0 code) (h : build code regions = .ok g)
include hcode h

/-! ### Targets -/

/-- Where a branch jumps to there is a label. -/
theorem exists_label?_of_target? {i t : Nat} (ht : g.target? i = some t) :
    ∃ label, g.label? t = some label := by
  rw [← Option.isSome_iff_exists, isSome_label?_iff h]
  exact ⟨target_mem_indices hcode h ht, (lt_length_of_target? hcode h ht).2⟩

/-! ### Blocks -/

/-- A block is cut out between two bounds, of which the first lies inside the method and the second
one at its end at the latest. -/
theorem bounds_of_mem_spans {start stop : Nat} (hspan : (start, stop) ∈ g.spans) :
    start ∈ g.indices ∧ start < stop ∧ stop ∈ g.indices ∧ stop ≤ g.code.length := by
  obtain ⟨hmem, hlt⟩ := List.mem_filter.mp hspan
  obtain ⟨⟨first, second⟩, hzip, heq⟩ := List.mem_map.mp hmem
  obtain ⟨rfl, rfl⟩ := Prod.mk.inj heq
  obtain ⟨hfirst, hsecond⟩ := List.of_mem_zip hzip
  refine ⟨hfirst, of_decide_eq_true hlt, ?_, Nat.min_le_right _ _⟩
  rcases Nat.le_total second g.code.length with hle | hle
  · rw [Nat.min_eq_left hle]
    exact List.mem_of_mem_tail hsecond
  · rw [Nat.min_eq_right hle, code_of_build h]
    exact length_mem_indices hcode h

/-- What a block may lead to is a bound inside the method, unless the method runs off its end. -/
theorem label?_of_successors {last : Instruction} {i stop : Nat} {successors : List Nat}
    (hlast : g.code[i]? = some last) (hstop : stop ∈ g.indices) (hle : stop ≤ g.code.length)
    (hsuccessors : g.successors last stop = .ok successors) {t : Nat} (ht : t ∈ successors) :
    ∃ label, g.label? t = some label := by
  have hjump : t ∈ (g.target? i).toList → ∃ label, g.label? t = some label :=
    fun hmem => exists_label?_of_target? hcode h (Option.mem_toList.mp hmem)
  rw [successors_eq hcode h hlast] at hsuccessors
  split at hsuccessors
  · cases hsuccessors
    exact hjump ht
  · split at hsuccessors
    · cases hsuccessors
    · next hne =>
      have hnext : ∃ label, g.label? stop = some label := by
        rw [← Option.isSome_iff_exists, isSome_label?_iff h]
        exact ⟨hstop, Nat.lt_of_le_of_ne hle hne⟩
      rw [Except.ok.injEq] at hsuccessors
      subst hsuccessors
      split at ht
      · exact hjump ht
      · rcases List.mem_append.mp ht with hmem | hmem
        · exact hjump hmem
        · rwa [List.mem_singleton.mp hmem]

/-- A block between two bounds can be cut out, unless it is the last one and does not end the
flow. -/
theorem failsOnly_blockBetween_of_mem_spans {start stop : Nat} (hspan : (start, stop) ∈ g.spans) :
    FailsOnly g.RunsOff (g.blockBetween start stop) := by
  obtain ⟨hstart, hlt, hstop, hle⟩ := bounds_of_mem_spans hcode h hspan
  obtain ⟨label, hlabel⟩ := Option.isSome_iff_exists.mp
    ((isSome_label?_iff h).mpr ⟨hstart, Nat.lt_of_lt_of_le hlt hle⟩)
  have hlast : g.code[stop - 1]? = some g.code[stop - 1] := List.getElem?_eq_getElem (by omega)
  have hindex : g.code[stop - 1].index = stop - 1 := by
    have hcode' : Sequential 0 0 g.code := by rwa [code_of_build h]
    rw [hcode'.index_eq hlast, Nat.zero_add]
  -- there is no place behind the last block: only it can lack a successor
  have hsuccessors : FailsOnly g.RunsOff (g.successors g.code[stop - 1] stop) := by
    rw [successors_eq hcode h hlast]
    split
    · simp
    · next hends =>
      split
      · next heq =>
        rw [Result.failsOnly_error, hindex, RunsOff, ← heq]
        exact ⟨⟨_, hlast, by simpa using hends⟩, rfl⟩
      · simp
  -- a target is a bound inside the method, and so has a label
  have hexit {last i : Nat} {label : Label} (hlabel : g.label? i = some label) :
      FailsOnly g.RunsOff (g.exitLabel last i) := by
    rw [exitLabel, hlabel]
    exact Result.failsOnly_ok label
  rw [blockBetween, hlast]
  refine (Result.failsOnly_bind (hexit hlabel)).mpr fun _ _ => ?_
  refine (Result.failsOnly_bind hsuccessors).mpr fun successors hsuccessors => ?_
  refine (Result.failsOnly_bind (Result.failsOnly_mapM fun t ht => ?_)).mpr fun _ _ => by simp
  obtain ⟨label, hlabel⟩ := label?_of_successors hcode h hlast hstop hle hsuccessors ht
  exact hexit hlabel

/-- **A method is cut into blocks unless it runs off its end**, and the error then names its last
instruction. -/
theorem blocks_eq_error_iff {e : Error} : g.blocks = .error e ↔ g.RunsOff e := by
  have hfails : FailsOnly g.RunsOff g.blocks :=
    Result.failsOnly_mapM fun span hspan => failsOnly_blockBetween_of_mem_spans hcode h hspan
  refine ⟨hfails e, ?_⟩
  rintro ⟨hfalls, rfl⟩
  cases hbs : g.blocks with
  | error e => rw [(hfails e hbs).2]
  | ok bs =>
    -- the block with the last instruction would have to go on behind the end
    have htiles := tiles_blocks hcode h hbs
    have ⟨a, ha, _⟩ := hfalls
    obtain ⟨hlt, -⟩ := List.getElem?_eq_some_iff.mp ha
    obtain ⟨b, hb, hcontains⟩ := htiles.exists_contains (Nat.zero_le _) hlt
    have hbound := (htiles.bounds hb).2.2
    have hlast : b.last = g.code.length - 1 := by
      have := hcontains.2
      rw [Block.last]
      omega
    have hstop := stop_lt_length_of_fallsThrough hcode h hbs hb (hlast ▸ hfalls)
    have := htiles.last_add_one hb
    omega

end Built

/-- The last instruction of a method is the one that it may run off. -/
theorem fallsThrough_last_iff :
    g.FallsThrough (g.code.length - 1) ↔
      ∃ last, g.code.getLast? = some last ∧ last.operation.endsFlow = false := by
  rw [FallsThrough, List.getLast?_eq_getElem?]

/-! ### Loops -/

section Decoded

variable {bytes : List UInt8} (hdecode : decode bytes = .ok g.code)
  (hbuild : build g.code regions = .ok g)
include hdecode hbuild

/-- The exit of a loop is found, or there is none. -/
theorem failsOnly_findExit_isLoopFault (start last : Nat) :
    FailsOnly (·.isLoopFault = true) (g.findExit start last) := by
  cases hjumps : g.jumpsAt last with
  | false => simp [findExit, hjumps]
  | true =>
    rcases findExit_of_jumpsAt hdecode hbuild hjumps start with ⟨exit, hexit, -⟩ | herror
    · rw [hexit]
      exact Result.failsOnly_ok exit
    · rw [herror]
      exact Result.failsOnly_error.mpr rfl

/-- All branches that are checked are resolved, so the check fails at a branch into the condition
only. -/
theorem failsOnly_checkCondition_isLoopFault (start condition last : Nat) :
    FailsOnly (·.isLoopFault = true) (g.checkCondition start condition last) := by
  refine Result.failsOnly_forM fun a ha => ?_
  obtain ⟨_, t, -, -, -, ht⟩ := exists_requireTarget_of_mem hdecode hbuild ha
  simp only [ht]
  refine (Result.failsOnly_bind (Result.failsOnly_ok t)).mpr fun target _ => ?_
  split
  · exact Result.failsOnly_error.mpr rfl
  · exact Result.failsOnly_ok ()

/-- A loop that ends in a branch back fails for one of the three faults. Its form is always
found. -/
theorem failsOnly_findLoop_isLoopFault {starts : List Nat} {start last : Nat}
    (htarget : g.target? last = some start) (hle : start ≤ last) :
    FailsOnly (·.isLoopFault = true) (g.findLoop starts start last) := by
  have hcode : Sequential 0 0 g.code := sequential_of_decodeFrom hdecode
  obtain ⟨condition, kind, hform, -⟩ :=
    exists_findForm hdecode hbuild hle (target_mem_indices hcode hbuild htarget)
  have hexit := failsOnly_findExit_isLoopFault hdecode hbuild start last
  refine (Result.failsOnly_bind hexit).mpr fun exit _ => ?_
  rw [hform]
  refine (Result.failsOnly_bind (Result.failsOnly_ok _)).mpr ?_
  rintro _ ⟨⟩
  dsimp only
  split
  · exact Result.failsOnly_error.mpr rfl
  · refine (Result.failsOnly_bind ?_).mpr fun _ _ => Result.failsOnly_ok _
    exact failsOnly_checkCondition_isLoopFault hdecode hbuild start condition last

/-- **The search for loops** resolves the targets of branches again, and never fails for want of
one. The induction is on the index from which the search goes down. -/
theorem failsOnly_loops_isLoopFault : FailsOnly (·.isLoopFault = true) g.loops := by
  have hcode : Sequential 0 0 g.code := sequential_of_decodeFrom hdecode
  have hbelow (n resume : Nat) (starts : List Nat) :
      FailsOnly (·.isLoopFault = true) (g.findLoops n resume starts) := by
    induction n generalizing resume starts with
    | zero => exact Result.failsOnly_ok []
    | succ last ih =>
      rw [findLoops]
      split
      · exact ih resume starts
      · next a hsome =>
        obtain ⟨ha, hback⟩ := Option.filter_eq_some_iff.mp hsome
        rw [Bool.and_eq_true] at hback
        -- the branch has an edge, so that its target is resolved once more without an error
        obtain ⟨start, htarget, hle⟩ := (jumpsBack_iff hdecode hbuild ha).mp hback.1
        have hfound : FailsOnly (·.isLoopFault = true) (g.findLoop starts start last) :=
          failsOnly_findLoop_isLoopFault hdecode hbuild htarget hle
        rw [(requireTarget_eq_ok_iff hcode hbuild ha).mpr htarget]
        refine (Result.failsOnly_bind (Result.failsOnly_ok start)).mpr ?_
        rintro _ ⟨⟩
        refine (Result.failsOnly_bind hfound).mpr fun loop _ => ?_
        exact (Result.failsOnly_bind (ih _ _)).mpr fun rest _ => Result.failsOnly_ok _
  exact hbelow _ _ _

end Decoded

end Graph

end JvmSource
