import JvmSource.Proofs.Eval.Failure
import JvmSource.Proofs.Structure.Control
import JvmSource.Proofs.Structure.Items

/-!
# Failures of the structure

Writing the body of a method has one way to fail: a branch that is neither a `break` nor a
`continue`. The other errors on the way cannot come up.

* Putting the parts in order fails only at a loop that cannot be nested, and the error names the
  branch back of that loop.
* Every target has a label and starts a kept block, which has its place among the items
  (`Outline.Lawful.exists_itemAt?`), so a jump is refused only if it goes back, and to no head of a
  loop that it is in.
* The loops of open scopes are loops of the method, which have labels
  (`Outline.Lawful.failsOnly_visit`).
* The rows need the labels of loops only, so they are always found
  (`Outline.Lawful.exists_rowsFrom`).

So what fails is a branch of the graph, and the error names its two ends
(`Outline.Lawful.failsOnly_body_isUnstructured`). With the failures of the passes before, this says
that branches are resolved once and for all, although every pass resolves them again:
`resolved_targets_stay_resolved`.
-/

namespace JvmSource

open Result (FailsOnly)

namespace Outline

/-- The error is about a branch that has no form in the text. It names a branch of the graph. -/
def IsUnstructured (o : Outline) (e : Error) : Prop :=
  ∃ index target, e = .unstructuredBranch index target ∧ o.graph.target? index = some target

/-- A visit fails at one item, behind items that could be visited. -/
theorem exists_of_visitFrom_eq_error {o : Outline} {items rest : List Item} {k : Nat} {n : Nesting}
    {e : Error} (h : o.visitFrom items k rest n = .error e) :
    ∃ before item after m, rest = before ++ item :: after ∧
      o.visitFrom items k before n = .ok m ∧
      o.visit items (k + before.length) item (m.closeBefore (k + before.length)).opened =
        .error e := by
  induction rest generalizing k n with
  | nil => cases h
  | cons item rest ih =>
    rw [visitFrom] at h
    rcases Result.bind_eq_error.mp h with h | ⟨⟨opened, jump⟩, hvisit, h⟩
    · exact ⟨[], item, rest, n, rfl, rfl, h⟩
    · obtain ⟨before, item', after, m, rfl, hbefore, hitem⟩ := ih h
      refine ⟨item :: before, item', after, m, rfl, ?_, ?_⟩
      · rw [visitFrom]
        exact Result.bind_eq_ok.mpr ⟨(opened, jump), hvisit, hbefore⟩
      · rwa [List.length_cons, Nat.add_comm before.length, ← Nat.add_assoc]

namespace Lawful

variable {o : Outline} (ho : o.Lawful)
include ho

/-- The branch back of a loop is such a branch. -/
theorem isUnstructured_of_mem {loop : Loop} (hloop : loop ∈ o.loops) :
    o.IsUnstructured (.unstructuredBranch loop.last loop.start) :=
  ⟨loop.last, loop.start, rfl, (ho.lawful_loop hloop).target_last⟩

/-- Where a branch jumps to there is a label. -/
theorem exists_label_of_target {i t : Nat} (ht : o.graph.target? i = some t) :
    ∃ label, o.graph.label? t = some label := by
  obtain ⟨b, hb, rfl⟩ := ho.exists_start ht
  exact ⟨b.label, ho.label_start hb⟩

section Items

variable {items : List Item} (hitems : o.items = .ok items)
include hitems

/-- Where a branch jumps to stands an item. -/
theorem exists_itemAt? {i t : Nat} (ht : o.graph.target? i = some t) :
    ∃ q, itemAt? items t = some q := by
  obtain ⟨b, hb, rfl⟩ := ho.exists_start ht
  obtain ⟨number, hnumber⟩ := List.getElem?_of_mem hb
  have hitem : .block number b ∈ items :=
    (ho.mem_block_iff hitems).mpr ⟨hnumber, ho.keeps_of_target hnumber ht⟩
  obtain ⟨q, hq⟩ := List.getElem?_of_mem hitem
  exact exists_lastPosition? hq (beq_self_eq_true b.start)

/-- A loop whose opening, exit or closing is an item is a loop of the method. -/
theorem mem_loops_of_item {item : Item} (hitem : item ∈ items) {number : Nat} {loop : Loop}
    (hloop : item = .loopOpen number loop ∨ item = .loopExit number loop ∨
      item = .loopClose number loop) : loop ∈ o.loops := by
  have hbelongs := (ho.mem_items_iff hitems).mp hitem
  rcases hloop with rfl | rfl | rfl
  all_goals exact mem_loops_of_numbered hbelongs.1

/-! ### Scopes -/

/-- **A visit of an item** fails at a branch only, if the loops of the open scopes are loops of the
method. -/
theorem failsOnly_visit {k : Nat} {item : Item} {scopes : List Scope} (hitem : item ∈ items)
    (hscopes : ∀ s ∈ scopes, ∀ number loop, s.kind = .loop number loop → loop ∈ o.loops) :
    FailsOnly o.IsUnstructured (o.visit items k item scopes) := by
  cases item with
  | block number b =>
    rw [visit]
    cases hentry : o.isLoopEntry b.last with
    | true => simp [visitBlock, hentry]
    | false =>
      rw [ho.visitBlock_eq hentry]
      split
      · simp
      · next target htarget =>
        obtain ⟨label, hlabel⟩ := ho.exists_label_of_target htarget
        obtain ⟨q, hq⟩ := ho.exists_itemAt? hitems htarget
        have hjump :
            FailsOnly o.IsUnstructured (o.structuredJump items scopes k b.last target label) := by
          simp only [structuredJump, hq]
          split
          · simp
          · split
            · exact Result.failsOnly_error.mpr ⟨b.last, target, rfl, htarget⟩
            · next loop hfound =>
              -- the loop is that of an open scope, so it has a label
              obtain ⟨s, hs, number, hkind, -⟩ := exists_mem_of_loopWithHead? hfound
              obtain ⟨name, hname⟩ := ho.exists_loopLabel (hscopes s hs number loop hkind)
              simp [hname]
        simp [visitJump, hlabel, hjump]
  | loopOpen number loop =>
    have hloop := ho.mem_loops_of_item hitems hitem (.inl rfl)
    simp only [visit]
    split
    · exact Result.failsOnly_error.mpr (ho.isUnstructured_of_mem hloop)
    · simp
  | loopExit number loop => simp [visit]
  | loopClose number loop =>
    have hloop := ho.mem_loops_of_item hitems hitem (.inr (.inr rfl))
    have hunstructured : FailsOnly o.IsUnstructured
        (loop.unstructured : Result (List Scope × Option Jump)) :=
      Result.failsOnly_error.mpr (ho.isUnstructured_of_mem hloop)
    simp only [visit]
    split
    · split
      · simp
      · exact hunstructured
    · exact hunstructured

/-- **A visit of all items** fails at a branch only. Up to the item at fault the scopes are nested,
which says of which loops they are. -/
theorem failsOnly_nest_isUnstructured : FailsOnly o.IsUnstructured (o.nest items) := by
  intro e he
  obtain ⟨before, item, after, m, hsplit, hbefore, hvisit⟩ := exists_of_visitFrom_eq_error he
  have htake : items.take before.length = before := by rw [hsplit, List.take_left]
  have hsound := ho.sound_of_visitFrom hitems (htake ▸ hbefore)
  rw [htake, ← Nat.zero_add before.length] at hsound
  refine ho.failsOnly_visit hitems (by simp [hsplit]) ?_ e hvisit
  intro s hs number loop hkind
  obtain ⟨hfits, -⟩ := hsound.nested.closeBefore.opened_spec s hs
  have hopen : items[s.openAt]? = some (.loopOpen number loop) := by
    have := hfits.2
    rw [hkind] at this
    exact this.1
  exact ho.mem_loops_of_item hitems (List.mem_of_getElem? hopen) (.inl rfl)

/-! ### Rows -/

/-- The rows of the items are always found. -/
theorem exists_rowsFrom (rest : List Item) (hrest : ∀ item ∈ rest, item ∈ items)
    (options : Options) (lines : List (List (Option String))) (scopes : List Scope) (k : Nat) :
    ∃ rows, o.rowsFrom options lines scopes k rest = .ok rows := by
  induction rest generalizing k with
  | nil => exact ⟨[], rfl⟩
  | cons item rest ih =>
    obtain ⟨hitem, hrest⟩ := List.forall_mem_cons.mp hrest
    obtain ⟨behind, hbehind⟩ := ih hrest (k + 1)
    obtain ⟨own, hown⟩ : ∃ own, o.itemRows options lines item = .ok own := by
      cases item with
      | block number b => exact ⟨_, rfl⟩
      | loopClose number loop => exact ⟨_, rfl⟩
      | loopOpen number loop =>
        obtain ⟨name, hname⟩ :=
          ho.exists_loopLabel (ho.mem_loops_of_item hitems hitem (.inl rfl))
        exact ⟨_, by rw [itemRows, hname]; rfl⟩
      | loopExit number loop =>
        obtain ⟨name, hname⟩ :=
          ho.exists_loopLabel (ho.mem_loops_of_item hitems hitem (.inr (.inl rfl)))
        exact ⟨_, by rw [itemRows, hname]; rfl⟩
    rw [rowsFrom, hown, hbehind]
    exact ⟨_, rfl⟩

end Items

/-- Putting the parts in order fails at the branch back of a loop. -/
theorem failsOnly_items_isUnstructured : FailsOnly o.IsUnstructured o.items := by
  intro e he
  rcases Result.bind_eq_error.mp he with hemit | ⟨_, _, h⟩
  · obtain ⟨loop, hloop, heq⟩ := ho.exists_unstructured_of_emit (List.Sublist.refl _)
      ho.isBorder_zero (Nat.le_refl _) hemit
    cases heq
    exact ho.isUnstructured_of_mem hloop
  · cases h

/-- **The body of a method** fails at a branch that has no form in the text, and for no other
reason. -/
theorem failsOnly_body_isUnstructured (options : Options) (lines : List (List (Option String))) :
    FailsOnly o.IsUnstructured (o.body options lines) := by
  refine (Result.failsOnly_bind ?_).mpr fun rows _ => Result.failsOnly_ok _
  refine (Result.failsOnly_bind ho.failsOnly_items_isUnstructured).mpr fun items hitems => ?_
  refine (Result.failsOnly_bind (ho.failsOnly_nest_isUnstructured hitems)).mpr fun n _ => ?_
  obtain ⟨rows, hrows⟩ := ho.exists_rowsFrom hitems items (fun _ h => h) options
    (n.rewriteLines items lines) n.closed 0
  rw [hrows]
  exact Result.failsOnly_ok rows

end Lawful

end Outline

/-- **Branches that are resolved once stay resolved**, and the later passes have only their own
errors. For a decoded method with a graph: resolving a target again gives what the graph has, and
asking a branch for its target gives an instruction with a label. The method is cut into blocks
unless it runs off its end, and the error then names its last instruction. The search for loops
fails only at a loop that has no form in the text. Evaluating a block fails for no reason that has
to do with the flow. Each target has its place among the items, and the body fails only at a branch
that has no form in the text. All of these passes resolve the targets again for themselves. -/
theorem resolved_targets_stay_resolved {bytes : List UInt8} {regions : List Region} {g : Graph}
    (hdecode : decode bytes = .ok g.code) (hbuild : Graph.build g.code regions = .ok g) :
    (∀ i a, g.code[i]? = some a → resolveTarget g.code a = .ok (g.target? i)) ∧
      (∀ i t, g.target? i = some t → ∃ label, g.label? t = some label) ∧
      (∀ a ∈ g.code, a.operation.isBranch = true →
        ∃ t label, requireTarget g.code a = .ok t ∧ g.label? t = some label) ∧
      (∀ e, g.blocks = .error e ↔
        (∃ last, g.code.getLast? = some last ∧ last.operation.endsFlow = false) ∧
          e = .missingTerminator (g.code.length - 1)) ∧
      (∀ e, g.loops = .error e → e.isLoopFault = true) ∧
      ∀ bs, g.blocks = .ok bs →
        (∀ ctx : Context, ctx.graph = g → ∀ b ∈ bs, ∀ state e,
          (ctx.evaluate b state).2 = .error e → e.isFlow = false) ∧
        ∀ loops, g.loops = .ok loops →
          (∀ items, Outline.items ⟨g, bs, loops⟩ = .ok items → ∀ i t, g.target? i = some t →
            ∃ q, Outline.itemAt? items t = some q) ∧
          ∀ options lines e, Outline.body ⟨g, bs, loops⟩ options lines = .error e →
            ∃ index target, e = .unstructuredBranch index target ∧
              g.target? index = some target := by
  have hcode : Sequential 0 0 g.code := sequential_of_decodeFrom hdecode
  refine ⟨fun i a => Graph.resolveTarget_eq hcode hbuild,
    fun i t => Graph.exists_label?_of_target? hcode hbuild,
    Graph.labelled_of_build hdecode hbuild, ?_,
    Graph.failsOnly_loops_isLoopFault hdecode hbuild, ?_⟩
  · intro e
    rw [Graph.blocks_eq_error_iff hcode hbuild, Graph.RunsOff, Graph.fallsThrough_last_iff]
  · intro bs hbs
    constructor
    · rintro ctx rfl b - state
      exact Context.failsOnly_evaluate (Graph.labelled_of_build hdecode hbuild) b state
    · intro loops hloops
      have ho : Outline.Lawful ⟨g, bs, loops⟩ :=
        Outline.lawful_of_build hdecode hbuild hbs hloops
      exact ⟨fun items hitems i t => ho.exists_itemAt? hitems, ho.failsOnly_body_isUnstructured⟩

/-- A jump into the middle of a loop: the loop cannot be nested, and the error names its branch. -/
theorem resolved_targets_stay_resolved_of_jump_into_loop :
    ∃ (g : Graph) (bs : List Block) (loops : List Loop) (lines : List (List (Option String))),
      decode [0x1a, 0x99, 0, 6, 0x84, 0, 1, 0x84, 0, 1, 0x1a, 0x9a, 0xff, 0xf9, 0xb1] =
        .ok g.code ∧ Graph.build g.code [] = .ok g ∧ g.blocks = .ok bs ∧ g.loops = .ok loops ∧
      (bs.map fun b => b.stop - b.start) = lines.map List.length ∧
      Outline.body ⟨g, bs, loops⟩ {} lines = .error (.unstructuredBranch 5 2) ∧
      ∃ index target, Error.unstructuredBranch 5 2 = .unstructuredBranch index target ∧
        g.target? index = some target := by
  obtain ⟨lines, hok⟩ : ∃ lines, (do
      let code ← decode [0x1a, 0x99, 0, 6, 0x84, 0, 1, 0x84, 0, 1, 0x1a, 0x9a, 0xff, 0xf9, 0xb1]
      let g ← Graph.build code []
      let bs ← g.blocks
      let loops ← g.loops
      return (bs.map fun b : Block => b.stop - b.start, Outline.body ⟨g, bs, loops⟩ {} lines)) =
        .ok (lines.map List.length, .error (.unstructuredBranch 5 2)) := by
    refine ⟨[[none, some "if(arg0 == 0) \x7b goto L3; \x7d"], [some "arg0++;"],
      [some "arg0++;", none, some "if(arg0 != 0) \x7b goto L2; \x7d"], [some "return;"]], ?_⟩
    decide +kernel
  obtain ⟨code, hdecode, h⟩ := Result.bind_eq_ok.mp hok
  obtain ⟨g, hbuild, h⟩ := Result.bind_eq_ok.mp h
  obtain ⟨bs, hbs, h⟩ := Result.bind_eq_ok.mp h
  obtain ⟨loops, hloops, h⟩ := Result.bind_eq_ok.mp h
  obtain ⟨hshape, hbody⟩ := Prod.mk.inj (Result.pure_eq_ok.mp h)
  obtain rfl := Graph.code_of_build hbuild
  obtain ⟨-, -, -, -, -, hall⟩ := resolved_targets_stay_resolved hdecode hbuild
  exact ⟨g, bs, loops, lines, hdecode, hbuild, hbs, hloops, hshape, hbody,
    ((hall bs hbs).2 loops hloops).2 {} lines _ hbody⟩

end JvmSource
