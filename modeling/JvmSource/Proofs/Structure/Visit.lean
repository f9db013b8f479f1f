import JvmSource.Proofs.Structure.Scope

/-!
# The visit of the items

`Outline.visit` is opened once, into the relation `Visits`, with a constructor for each kind of item
and each form that a jump may take. The visit resolves the target of each block's last instruction
again; in a lawful outline that is the edge of the graph, so the relation speaks of edges
(`Outline.Lawful.visitBlock_eq`).

Each step keeps the scopes nested (`Nested.visit`) and writes a jump that is inside of the scope it
names (`Visits.explains`), and a whole visit keeps what its steps keep (`visitFrom_induction`). What
has been done when the visit has come to an item is `Nesting.Sound`: the scopes are nested, each
item has its jump, and each jump is explained by a labelled scope that has been opened, or by a
loop.

When the end of a loop is visited, the innermost scope is that loop (`Nested.exists_top`): it is
open, since the place lies inside of it, and whatever were further in would have to close before it,
so it would have been closed. So the error that the visit has for this case does not come up.
-/

namespace JvmSource

/-- What a visit of item `k` does to the open scopes, and what the jump of the item becomes. -/
inductive Visits (o : Outline) (items : List Item) (k : Nat) :
    Item → (before after : List Scope) → Option Jump → Prop
  | loopOpen {number : Nat} {loop : Loop} {scopes : List Scope}
      (htop : ∀ top, scopes.head? = some top → 2 * Outline.closeOf items number ≤ top.key) :
    Visits o items k (.loopOpen number loop) scopes
      (⟨.loop number loop, k, Outline.closeOf items number⟩ :: scopes) none
  | loopExit {number : Nat} {loop : Loop} {scopes : List Scope} :
    Visits o items k (.loopExit number loop) scopes scopes none
  | loopClose {number openAt closeAt : Nat} {loop own : Loop} {scopes : List Scope} :
    Visits o items k (.loopClose number loop) (⟨.loop number own, openAt, closeAt⟩ :: scopes)
      scopes none
  | entry {number : Nat} {b : Block} {scopes : List Scope}
      (hentry : o.isLoopEntry b.last = true) :
    Visits o items k (.block number b) scopes scopes (some .omitted)
  | straight {number : Nat} {b : Block} {scopes : List Scope}
      (hentry : o.isLoopEntry b.last = false) (htarget : o.graph.target? b.last = none) :
    Visits o items k (.block number b) scopes scopes none
  | forth {number target q : Nat} {b : Block} {label : Label} {scopes : List Scope}
      (hentry : o.isLoopEntry b.last = false) (htarget : o.graph.target? b.last = some target)
      (hlabel : o.graph.label? target = some label) (hq : Outline.itemAt? items target = some q)
      (hk : k < q) :
    Visits o items k (.block number b) scopes (openLabel scopes label k q) (some (.breakOut label))
  | back {number target : Nat} {b : Block} {label name : Label} {loop : Loop}
      {scopes : List Scope}
      (hentry : o.isLoopEntry b.last = false) (htarget : o.graph.target? b.last = some target)
      (hlabel : o.graph.label? target = some label)
      (hloop : scopes.findSome? (Scope.loopWithHead? target) = some loop)
      (hname : o.loopLabel loop = .ok name) :
    Visits o items k (.block number b) scopes scopes (some (.continueLoop label name))

namespace Outline

variable {o : Outline} {items : List Item} {k : Nat} {before after : List Scope}
  {jump : Option Jump}

/-- A block that does not enter a loop goes where its edge does. -/
theorem Lawful.visitBlock_eq (ho : o.Lawful) {b : Block} (hentry : o.isLoopEntry b.last = false) :
    o.visitBlock items k b before =
      match o.graph.target? b.last with
      | none => .ok (before, none)
      | some target => o.visitJump items before k b.last target := by
  rw [visitBlock, hentry, ho.resolve_eq]
  cases o.graph.target? b.last <;> rfl

/-- The visit of a block, by whether it enters a loop, where its edge goes to, and whether that lies
ahead. -/
private theorem visits_of_visitBlock (ho : o.Lawful) {number : Nat} {b : Block}
    (h : o.visitBlock items k b before = .ok (after, jump)) :
    Visits o items k (.block number b) before after jump := by
  cases hentry : o.isLoopEntry b.last with
  | true =>
    rw [visitBlock, hentry] at h
    cases h
    exact .entry hentry
  | false =>
    -- the cases that are left are those of `Visits`; in the others the visit fails
    rw [ho.visitBlock_eq hentry] at h
    split at h
    · next htarget =>
      cases h
      exact .straight hentry htarget
    · next target htarget =>
      rw [visitJump] at h
      split at h
      · cases h
      · next label hlabel =>
        obtain ⟨⟨scopes, written⟩, hjump, h⟩ := Result.bind_eq_ok.mp h
        cases h
        rw [structuredJump] at hjump
        split at hjump
        · cases hjump
        · next q hq =>
          split at hjump
          · next hk =>
            cases hjump
            exact .forth hentry htarget hlabel hq hk
          · split at hjump
            · cases hjump
            · next loop hloop =>
              obtain ⟨name, hname, h⟩ := Result.bind_eq_ok.mp hjump
              cases h
              exact .back hentry htarget hlabel hloop hname

/-- What `visit` gives is what the relation says. -/
theorem visits_of_visit (ho : o.Lawful) {item : Item}
    (h : o.visit items k item before = .ok (after, jump)) :
    Visits o items k item before after jump := by
  cases item with
  | block number b => exact visits_of_visitBlock ho h
  | loopOpen number loop =>
    rw [visit] at h
    split at h
    · cases h
    · next htop =>
      cases h
      -- the guard says that the scope on top does not end inside the loop
      refine .loopOpen ?_
      intro top hhead
      rw [hhead, Option.any_some, decide_eq_true_eq] at htop
      exact Nat.le_of_not_lt htop
  | loopExit number loop =>
    cases h
    exact .loopExit
  | loopClose number loop =>
    rw [visit.eq_def] at h
    dsimp only at h
    split at h
    · split at h
      · next heq =>
        cases h
        subst heq
        exact .loopClose
      · cases h
    · cases h

/-- **Induction over a visit**: what every step keeps holds at its end. -/
theorem visitFrom_induction (ho : o.Lawful) {motive : Nat → Nesting → Prop}
    (step : ∀ {k item n after jump}, items[k]? = some item → motive k n →
      Visits o items k item (n.closeBefore k).opened after jump →
      motive (k + 1) ⟨after, (n.closeBefore k).closed, n.jumps ++ [jump]⟩)
    {rest : List Item} {n m : Nesting} (hrest : StandAt items k rest)
    (h : o.visitFrom items k rest n = .ok m) (hn : motive k n) : motive (k + rest.length) m := by
  induction rest generalizing k n with
  | nil =>
    cases h
    exact hn
  | cons item rest ih =>
    rw [visitFrom] at h
    obtain ⟨⟨after, jump⟩, hvisit, h⟩ := Result.bind_eq_ok.mp h
    obtain ⟨hitem, hrest⟩ := hrest.cons
    have hnext := ih hrest h (step hitem hn (visits_of_visit ho hvisit))
    rwa [Nat.add_right_comm, Nat.add_assoc] at hnext

end Outline

/-! ### A step keeps the scopes nested -/

section Lawful

variable {o : Outline} {items : List Item} (ho : o.Lawful) (hitems : o.items = .ok items)
  {k : Nat} {opened closed : List Scope} (h : Nested items (2 * k + 1) opened closed)

include h in
/-- No scope opens or closes at a block or at the exit of a loop, so only the place moves on. -/
private theorem Nested.pass {item : Item} (hitem : items[k]? = some item)
    (hopen : ∀ number loop, item ≠ .loopOpen number loop)
    (hclose : ∀ number loop, item ≠ .loopClose number loop) :
    Nested items (2 * (k + 1)) opened closed := by
  have hnext := h.advance [] opened [] (by simp) ?_ ?_ (by simp) .nil
  · rwa [List.append_nil] at hnext
  · intro s hs hcloses
    obtain ⟨number, loop, -, -, hk⟩ := (h.opened_spec s hs).1.getElem?_of_closes hcloses
    exact hclose number loop (Option.some.inj (hitem.symm.trans hk))
  · intro s hloop hfits hopens
    obtain ⟨number, loop, -, -, hk⟩ := hfits.getElem?_of_opens hopens
    exact hopen number loop (Option.some.inj (hitem.symm.trans hk))

include ho hitems

/-- The scope of a loop. -/
theorem Outline.Lawful.fits_loop {number : Nat} {loop : Loop} {p : Nat}
    (hp : items[p]? = some (.loopOpen number loop)) :
    Scope.Fits items ⟨.loop number loop, p, Outline.closeOf items number⟩ := by
  obtain ⟨hlt, hclose⟩ := ho.lt_closeOf hitems hp
  exact ⟨hlt, hp, hclose⟩

include h

/-- **The innermost scope at the end of a loop is that loop.** -/
theorem Nested.exists_top {number : Nat} {loop : Loop}
    (hitem : items[k]? = some (.loopClose number loop)) :
    ∃ openAt outer, opened = ⟨.loop number loop, openAt, k⟩ :: outer := by
  obtain ⟨p, hp, hlt⟩ := ho.exists_loopOpen hitems hitem
  have hfits := ho.fits_loop hitems hp
  rw [ho.closeOf_eq hitems hitem] at hfits
  have hmem : (⟨.loop number loop, p, k⟩ : Scope) ∈ opened := by
    refine h.mem_opened _ ⟨number, loop, rfl⟩ hfits ?_ (Nat.le_refl _)
    show 2 * p + 1 < 2 * k + 1
    omega
  rcases opened with _ | ⟨top, outer⟩
  · simp at hmem
  · rcases List.mem_cons.mp hmem with rfl | hmem
    · exact ⟨p, outer, rfl⟩
    · have hlt := (List.pairwise_cons.mp h.ascending).1 _ hmem
      have hle := (h.opened_spec top List.mem_cons_self).2.2
      exact absurd hlt (Nat.not_lt.mpr hle)

/-- A loop ends before the scope in which it opens. -/
private theorem Nested.closes_lt_of_top {number : Nat} {loop : Loop}
    (hitem : items[k]? = some (.loopOpen number loop)) {top : Scope} (htop : top ∈ opened)
    (hkey : 2 * Outline.closeOf items number ≤ top.key) :
    2 * Outline.closeOf items number + 1 < top.closes := by
  have hfits := ho.fits_loop hitems hitem
  obtain ⟨htfits, hopens, -⟩ := h.opened_spec top htop
  refine (hfits.key_lt_key_iff htfits).mp (Nat.lt_of_le_of_ne hkey ?_)
  intro heq
  -- with the same key it would be the loop itself, which has not been opened before
  have hcloses : top.closes = 2 * Outline.closeOf items number + 1 := by
    rcases Nat.lt_trichotomy top.closes (2 * Outline.closeOf items number + 1) with hlt | heq | hgt
    · exact absurd ((htfits.key_lt_key_iff hfits).mpr hlt) (by rw [← heq]; exact Nat.lt_irrefl _)
    · exact heq
    · exact absurd ((hfits.key_lt_key_iff htfits).mpr hgt) (by rw [← heq]; exact Nat.lt_irrefl _)
  obtain ⟨m, l, hkind, hclose, hl⟩ := htfits.getElem?_of_closes hcloses
  obtain ⟨rfl, rfl⟩ := Item.loopClose.inj (Option.some.inj (hl.symm.trans hfits.2.2))
  have hown := htfits.2
  rw [hkind] at hown
  have hk := ho.position_unique hitems hown.1 hitem
  rw [Scope.IsLoop.opens_eq ⟨m, l, hkind⟩, hk] at hopens
  omega

/-- **Each step keeps the scopes nested.** -/
theorem Nested.visit {item : Item} {after : List Scope} {jump : Option Jump}
    (hitem : items[k]? = some item) (hvisit : Visits o items k item opened after jump) :
    Nested items (2 * (k + 1)) after closed := by
  cases hvisit with
  | @loopOpen number loop _ htop =>
    have hfits := ho.fits_loop hitems hitem
    have hlt := hfits.1
    -- the visit has compared the loop with the innermost scope only
    have houter : ∀ a ∈ opened, 2 * Outline.closeOf items number + 1 < a.closes := by
      intro a ha
      rcases opened with _ | ⟨top, outer⟩
      · simp at ha
      · have hfirst := h.closes_lt_of_top ho hitems hitem List.mem_cons_self (htop top rfl)
        rcases List.mem_cons.mp ha with rfl | ha
        · exact hfirst
        · exact Nat.lt_trans hfirst ((List.pairwise_cons.mp h.ascending).1 a ha)
    refine h.insert [] opened (Nat.le_succ _) ?_ ?_ hfits (Nat.lt_succ_self _) ?_ (by simp) ?_
      (fun f _ hlt => .inl (Nat.le_of_lt hlt))
    · intro a ha
      have := houter a ha
      dsimp only at hlt
      omega
    · intro a hloop hafits hlt
      have hcases : a.opens < 2 * k + 1 ∨ a.opens = 2 * k + 1 := by omega
      rcases hcases with hlt | heq
      · exact .inl hlt
      · obtain ⟨_, _, -, hopenAt, -⟩ := hafits.getElem?_of_opens heq
        exact .inr (hafits.eq_of_openAt ho hitems hfits hloop ⟨number, loop, rfl⟩ hopenAt)
    · show 2 * k + 2 ≤ 2 * Outline.closeOf items number + 1
      dsimp only at hlt
      omega
    · intro a ha
      exact ⟨houter a ha, Nat.le_of_lt (h.opened_spec a ha).2.1⟩
  | loopExit => exact h.pass hitem (by simp) (by simp)
  | @loopClose number openAt closeAt loop own =>
    obtain ⟨p, outer, heq⟩ := h.exists_top ho hitems hitem
    cases heq
    have hnext := h.advance [_] after [] ?_ ?_ ?_ ?_ .nil
    · rwa [List.append_nil] at hnext
    · intro s hs
      rw [List.mem_singleton.mp hs]
      rfl
    · intro s hs
      exact Nat.ne_of_gt ((List.pairwise_cons.mp h.ascending).1 s hs)
    · intro s hloop hfits hopens
      obtain ⟨_, _, -, -, hk⟩ := hfits.getElem?_of_opens hopens
      cases hitem.symm.trans hk
    · intro s
      constructor
      · simp
      · rintro ⟨hs, label, hlabel⟩
        rw [List.mem_singleton.mp hs] at hlabel
        cases hlabel
  | entry => exact h.pass hitem (by simp) (by simp)
  | straight => exact h.pass hitem (by simp) (by simp)
  | @forth number target q b label _ hentry htarget hlabel hq hk =>
    obtain ⟨m, c, hc, rfl⟩ := ho.exists_item_of_label hitems hq hlabel
    exact (h.openLabel ho hitems hc hk).1.pass hitem (by simp) (by simp)
  | back => exact h.pass hitem (by simp) (by simp)

end Lawful

/-! ### Jumps inside of the scopes they name -/

/-- What is written for the jump of the block `b` at item `k`, when `labels` are the labelled
scopes: nothing for a block without a branch; a jump into the loop behind it is left out; a `break`
stands in the scope of its label, which ends before the target; a `continue` stands in the loop it
names, whose head is the target. -/
def Outline.Explains (o : Outline) (items : List Item) (labels : Scope → Prop) (k : Nat)
    (b : Block) : Option Jump → Prop
  | none => o.isLoopEntry b.last = false ∧ o.graph.target? b.last = none
  | some .omitted => o.isLoopEntry b.last = true
  | some (.breakOut label) => o.isLoopEntry b.last = false ∧
    ∃ s, labels s ∧ s.kind = .label label ∧ s.Covers k ∧
      ∃ target, o.graph.target? b.last = some target ∧ itemAt? items target = some s.closeAt
  | some (.continueLoop label name) => o.isLoopEntry b.last = false ∧
    ∃ (s : Scope) (number : Nat) (loop : Loop), s.Fits items ∧ s.kind = .loop number loop ∧
      s.Covers k ∧
      o.graph.target? b.last = some loop.head ∧ o.graph.label? loop.head = some label ∧
      o.loopLabel loop = .ok name

/-- An explanation holds with more labelled scopes. -/
theorem Outline.Explains.imp {o : Outline} {items : List Item} {labels labels' : Scope → Prop}
    {k : Nat} {b : Block} {jump : Option Jump} (h : o.Explains items labels k b jump)
    (himp : ∀ s, s.IsLabel → labels s → labels' s) : o.Explains items labels' k b jump := by
  rcases jump with _ | (_ | label | ⟨target, name⟩)
  · exact h
  · exact h
  · obtain ⟨hentry, s, hs, hkind, hcovers, htarget⟩ := h
    exact ⟨hentry, s, himp s ⟨label, hkind⟩ hs, hkind, hcovers, htarget⟩
  · exact h

/-- The labelled scopes of a visit. -/
def Nesting.HasLabel (n : Nesting) (s : Scope) : Prop :=
  s ∈ n.opened ∨ s ∈ n.closed

/-- Closing labelled scopes does not change which there have been. -/
theorem Nesting.hasLabel_closeBefore {n : Nesting} {k : Nat} {s : Scope} :
    (n.closeBefore k).HasLabel s ↔ n.HasLabel s := by
  have hsplit : s ∈ n.opened ↔ s ∈ n.opened.takeWhile (·.key == 2 * k + 1) ∨
      s ∈ n.opened.dropWhile (·.key == 2 * k + 1) := by
    rw [← List.mem_append, List.takeWhile_append_dropWhile]
  rw [HasLabel, HasLabel, hsplit, closeBefore]
  simp only [List.mem_append]
  tauto

/-- A visit keeps the labelled scopes that are open. -/
theorem Visits.mem_of_isLabel {o : Outline} {items : List Item} {k : Nat} {item : Item}
    {before after : List Scope} {jump : Option Jump}
    (h : Visits o items k item before after jump) {s : Scope} (hlabel : s.IsLabel)
    (hs : s ∈ before) : s ∈ after := by
  cases h with
  | loopOpen => exact List.mem_cons_of_mem _ hs
  | loopClose =>
    rcases List.mem_cons.mp hs with rfl | hs
    · obtain ⟨label, hkind⟩ := hlabel
      cases hkind
    · exact hs
  | forth => exact mem_openLabel hs
  | loopExit | entry | straight | back => exact hs

/-- A loop of which a jump is a `continue` is one of the open scopes. -/
theorem exists_mem_of_loopWithHead? {scopes : List Scope} {target : Nat} {loop : Loop}
    (h : scopes.findSome? (Scope.loopWithHead? target) = some loop) :
    ∃ s ∈ scopes, ∃ number, s.kind = .loop number loop ∧ loop.head = target := by
  obtain ⟨s, hs, hfound⟩ := List.exists_of_findSome?_eq_some h
  refine ⟨s, hs, ?_⟩
  rw [Scope.loopWithHead?] at hfound
  split at hfound
  · next number found hkind =>
    split at hfound
    · next hhead =>
      cases hfound
      exact ⟨number, hkind, hhead⟩
    · cases hfound
  · cases hfound

/-- What has been done when a visit has come to item `k`. -/
structure Nesting.Sound (o : Outline) (items : List Item) (k : Nat) (n : Nesting) : Prop where
  nested : Nested items (2 * k) n.opened n.closed
  length_jumps : n.jumps.length = k
  explains : ∀ {j number : Nat} {b : Block} {jump : Option Jump}, n.jumps[j]? = some jump →
    items[j]? = some (.block number b) → o.Explains items n.HasLabel j b jump

section Lawful

variable {o : Outline} {items : List Item} (ho : o.Lawful) (hitems : o.items = .ok items)
include ho hitems

/-- What is written for a jump names a scope that the jump is in. -/
theorem Visits.explains {k number : Nat} {b : Block} {before after closed : List Scope}
    {jump : Option Jump} {labels : Scope → Prop}
    (h : Visits o items k (.block number b) before after jump)
    (hnested : Nested items (2 * k + 1) before closed) (hlabels : ∀ s ∈ after, labels s) :
    o.Explains items labels k b jump := by
  cases h with
  | entry hentry => exact hentry
  | straight hentry htarget => exact ⟨hentry, htarget⟩
  | @forth _ target q _ label _ hentry htarget hlabel hq hk =>
    obtain ⟨m, c, hc, rfl⟩ := ho.exists_item_of_label hitems hq hlabel
    obtain ⟨-, s, hs, hkind, hopenAt, rfl⟩ := hnested.openLabel ho hitems hc hk
    have hslabel : s.IsLabel := ⟨_, hkind⟩
    have hcovers : s.Covers k :=
      ⟨by rw [hslabel.opens_eq]; omega, by rw [hslabel.closes_eq]; omega⟩
    exact ⟨hentry, s, hlabels s hs, hkind, hcovers, target, htarget, hq⟩
  | back hentry htarget hlabel hloop hname =>
    obtain ⟨s, hs, m, hkind, rfl⟩ := exists_mem_of_loopWithHead? hloop
    obtain ⟨hfits, hopens, hcloses⟩ := hnested.opened_spec s hs
    exact ⟨hentry, s, m, _, hfits, hkind, ⟨Nat.le_of_lt hopens, hcloses⟩, htarget, hlabel, hname⟩

/-- **A step of the visit** does what it should if the steps before it did. -/
theorem Nesting.Sound.step {k : Nat} {item : Item} {n : Nesting} {after : List Scope}
    {jump : Option Jump} (hitem : items[k]? = some item) (h : n.Sound o items k)
    (hvisit : Visits o items k item (n.closeBefore k).opened after jump) :
    Nesting.Sound o items (k + 1) ⟨after, (n.closeBefore k).closed, n.jumps ++ [jump]⟩ := by
  have hnested := h.nested.closeBefore
  refine
    { nested := hnested.visit ho hitems hitem hvisit
      length_jumps := by simp [h.length_jumps]
      explains := fun {j number b written} hwritten hj => ?_ }
  rcases Nat.lt_or_ge j k with hlt | hge
  · -- an earlier jump: its scope is still open, or has been closed by now
    rw [List.getElem?_append_left (by rw [h.length_jumps]; exact hlt)] at hwritten
    refine (h.explains hwritten hj).imp ?_
    intro s hlabel hs
    exact (Nesting.hasLabel_closeBefore.mpr hs).imp_left (hvisit.mem_of_isLabel hlabel)
  · obtain ⟨hlt, -⟩ := List.getElem?_eq_some_iff.mp hwritten
    rw [List.length_append, h.length_jumps, List.length_singleton] at hlt
    obtain rfl : j = k := by omega
    obtain rfl := Option.some.inj (hitem.symm.trans hj)
    rw [← h.length_jumps, List.getElem?_append_right (Nat.le_refl _), Nat.sub_self] at hwritten
    obtain rfl := Option.some.inj hwritten
    exact hvisit.explains ho hitems hnested fun s hs => .inl hs

/-- **A visit of the first items** does what it should. -/
theorem Outline.Lawful.sound_of_visitFrom {k : Nat} {n : Nesting}
    (h : o.visitFrom items 0 (items.take k) ⟨[], [], []⟩ = .ok n) :
    n.Sound o items (items.take k).length := by
  have hinit : Nesting.Sound o items 0 ⟨[], [], []⟩ :=
    ⟨Nested.init, rfl, fun hjump _ => by simp at hjump⟩
  have hprefix : StandAt items 0 (items.take k) := List.take_prefix k items
  have hsound := visitFrom_induction ho (motive := fun k n => n.Sound o items k)
    (fun hitem hn hvisit => hn.step ho hitems hitem hvisit) hprefix h hinit
  rwa [Nat.zero_add] at hsound

end Lawful

end JvmSource
