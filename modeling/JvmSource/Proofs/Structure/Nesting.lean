import JvmSource.Proofs.Flow.Label
import JvmSource.Proofs.Structure.Visit

/-!
# The scopes of a finished text

At the end of a visit no scope is open, every labelled scope has been closed where its label stands,
no two scopes have the same name, and every jump is inside of the scope it names
(`Nesting.WellNested`).

Behind the last item there is no place left for a scope to close, so the stack is empty
(`Outline.Lawful.opened_eq_nil`). A labelled scope that has been open at any time of the visit is
among the closed ones then, since a visit only moves scopes from the one list to the other. It is
there once: the closed scopes are listed in the order of the places where they close, and no two of
them close at the same place.

The names of scopes are texts of labels. A labelled scope is named by the label of the block that it
ends before, and a loop by the label of its start in the form for loops, so the kind of a label
tells the two apart. Inside of one kind, labels with one number stand at one index
(`Outline.Lawful.eq_of_name`).
-/

namespace JvmSource

/-- A visit in two parts. -/
theorem Outline.visitFrom_append {o : Outline} {items xs ys : List Item} {k : Nat} {n : Nesting} :
    o.visitFrom items k (xs ++ ys) n =
      o.visitFrom items k xs n >>= o.visitFrom items (k + xs.length) ys := by
  induction xs generalizing k n with
  | nil => rfl
  | cons item xs ih =>
    rw [List.cons_append, visitFrom, visitFrom]
    rcases o.visit items k item (n.closeBefore k).opened with e | ⟨after, jump⟩
    · rfl
    · rw [List.length_cons, Nat.add_comm xs.length 1, ← Nat.add_assoc]
      exact ih

/-- A scope of the finished text: that of a label, or a loop. -/
def Nesting.IsScope (items : List Item) (n : Nesting) (s : Scope) : Prop :=
  s ∈ n.closed ∨ (s.IsLoop ∧ s.Fits items)

/-- A scope of the finished text is known at the end. -/
theorem Nesting.IsScope.known {items : List Item} {n : Nesting} {s : Scope}
    (hs : n.IsScope items s) : Known items (2 * items.length) [] n.closed s := by
  rcases hs with hs | ⟨hloop, hfits⟩
  · exact .inr (.inl hs)
  · obtain ⟨_, _, -, -, hopen⟩ := hfits.getElem?_of_opens hloop.opens_eq
    obtain ⟨hlt, -⟩ := List.getElem?_eq_some_iff.mp hopen
    exact .inr (.inr ⟨hloop, hfits, by rw [hloop.opens_eq]; omega⟩)

/-- The label that names a scope. That of a loop is found in the graph. -/
def Outline.scopeLabel (o : Outline) (s : Scope) : Result Label :=
  match s.kind with
  | .label label => .ok label
  | .loop _ loop => o.loopLabel loop

theorem Outline.loopLabel_eq_ok {o : Outline} {loop : Loop} {name : Label}
    (h : o.loopLabel loop = .ok name) :
    ∃ label, o.graph.label? loop.start = some label ∧ name = label.asLoop := by
  rw [loopLabel] at h
  split at h
  · next label hlabel =>
    cases h
    exact ⟨label, hlabel, rfl⟩
  · cases h

namespace Outline.Lawful

variable {o : Outline} {items : List Item} {n : Nesting} (ho : o.Lawful)
  (hitems : o.items = .ok items) (hnest : o.nest items = .ok n)
include ho hitems hnest

/-- A visit of all items does what it should. -/
theorem sound_of_nest : n.Sound o items items.length := by
  have hsound := ho.sound_of_visitFrom hitems (k := items.length) (n := n)
  rw [List.take_length] at hsound
  exact hsound hnest

/-- At the end no scope is open. -/
theorem opened_eq_nil : n.opened = [] := by
  refine List.eq_nil_iff_forall_not_mem.mpr ?_
  intro s hs
  obtain ⟨hfits, -, hcloses⟩ := (ho.sound_of_nest hitems hnest).nested.opened_spec s hs
  obtain ⟨x, hx⟩ : ∃ x, items[s.closeAt]? = some x := by
    rcases s with ⟨label | ⟨number, loop⟩, openAt, closeAt⟩
    · obtain ⟨-, number, b, hb, -⟩ := hfits
      exact ⟨_, hb⟩
    · exact ⟨_, hfits.2.2⟩
  obtain ⟨hlt, -⟩ := List.getElem?_eq_some_iff.mp hx
  rw [Scope.closes] at hcloses
  split at hcloses <;> omega

/-- At the end the scopes are nested, with none of them open. -/
theorem nested_of_nest : Nested items (2 * items.length) [] n.closed := by
  have hnested := (ho.sound_of_nest hitems hnest).nested
  rwa [ho.opened_eq_nil hitems hnest] at hnested

/-- A labelled scope that has been open is closed at the end. -/
theorem mem_closed_of_mem_opened {k : Nat} {m : Nesting}
    (hm : o.visitFrom items 0 (items.take k) ⟨[], [], []⟩ = .ok m) {s : Scope} (hs : s ∈ m.opened)
    (hlabel : s.IsLabel) : s ∈ n.closed := by
  -- the visit goes on from `m` to its end
  have hrest : o.visitFrom items (items.take k).length (items.drop k) m = .ok n := by
    rw [nest] at hnest
    nth_rewrite 2 [← List.take_append_drop k items] at hnest
    rw [visitFrom_append, hm, Nat.zero_add] at hnest
    exact hnest
  have hprefix : StandAt items (items.take k).length (items.drop k) := by
    have hall : StandAt items 0 (items.take k ++ items.drop k) := by
      rw [List.take_append_drop]
      exact .all
    rw [← Nat.zero_add (items.take k).length]
    exact hall.append.2
  have hkept := visitFrom_induction ho (motive := fun _ n => n.HasLabel s)
    (fun _ hn hvisit => (Nesting.hasLabel_closeBefore.mpr hn).imp_left
      (hvisit.mem_of_isLabel hlabel)) hprefix hrest (.inl hs)
  rcases hkept with hopen | hclosed
  · simp [ho.opened_eq_nil hitems hnest] at hopen
  · exact hclosed

/-- A labelled scope is known by its label, which is not that of a loop. -/
private theorem eq_of_label {a b : Scope} (ha : a ∈ n.closed) (hb : b ∈ n.closed)
    {label : Label} (hal : a.kind = .label label) (hbl : b.kind = .label label) : a = b := by
  have hnested := ho.nested_of_nest hitems hnest
  obtain ⟨hafits, halabel, -⟩ := hnested.closed_spec a ha
  obtain ⟨hbfits, hblabel, -⟩ := hnested.closed_spec b hb
  obtain ⟨m, c, hc, hclabel⟩ := hafits.exists_block hal
  obtain ⟨m', d, hd, hdlabel⟩ := hbfits.exists_block hbl
  -- blocks with the same label start at the same index
  have hstart : c.start = d.start :=
    ho.eq_of_label_id (ho.label_start (ho.mem_blocks_of_item hitems hc))
      (ho.label_start (ho.mem_blocks_of_item hitems hd)) (by rw [← hclabel, ← hdlabel])
  have hclose := ho.position_eq_of_start hitems hc hd hstart
  by_contra hne
  have hsymm : Std.Symm fun a b : Scope => a.closes ≠ b.closes := ⟨fun _ _ => Ne.symm⟩
  have hpairwise := hnested.increasing.imp fun {a b} hlt => Nat.ne_of_lt hlt
  refine hpairwise.forall ha hb hne ?_
  rw [halabel.closes_eq, hblabel.closes_eq, hclose]

/-- Whether a scope is a loop shows in its name. -/
private theorem isLoop_of_kind {s : Scope} (hs : n.IsScope items s) {name : Label}
    (hname : o.scopeLabel s = .ok name) : s.IsLoop ↔ name.kind = .loop := by
  rcases hs with hs | ⟨hloop, hfits⟩
  · obtain ⟨hfits, ⟨label, hkind⟩, -⟩ := (ho.nested_of_nest hitems hnest).closed_spec s hs
    obtain ⟨m, c, hc, rfl⟩ := hfits.exists_block hkind
    have hne := ho.label_kind_ne (ho.label_start (ho.mem_blocks_of_item hitems hc))
    rw [scopeLabel, hkind] at hname
    cases hname
    constructor
    · rintro ⟨number, loop, hk⟩
      cases hkind.symm.trans hk
    · intro hk
      exact absurd hk hne
  · obtain ⟨number, loop, hkind⟩ := hloop
    rw [scopeLabel, hkind] at hname
    obtain ⟨label, -, rfl⟩ := loopLabel_eq_ok hname
    exact ⟨fun _ => rfl, fun _ => ⟨number, loop, hkind⟩⟩

omit hnest in
/-- A loop is known by its name. -/
private theorem eq_of_loopLabel {a b : Scope} (ha : a.Fits items) (hb : b.Fits items)
    (haloop : a.IsLoop) (hbloop : b.IsLoop) {name : Label} (hla : o.scopeLabel a = .ok name)
    (hlb : o.scopeLabel b = .ok name) : a = b := by
  obtain ⟨m, l, hak, -, haopen⟩ := ha.getElem?_of_opens haloop.opens_eq
  obtain ⟨m', l', hbk, -, hbopen⟩ := hb.getElem?_of_opens hbloop.opens_eq
  rw [scopeLabel, hak] at hla
  rw [scopeLabel, hbk] at hlb
  obtain ⟨x, hx, rfl⟩ := loopLabel_eq_ok hla
  obtain ⟨y, hy, hxy⟩ := loopLabel_eq_ok hlb
  have hid : x.asLoop.id = y.asLoop.id := by rw [hxy]
  have hl := mem_numberedLoops.mpr
    ((ho.mem_loopOpen_iff hitems).mp (List.mem_of_getElem? haopen))
  have hl' := mem_numberedLoops.mpr
    ((ho.mem_loopOpen_iff hitems).mp (List.mem_of_getElem? hbopen))
  have heq := Emits.eq_of_start_eq ho (List.Sublist.refl _) hl hl' (ho.eq_of_label_id hx hy hid)
  obtain ⟨rfl, rfl⟩ := Prod.mk.inj heq
  exact ha.eq_of_openAt ho hitems hb haloop hbloop (ho.position_unique hitems haopen hbopen)

/-- **No two scopes have the same name.** -/
theorem eq_of_name {a b : Scope} (ha : n.IsScope items a) (hb : n.IsScope items b)
    {la lb : Label} (hla : o.scopeLabel a = .ok la) (hlb : o.scopeLabel b = .ok lb)
    (htext : la.text = lb.text) : a = b := by
  obtain rfl := Label.text_injective htext
  have hnested := ho.nested_of_nest hitems hnest
  have hafits := hnested.fits_of_known ha.known
  have hbfits := hnested.fits_of_known hb.known
  have hiff : a.IsLoop ↔ b.IsLoop :=
    (ho.isLoop_of_kind hitems hnest ha hla).trans (ho.isLoop_of_kind hitems hnest hb hlb).symm
  by_cases hloop : a.IsLoop
  · exact ho.eq_of_loopLabel hitems hafits hbfits hloop (hiff.mp hloop) hla hlb
  · have haclosed : a ∈ n.closed := ha.resolve_right fun h => hloop h.1
    have hbclosed : b ∈ n.closed := hb.resolve_right fun h => hloop (hiff.mpr h.1)
    obtain ⟨label, hak⟩ := a.isLabel_or_isLoop.resolve_right hloop
    obtain ⟨label', hbk⟩ := b.isLabel_or_isLoop.resolve_right (hloop ∘ hiff.mpr)
    rw [scopeLabel, hak] at hla
    rw [scopeLabel, hbk] at hlb
    cases hla
    cases hlb
    exact ho.eq_of_label hitems hnest haclosed hbclosed hak hbk

end Outline.Lawful

/-- The scopes of a finished text. -/
structure Nesting.WellNested (o : Outline) (items : List Item) (n : Nesting) : Prop where
  opened_eq_nil : n.opened = []
  /-- A labelled scope that was open at any time of the visit has been closed once. -/
  count_closed : ∀ k m, o.visitFrom items 0 (items.take k) ⟨[], [], []⟩ = .ok m →
    ∀ s ∈ m.opened, s.IsLabel → n.closed.count s = 1
  /-- A labelled scope ends before the block that has its label. -/
  closed_spec : ∀ s ∈ n.closed, s.IsLabel ∧ s.Fits items
  apartOrNested : ∀ a b, n.IsScope items a → n.IsScope items b → a.ApartOrNested b
  eq_of_name : ∀ a b, n.IsScope items a → n.IsScope items b → ∀ la lb, o.scopeLabel a = .ok la →
    o.scopeLabel b = .ok lb → la.text = lb.text → a = b
  /-- A `break` and a `continue` stand in the scope they name. -/
  explains : ∀ k number b, items[k]? = some (.block number b) →
    ∃ jump, n.jumps[k]? = some jump ∧ o.Explains items (· ∈ n.closed) k b jump
  /-- The exit of a loop stands in that loop. -/
  exit_spec : ∀ k number loop, items[k]? = some (.loopExit number loop) →
    ∃ s, n.IsScope items s ∧ s.kind = .loop number loop ∧ s.Covers k

/-- The scopes of a text are well nested if the visit comes to its end. -/
theorem Outline.Lawful.wellNested {o : Outline} {items : List Item} {n : Nesting} (ho : o.Lawful)
    (hitems : o.items = .ok items) (hnest : o.nest items = .ok n) : n.WellNested o items := by
  have hsound := ho.sound_of_nest hitems hnest
  have hnested := ho.nested_of_nest hitems hnest
  -- the scopes end one after the other, so none is closed twice
  have hnodup : n.closed.Nodup := by
    refine hnested.increasing.imp ?_
    intro a b hlt heq
    rw [heq] at hlt
    exact Nat.lt_irrefl _ hlt
  refine
    { opened_eq_nil := ho.opened_eq_nil hitems hnest
      count_closed := ?_
      closed_spec := fun s hs => ⟨(hnested.closed_spec s hs).2.1, (hnested.closed_spec s hs).1⟩
      apartOrNested := fun a b ha hb => hnested.apartOrNested a b ha.known hb.known
      eq_of_name := fun a b ha hb la lb hla hlb => ho.eq_of_name hitems hnest ha hb hla hlb
      explains := ?_
      exit_spec := ?_ }
  · intro k m hm s hs hlabel
    rw [hnodup.count, if_pos (ho.mem_closed_of_mem_opened hitems hnest hm hs hlabel)]
  · intro k number b hk
    obtain ⟨hlt, -⟩ := List.getElem?_eq_some_iff.mp hk
    rw [← hsound.length_jumps] at hlt
    have hjump := List.getElem?_eq_getElem hlt
    refine ⟨_, hjump, (hsound.explains hjump hk).imp ?_⟩
    intro s _ hs
    -- at the end no scope is open, so the one that the jump names has been closed
    exact hs.resolve_left (by simp [ho.opened_eq_nil hitems hnest])
  · intro k number loop hk
    have hmem := (ho.mem_items_iff hitems).mp (List.mem_of_getElem? hk)
    obtain ⟨p, hp, -, -, -, hexit⟩ := ho.exists_positions hitems (mem_numberedLoops.mp hmem.1)
    obtain ⟨q, hq, hlt, hle⟩ := hexit hmem.2.2.2
    obtain rfl := ho.position_unique hitems hq hk
    refine ⟨_, .inr ⟨⟨number, loop, rfl⟩, ho.fits_loop hitems hp⟩, rfl, ?_, ?_⟩
    · show 2 * p + 1 ≤ 2 * q + 1
      omega
    · show 2 * q + 1 ≤ 2 * closeOf items number + 1
      omega

end JvmSource
