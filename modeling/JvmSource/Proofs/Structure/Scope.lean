import Mathlib.Data.List.TakeWhile
import JvmSource.Proofs.Structure.Brackets

/-!
# The scopes of a method

The visit of the items keeps a stack of open scopes. A text has two places for each item: the place
`2 * k` before item `k`, where labelled scopes open and close, and the place `2 * k + 1` of the item
itself, where a loop opens or closes. With these places a labelled scope and a loop can be compared
although they open and close differently.

In these places the stack is ascending in where its scopes close and descending in where they open,
and every scope known so far is apart from or nested in every other (`Nested`). Known are the scopes
that are open, those that have been closed, and all loops that have been opened. The invariant is
kept by what a visit does to the stack:

* closing scopes: those that end here are taken from the stack (`Nested.advance`);
* opening a scope: it is put between the scopes that end before it and those that end behind it, if
  it cuts into no scope that has been closed (`Nested.insert`);
* opening the scope of a label (`Nested.openLabel`): it opens at the item of its jump, or together
  with the outermost of the scopes that end before it. That is far enough to the front for all of
  these to lie inside of it, and no further than the scopes around it allow.

Where the outermost of those scopes is a loop, the labelled scope opens before the item of that
loop. A scope that has been closed may have ended there, but cannot reach further.
-/

namespace JvmSource

/-! ### The places of items -/

/-- Whether some items stand among all items from position `p` on. -/
def StandAt (items : List Item) (p : Nat) (part : List Item) : Prop :=
  part <+: items.drop p

namespace StandAt

variable {items xs ys : List Item} {p : Nat}

/-- The items are a part of themselves. -/
theorem all : StandAt items 0 items :=
  List.prefix_refl items

/-- The parts of a part stand one behind the other. -/
theorem append (h : StandAt items p (xs ++ ys)) :
    StandAt items p xs ∧ StandAt items (p + xs.length) ys := by
  obtain ⟨rest, hrest⟩ := h
  refine ⟨⟨ys ++ rest, by rw [← hrest, List.append_assoc]⟩, rest, ?_⟩
  rw [← List.drop_drop, ← hrest, List.append_assoc, List.drop_left]

/-- The first item of a part, and where the others stand. -/
theorem cons {x : Item} (h : StandAt items p (x :: xs)) :
    items[p]? = some x ∧ StandAt items (p + 1) xs := by
  have hsplit : StandAt items p ([x] ++ xs) := h
  refine ⟨?_, hsplit.append.2⟩
  obtain ⟨rest, hrest⟩ := h
  rw [← List.head?_drop, ← hrest]
  rfl

/-- The positions of the parts of a loop. -/
theorem loop {number : Nat} {loop : Loop} {front exit back behind : List Item}
    (h : StandAt items p (.loopOpen number loop :: front ++ exit ++ back
      ++ .loopClose number loop :: behind)) :
    ∃ e q c, e = p + 1 + front.length ∧ q = e + exit.length ∧ c = q + back.length ∧
      p + (.loopOpen number loop :: front ++ exit ++ back
        ++ .loopClose number loop :: behind).length = c + 1 + behind.length ∧
      items[p]? = some (.loopOpen number loop) ∧ StandAt items (p + 1) front ∧
      StandAt items e exit ∧ StandAt items q back ∧ items[c]? = some (.loopClose number loop) ∧
      StandAt items (c + 1) behind := by
  obtain ⟨hinside, hclosing⟩ := h.append
  obtain ⟨hturn, hback⟩ := hinside.append
  obtain ⟨hopening, hexit⟩ := hturn.append
  obtain ⟨hopen, hfront⟩ := hopening.cons
  obtain ⟨hclose, hbehind⟩ := hclosing.cons
  refine ⟨_, _, _, ?_, ?_, ?_, ?_, hopen, hfront, hexit, hback, hclose, hbehind⟩ <;>
    simp only [List.length_append, List.length_cons] <;> omega

end StandAt

namespace Outline

/-- The item of a block that starts at an index. -/
theorem getElem?_of_itemAt? {items : List Item} {index q : Nat} (h : itemAt? items index = some q) :
    ∃ number b, items[q]? = some (.block number b) ∧ b.start = index := by
  obtain ⟨x, hx, hstart⟩ := getElem?_of_lastPosition? h
  cases x with
  | block number b => exact ⟨number, b, hx, by simpa using hstart⟩
  | loopOpen | loopExit | loopClose => cases hstart

namespace Lawful

variable {o : Outline} {items : List Item} (ho : o.Lawful) (hitems : o.items = .ok items)
include ho hitems

/-- Every item has one position. -/
theorem position_unique {p q : Nat} {x : Item} (hp : items[p]? = some x) (hq : items[q]? = some x) :
    p = q := by
  obtain ⟨hlt, -⟩ := List.getElem?_eq_some_iff.mp hp
  exact (List.getElem?_inj hlt (ho.nodup_items hitems)).mp (hp.trans hq.symm)

/-- A block among the items is a block of the outline. -/
theorem getElem?_of_item {p number : Nat} {b : Block} (hp : items[p]? = some (.block number b)) :
    o.blocks[number]? = some b :=
  ((ho.mem_block_iff hitems).mp (List.mem_of_getElem? hp)).1

theorem mem_blocks_of_item {p number : Nat} {b : Block}
    (hp : items[p]? = some (.block number b)) : b ∈ o.blocks :=
  List.mem_of_getElem? (ho.getElem?_of_item hitems hp)

/-- The item of the block at an index has the label of that index. -/
theorem exists_item_of_label {index q : Nat} {label : Label} (hq : itemAt? items index = some q)
    (hlabel : o.graph.label? index = some label) :
    ∃ number b, items[q]? = some (.block number b) ∧ b.label = label := by
  obtain ⟨number, b, hb, rfl⟩ := getElem?_of_itemAt? hq
  have hstart := ho.label_start (ho.mem_blocks_of_item hitems hb)
  exact ⟨number, b, hb, Option.some.inj (hstart.symm.trans hlabel)⟩

/-- A block has one position among the items, and is known by its start. -/
theorem position_eq_of_start {p q m k : Nat} {b c : Block} (hp : items[p]? = some (.block m b))
    (hq : items[q]? = some (.block k c)) (h : b.start = c.start) : p = q := by
  have hb := ho.getElem?_of_item hitems hp
  have hc := ho.getElem?_of_item hitems hq
  obtain rfl : m = k := ho.tiles.position_unique hb hc
    (ho.tiles.contains_start (List.mem_of_getElem? hb))
    (h ▸ ho.tiles.contains_start (List.mem_of_getElem? hc))
  obtain rfl := Option.some.inj (hb.symm.trans hc)
  exact ho.position_unique hitems hp hq

/-- The closing of a loop is found where it stands. -/
theorem closeOf_eq {c number : Nat} {loop : Loop}
    (hc : items[c]? = some (.loopClose number loop)) : closeOf items number = c := by
  have hloop := (ho.mem_loopClose_iff hitems).mp (List.mem_of_getElem? hc)
  rw [closeOf, lastPosition?_eq_some hc (by simp)]
  · rfl
  · intro j y hy hclose
    cases y with
    | loopClose m other =>
      obtain rfl : m = number := by simpa using hclose
      have hother := (ho.mem_loopClose_iff hitems).mp (List.mem_of_getElem? hy)
      obtain rfl := Option.some.inj (hother.symm.trans hloop)
      exact ho.position_unique hitems hy hc
    | block | loopOpen | loopExit => cases hclose

/-- The items of a loop: it begins with the block at its head, and is left before it is closed. -/
theorem exists_positions {number : Nat} {loop : Loop} (hloop : o.loops[number]? = some loop) :
    ∃ p, items[p]? = some (.loopOpen number loop) ∧ p < closeOf items number ∧
      items[closeOf items number]? = some (.loopClose number loop) ∧
      (∃ n b, items[p + 1]? = some (.block n b) ∧ b.start = loop.head) ∧
      (o.graph.jumpsAt loop.last = false →
        ∃ k, items[k]? = some (.loopExit number loop) ∧ p < k ∧ k < closeOf items number) := by
  obtain ⟨rest, hemits⟩ := emits_of_items hitems
  obtain ⟨before, inside, after, hfills, heq⟩ :=
    hemits.enclosedIn ho (List.Sublist.refl _) (mem_numberedLoops.mpr hloop) (Nat.zero_le _)
      (ho.start_lt_length (List.mem_of_getElem? hloop))
  obtain ⟨n, b, inside, rfl, hhead⟩ := hfills.head
  have hlength : (before ++ .loopOpen number loop :: .block n b :: inside).length =
      before.length + inside.length + 2 := by simp [Nat.add_assoc]
  have hclose : items[before.length + inside.length + 2]? = some (.loopClose number loop) := by
    rw [heq, ← hlength, List.getElem?_append_right (Nat.le_refl _), Nat.sub_self]
    rfl
  rw [ho.closeOf_eq hitems hclose]
  refine ⟨before.length, by simp [heq], by omega, hclose, ⟨n, b, by simp [heq], hhead⟩, ?_⟩
  intro hjumps
  obtain ⟨i, hi⟩ := List.getElem?_of_mem (hfills.exit hjumps)
  obtain ⟨hlt, -⟩ := List.getElem?_eq_some_iff.mp hi
  rw [List.length_cons] at hlt
  refine ⟨before.length + (i + 1), ?_, by omega, by omega⟩
  rw [heq, List.getElem?_append_left (by rw [hlength]; omega),
    List.getElem?_append_right (by omega), Nat.add_sub_cancel_left, List.getElem?_cons_succ]
  exact hi

/-- Where a loop opens, it closes further on. -/
theorem lt_closeOf {p number : Nat} {loop : Loop}
    (hp : items[p]? = some (.loopOpen number loop)) :
    p < closeOf items number ∧ items[closeOf items number]? = some (.loopClose number loop) := by
  obtain ⟨q, hq, hlt, hclose, -⟩ :=
    ho.exists_positions hitems ((ho.mem_loopOpen_iff hitems).mp (List.mem_of_getElem? hp))
  obtain rfl := ho.position_unique hitems hq hp
  exact ⟨hlt, hclose⟩

/-- Where a loop closes, it has been opened before. -/
theorem exists_loopOpen {c number : Nat} {loop : Loop}
    (hc : items[c]? = some (.loopClose number loop)) :
    ∃ p, items[p]? = some (.loopOpen number loop) ∧ p < c := by
  obtain ⟨p, hp, hlt, -⟩ :=
    ho.exists_positions hitems ((ho.mem_loopClose_iff hitems).mp (List.mem_of_getElem? hc))
  exact ⟨p, hp, ho.closeOf_eq hitems hc ▸ hlt⟩

end Lawful

end Outline

/-! ### Scopes in the text -/

namespace Scope

/-- The place at which a scope opens: before its item if it is that of a label. -/
def opens (s : Scope) : Nat :=
  match s.kind with
  | .label _ => 2 * s.openAt
  | .loop .. => 2 * s.openAt + 1

/-- The place at which a scope closes: before its item if it is that of a label. -/
def closes (s : Scope) : Nat :=
  match s.kind with
  | .label _ => 2 * s.closeAt
  | .loop .. => 2 * s.closeAt + 1

/-- Whether an item stands in a scope. -/
def Covers (s : Scope) (k : Nat) : Prop :=
  s.opens ≤ 2 * k + 1 ∧ 2 * k + 1 ≤ s.closes

/-- Two scopes that have no place in common, or one of which contains the other. -/
def ApartOrNested (a b : Scope) : Prop :=
  SpansApartOrNested a.opens a.closes b.opens b.closes

/-- Whether a scope is that of a label. -/
def IsLabel (s : Scope) : Prop :=
  ∃ label, s.kind = .label label

/-- Whether a scope is that of a loop. -/
def IsLoop (s : Scope) : Prop :=
  ∃ number loop, s.kind = .loop number loop

/-- A scope that stands where it should: a labelled scope ends before the block with its label, a
loop begins and ends with its own items. -/
def Fits (items : List Item) (s : Scope) : Prop :=
  s.openAt < s.closeAt ∧
    match s.kind with
    | .label label => ∃ number b, items[s.closeAt]? = some (.block number b) ∧ label = b.label
    | .loop number loop =>
      items[s.openAt]? = some (.loopOpen number loop) ∧
        items[s.closeAt]? = some (.loopClose number loop)

variable {items : List Item} {a b : Scope}

/-- A scope that stands where it should closes behind where it opens. -/
theorem Fits.opens_lt_closes (h : a.Fits items) : a.opens < a.closes := by
  obtain ⟨hlt, -⟩ := h
  rw [opens, closes]
  split <;> omega

/-- A labelled scope ends before the block with its label. -/
theorem Fits.exists_block (h : a.Fits items) {label : Label} (hkind : a.kind = .label label) :
    ∃ number b, items[a.closeAt]? = some (.block number b) ∧ label = b.label := by
  have hblock := h.2
  rwa [hkind] at hblock

/-- A scope that closes at item `k` is a loop whose last item that is. -/
theorem Fits.getElem?_of_closes (h : a.Fits items) {k : Nat} (hk : a.closes = 2 * k + 1) :
    ∃ number loop, a.kind = .loop number loop ∧ a.closeAt = k ∧
      items[k]? = some (.loopClose number loop) := by
  rcases a with ⟨label | ⟨number, loop⟩, openAt, closeAt⟩
  · have hk : 2 * closeAt = 2 * k + 1 := hk
    omega
  · have hk : 2 * closeAt + 1 = 2 * k + 1 := hk
    obtain rfl : closeAt = k := by omega
    exact ⟨number, loop, rfl, rfl, h.2.2⟩

/-- A scope that opens at item `k` is a loop whose first item that is. -/
theorem Fits.getElem?_of_opens (h : a.Fits items) {k : Nat} (hk : a.opens = 2 * k + 1) :
    ∃ number loop, a.kind = .loop number loop ∧ a.openAt = k ∧
      items[k]? = some (.loopOpen number loop) := by
  rcases a with ⟨label | ⟨number, loop⟩, openAt, closeAt⟩
  · have hk : 2 * openAt = 2 * k + 1 := hk
    omega
  · have hk : 2 * openAt + 1 = 2 * k + 1 := hk
    obtain rfl : openAt = k := by omega
    exact ⟨number, loop, rfl, rfl, h.2.1⟩

/-- The keys of scopes are in the order of the places where they close. -/
theorem Fits.key_lt_key_iff (ha : a.Fits items) (hb : b.Fits items) :
    a.key < b.key ↔ a.closes < b.closes := by
  rcases a with ⟨la | ⟨na, la⟩, pa, ca⟩ <;> rcases b with ⟨lb | ⟨nb, lb⟩, pb, cb⟩ <;>
    simp only [key, closes]
  · omega
  · -- a block is not the end of a loop
    have hne : ca ≠ cb := by
      rintro rfl
      obtain ⟨_, _, hblock, -⟩ := ha.2
      cases hblock.symm.trans hb.2.2
    omega
  · have hne : ca ≠ cb := by
      rintro rfl
      obtain ⟨_, _, hblock, -⟩ := hb.2
      cases hblock.symm.trans ha.2.2
    omega
  · omega

end Scope

/-! ### Nested scopes -/

/-- A scope that is open or has been closed, or a loop that has been opened. -/
def Known (items : List Item) (place : Nat) (opened closed : List Scope) (s : Scope) : Prop :=
  s ∈ opened ∨ s ∈ closed ∨ (s.IsLoop ∧ s.Fits items ∧ s.opens < place)

/-- The state of a visit that has come to a place: the open scopes, the innermost first, and the
labelled scopes that have been closed. -/
structure Nested (items : List Item) (place : Nat) (opened closed : List Scope) : Prop where
  opened_spec : ∀ s ∈ opened, s.Fits items ∧ s.opens < place ∧ place ≤ s.closes
  closed_spec : ∀ s ∈ closed, s.Fits items ∧ s.IsLabel ∧ s.closes < place
  /-- A loop around the place is open. -/
  mem_opened : ∀ s : Scope, s.IsLoop → s.Fits items → s.opens < place → place ≤ s.closes →
    s ∈ opened
  ascending : opened.Pairwise fun a b => a.closes < b.closes
  descending : opened.Pairwise fun a b => b.opens ≤ a.opens
  increasing : closed.Pairwise fun a b => a.closes < b.closes
  apartOrNested : ∀ a b, Known items place opened closed a → Known items place opened closed b →
    a.ApartOrNested b

namespace Nested

variable {items : List Item} {place : Nat} {opened closed : List Scope}

/-- Before the first item there are no scopes. -/
theorem init : Nested items 0 [] [] where
  opened_spec := by simp
  closed_spec := by simp
  mem_opened := by simp
  ascending := .nil
  descending := .nil
  increasing := .nil
  apartOrNested := by simp [Known]

/-- Every known scope stands where it should. -/
theorem fits_of_known (h : Nested items place opened closed) {s : Scope}
    (hs : Known items place opened closed s) : s.Fits items := by
  rcases hs with hs | hs | ⟨-, hs, -⟩
  · exact (h.opened_spec s hs).1
  · exact (h.closed_spec s hs).1
  · exact hs

/-- A known scope that is not open has been closed. -/
theorem mem_or_closes_lt (h : Nested items place opened closed) {s : Scope}
    (hs : Known items place opened closed s) : s ∈ opened ∨ s.closes < place := by
  rcases hs with hs | hs | ⟨hloop, hfits, hopens⟩
  · exact .inl hs
  · exact .inr (h.closed_spec s hs).2.2
  · rcases Nat.lt_or_ge s.closes place with hlt | hge
    · exact .inr hlt
    · exact .inl (h.mem_opened s hloop hfits hopens hge)

/-- **Closing scopes**: the next place is reached when the scopes that close here have been taken
from the stack. The labelled ones of them are added to those that have been closed. -/
theorem advance (ending rest added : List Scope) (h : Nested items place (ending ++ rest) closed)
    (hending : ∀ s ∈ ending, s.closes = place) (hrest : ∀ s ∈ rest, s.closes ≠ place)
    (hopens : ∀ s : Scope, s.IsLoop → s.Fits items → s.opens ≠ place)
    (hadded : ∀ s, s ∈ added ↔ s ∈ ending ∧ s.IsLabel)
    (hincreasing : added.Pairwise fun a b => a.closes < b.closes) :
    Nested items (place + 1) rest (closed ++ added) := by
  -- nothing becomes known: a scope that ends here was open, and no loop opens at this place
  have hknown : ∀ s, Known items (place + 1) rest (closed ++ added) s →
      Known items place (ending ++ rest) closed s := by
    rintro s (hs | hs | ⟨hloop, hfits, hlt⟩)
    · exact .inl (List.mem_append_right _ hs)
    · rcases List.mem_append.mp hs with hs | hs
      · exact .inr (.inl hs)
      · exact .inl (List.mem_append_left _ ((hadded s).mp hs).1)
    · have := hopens s hloop hfits
      exact .inr (.inr ⟨hloop, hfits, by omega⟩)
  refine
    { opened_spec := ?_
      closed_spec := ?_
      mem_opened := ?_
      ascending := h.ascending.sublist (List.sublist_append_right _ _)
      descending := h.descending.sublist (List.sublist_append_right _ _)
      increasing := ?_
      apartOrNested := fun a b ha hb => h.apartOrNested a b (hknown a ha) (hknown b hb) }
  · intro s hs
    obtain ⟨hfits, hlt, hle⟩ := h.opened_spec s (List.mem_append_right _ hs)
    have := hrest s hs
    exact ⟨hfits, by omega, by omega⟩
  · intro s hs
    rcases List.mem_append.mp hs with hs | hs
    · obtain ⟨hfits, hlabel, hlt⟩ := h.closed_spec s hs
      exact ⟨hfits, hlabel, by omega⟩
    · obtain ⟨hs, hlabel⟩ := (hadded s).mp hs
      have := hending s hs
      exact ⟨(h.opened_spec s (List.mem_append_left _ hs)).1, hlabel, by omega⟩
  · intro s hloop hfits hlt hle
    have := hopens s hloop hfits
    rcases List.mem_append.mp (h.mem_opened s hloop hfits (by omega) (by omega)) with hs | hs
    · have := hending s hs
      omega
    · exact hs
  · refine List.pairwise_append.mpr ⟨h.increasing, hincreasing, ?_⟩
    intro a ha b hb
    have hlt := (h.closed_spec a ha).2.2
    have heq := hending b ((hadded b).mp hb).1
    omega

/-- **Opening a scope**: one more scope may be put on the stack, between scopes that end before it
and scopes that end behind it, if it does not cut into a scope that has been closed. -/
theorem insert (inner outer : List Scope) {s : Scope} {place' : Nat}
    (h : Nested items place (inner ++ outer) closed) (hplace : place ≤ place')
    (hopened : ∀ a ∈ inner ++ outer, place' ≤ a.closes)
    (hloops : ∀ a : Scope, a.IsLoop → a.Fits items → a.opens < place' → a.opens < place ∨ a = s)
    (hfits : s.Fits items) (hopens : s.opens < place') (hcloses : place' ≤ s.closes)
    (hinner : ∀ a ∈ inner, a.closes < s.closes ∧ s.opens ≤ a.opens)
    (houter : ∀ b ∈ outer, s.closes < b.closes ∧ b.opens ≤ s.opens)
    (hfinished : ∀ f, Known items place (inner ++ outer) closed f → f.closes < place →
      f.closes ≤ s.opens ∨ s.opens ≤ f.opens) :
    Nested items place' (inner ++ s :: outer) closed := by
  have hmem : ∀ a, a ∈ inner ++ s :: outer ↔ a = s ∨ a ∈ inner ++ outer := by
    intro a
    simp only [List.mem_append, List.mem_cons]
    exact or_left_comm
  have hknown : ∀ a, Known items place' (inner ++ s :: outer) closed a →
      a = s ∨ Known items place (inner ++ outer) closed a := by
    rintro a (ha | ha | ⟨hloop, hfits, hlt⟩)
    · exact ((hmem a).mp ha).imp_right .inl
    · exact .inr (.inr (.inl ha))
    · rcases hloops a hloop hfits hlt with hlt | rfl
      · exact .inr (.inr (.inr ⟨hloop, hfits, hlt⟩))
      · exact .inl rfl
  -- the new scope and one that is known: on the stack, or closed before
  have hnew : ∀ a, Known items place (inner ++ outer) closed a → s.ApartOrNested a := by
    intro a ha
    rcases h.mem_or_closes_lt ha with hstack | hlt
    · rcases List.mem_append.mp hstack with hin | hout
      · exact .inr (.inr (.inl ⟨(hinner a hin).2, Nat.le_of_lt (hinner a hin).1⟩))
      · exact .inr (.inr (.inr ⟨(houter a hout).2, Nat.le_of_lt (houter a hout).1⟩))
    · rcases hfinished a ha hlt with hapart | hnested
      · exact .inr (.inl hapart)
      · exact .inr (.inr (.inl ⟨hnested, by omega⟩))
  obtain ⟨hasc_inner, hasc_outer, hasc⟩ := List.pairwise_append.mp h.ascending
  obtain ⟨hdesc_inner, hdesc_outer, hdesc⟩ := List.pairwise_append.mp h.descending
  refine
    { opened_spec := ?_
      closed_spec := ?_
      mem_opened := ?_
      ascending := ?_
      descending := ?_
      increasing := h.increasing
      apartOrNested := ?_ }
  · intro a ha
    rcases (hmem a).mp ha with rfl | ha
    · exact ⟨hfits, hopens, hcloses⟩
    · obtain ⟨hfits, hlt, -⟩ := h.opened_spec a ha
      exact ⟨hfits, by omega, hopened a ha⟩
  · intro a ha
    obtain ⟨hfits, hlabel, hlt⟩ := h.closed_spec a ha
    exact ⟨hfits, hlabel, by omega⟩
  · intro a hloop hfits hlt hle
    rcases hloops a hloop hfits hlt with hlt | rfl
    · exact (hmem a).mpr (.inr (h.mem_opened a hloop hfits hlt (by omega)))
    · exact (hmem a).mpr (.inl rfl)
  · refine List.pairwise_append.mpr ⟨hasc_inner,
      List.pairwise_cons.mpr ⟨fun b hb => (houter b hb).1, hasc_outer⟩, ?_⟩
    intro a ha b hb
    rcases List.mem_cons.mp hb with rfl | hb
    · exact (hinner a ha).1
    · exact hasc a ha b hb
  · refine List.pairwise_append.mpr ⟨hdesc_inner,
      List.pairwise_cons.mpr ⟨fun b hb => (houter b hb).2, hdesc_outer⟩, ?_⟩
    intro a ha b hb
    rcases List.mem_cons.mp hb with rfl | hb
    · exact (hinner a ha).2
    · exact hdesc a ha b hb
  · intro a b ha hb
    rcases hknown a ha with rfl | haold <;> rcases hknown b hb with rfl | hbold
    · exact .inr (.inr (.inl ⟨Nat.le_refl _, Nat.le_refl _⟩))
    · exact hnew b hbold
    · exact (hnew a haold).symm
    · exact h.apartOrNested a b haold hbold

end Nested

/-! ### The steps of a visit -/

/-- What is left of an ascending list behind the elements that satisfy `p` does not satisfy it, if
`p` is closed downwards there. -/
private theorem not_of_mem_dropWhile {r : Scope → Scope → Prop} {p : Scope → Bool}
    {scopes : List Scope} (h : scopes.Pairwise r)
    (hp : ∀ a ∈ scopes, ∀ b ∈ scopes, r a b → p b = true → p a = true) {s : Scope}
    (hs : s ∈ scopes.dropWhile p) : p s = false := by
  have hsublist := List.dropWhile_sublist p (l := scopes)
  have hhead := List.head?_dropWhile_not p scopes
  rcases hdrop : scopes.dropWhile p with _ | ⟨x, xs⟩
  · simp [hdrop] at hs
  · rw [hdrop] at hs hhead hsublist
    rcases List.mem_cons.mp hs with rfl | hs
    · exact hhead
    · have hx := (List.pairwise_cons.mp (h.sublist hsublist)).1 s hs
      have hxmem := hsublist.subset List.mem_cons_self
      have hsmem := hsublist.subset (List.mem_cons_of_mem x hs)
      exact Bool.eq_false_iff.mpr fun hps => Bool.eq_false_iff.mp hhead (hp x hxmem s hsmem hx hps)

namespace Scope

/-- A scope closes before an item exactly if it is a labelled one that ends there. -/
theorem closes_eq_iff {s : Scope} {k : Nat} : s.closes = 2 * k ↔ s.key = 2 * k + 1 := by
  rcases s with ⟨label | ⟨number, loop⟩, openAt, closeAt⟩ <;> simp only [closes, key] <;> omega

theorem isLabel_of_key {s : Scope} {k : Nat} (h : s.key = 2 * k + 1) :
    s.IsLabel ∧ s.closeAt = k := by
  rcases s with ⟨label | ⟨number, loop⟩, openAt, closeAt⟩
  · have h : 2 * closeAt + 1 = 2 * k + 1 := h
    have hk : closeAt = k := by omega
    exact ⟨⟨label, rfl⟩, hk⟩
  · have h : 2 * closeAt = 2 * k + 1 := h
    omega

/-- A loop opens at the place of an item. -/
theorem IsLoop.opens_eq {s : Scope} (h : s.IsLoop) : s.opens = 2 * s.openAt + 1 := by
  obtain ⟨number, loop, hkind⟩ := h
  rw [opens, hkind]

theorem IsLabel.opens_eq {s : Scope} (h : s.IsLabel) : s.opens = 2 * s.openAt := by
  obtain ⟨label, hkind⟩ := h
  rw [opens, hkind]

theorem IsLabel.closes_eq {s : Scope} (h : s.IsLabel) : s.closes = 2 * s.closeAt := by
  obtain ⟨label, hkind⟩ := h
  rw [closes, hkind]

/-- A scope is that of a label or that of a loop. -/
theorem isLabel_or_isLoop (s : Scope) : s.IsLabel ∨ s.IsLoop := by
  rcases hkind : s.kind with label | ⟨number, loop⟩
  · exact .inl ⟨label, hkind⟩
  · exact .inr ⟨number, loop, hkind⟩

end Scope

/-- The labelled scopes that end before an item are closed. -/
theorem Nested.closeBefore {items : List Item} {k : Nat} {n : Nesting}
    (h : Nested items (2 * k) n.opened n.closed) :
    Nested items (2 * k + 1) (n.closeBefore k).opened (n.closeBefore k).closed := by
  let ends (s : Scope) : Bool := s.key == 2 * k + 1
  have hends : ∀ {s : Scope}, ends s = true ↔ s.closes = 2 * k := fun {s} =>
    beq_iff_eq.trans Scope.closes_eq_iff.symm
  have htake : ∀ s ∈ n.opened.takeWhile ends, s.key = 2 * k + 1 := by
    intro s hs
    exact Scope.closes_eq_iff.mp (hends.mp (List.mem_takeWhile_imp hs))
  have hsplit : n.opened.takeWhile ends ++ n.opened.dropWhile ends = n.opened :=
    List.takeWhile_append_dropWhile
  rw [← hsplit] at h
  refine h.advance _ _ _ (fun s hs => Scope.closes_eq_iff.mpr (htake s hs))
    ?_ ?_ ?_ (h.ascending.sublist (List.sublist_append_left _ _))
  · -- nothing closes before this place, so the scopes that close here come first
    intro s hs hcloses
    rw [hsplit] at h
    have hnot := not_of_mem_dropWhile h.ascending (fun a ha b _ hab hb => ?_) hs
    · exact absurd (hends.mpr hcloses) (Bool.eq_false_iff.mp hnot)
    · have hle := (h.opened_spec a ha).2.2
      have heq := hends.mp hb
      omega
  · intro s hloop _
    rw [hloop.opens_eq]
    omega
  · intro s
    exact ⟨fun hs => ⟨hs, (Scope.isLabel_of_key (htake s hs)).1⟩, And.left⟩

/-- A label is open already, or its scope goes between those that end before it and the others. -/
theorem openLabel_cases {scopes : List Scope} (h : scopes.Pairwise fun a b => a.key < b.key)
    (label : Label) (k q : Nat) :
    (∃ s ∈ scopes, s.key = 2 * q + 1 ∧ openLabel scopes label k q = scopes) ∨
      ∃ inner outer, scopes = inner ++ outer ∧ (∀ a ∈ inner, a.key < 2 * q + 1) ∧
        (∀ b ∈ outer, 2 * q + 1 < b.key) ∧
        openLabel scopes label k q =
          inner ++ ⟨.label label, (inner.getLast?.map (·.openAt)).getD k, q⟩ :: outer := by
  let below (s : Scope) : Bool := decide (s.key < 2 * q + 1)
  have hbelow : ∀ {s}, below s = true ↔ s.key < 2 * q + 1 := decide_eq_true_iff
  have hsplit : scopes = scopes.takeWhile below ++ scopes.dropWhile below :=
    List.takeWhile_append_dropWhile.symm
  have hinner : ∀ a ∈ scopes.takeWhile below, a.key < 2 * q + 1 := by
    intro a ha
    exact hbelow.mp (List.mem_takeWhile_imp ha)
  have houter : ∀ b ∈ scopes.dropWhile below, 2 * q + 1 ≤ b.key := by
    intro b hb
    have hnot := not_of_mem_dropWhile h
      (fun x _ y _ hxy hy => hbelow.mpr (Nat.lt_trans hxy (hbelow.mp hy))) hb
    exact Nat.le_of_not_lt fun hlt => Bool.eq_false_iff.mp hnot (hbelow.mpr hlt)
  by_cases hopen : ((scopes.dropWhile below).head?.any (·.key == 2 * q + 1)) = true
  · obtain ⟨s, hs, hkey⟩ := (Option.any_eq_true _ _).mp hopen
    have hmem : s ∈ scopes := (List.dropWhile_sublist _).subset (List.mem_of_head? hs)
    exact .inl ⟨s, hmem, beq_iff_eq.mp hkey, if_pos hopen⟩
  · refine .inr ⟨_, _, hsplit, hinner, ?_, if_neg hopen⟩
    intro b hb
    -- the first scope that does not end before the label has another key, the others a larger one
    have hsorted := h.sublist (List.dropWhile_sublist below)
    rcases hdrop : scopes.dropWhile below with _ | ⟨x, xs⟩
    · simp [hdrop] at hb
    · rw [hdrop] at hb hsorted hopen houter
      have hx := houter x List.mem_cons_self
      have hne : x.key ≠ 2 * q + 1 := by simpa using hopen
      rcases List.mem_cons.mp hb with rfl | hb
      · omega
      · have hlt := (List.pairwise_cons.mp hsorted).1 b hb
        omega

/-- A scope that is open stays open. -/
theorem mem_openLabel {scopes : List Scope} {label : Label} {k q : Nat} {s : Scope}
    (hs : s ∈ scopes) : s ∈ openLabel scopes label k q := by
  rw [openLabel]
  dsimp only
  split
  · exact hs
  · rw [List.mem_append, List.mem_cons, or_left_comm, ← List.mem_append,
      List.takeWhile_append_dropWhile]
    exact .inr hs

namespace Scope

variable {items : List Item} {a w : Scope}

/-- A scope that closes before a loop opens closes before the item of that loop. -/
theorem Fits.closes_le_two_mul (ha : a.Fits items) (hw : w.Fits items)
    (h : a.closes ≤ w.opens) : a.closes ≤ 2 * w.openAt := by
  rcases w.isLabel_or_isLoop with hlabel | hloop
  · rwa [hlabel.opens_eq] at h
  · obtain ⟨_, _, -, -, hopen⟩ := hw.getElem?_of_opens hloop.opens_eq
    rw [hloop.opens_eq] at h
    rcases Nat.lt_or_ge (2 * w.openAt) a.closes with hlt | hge
    · obtain ⟨_, _, -, -, hclose⟩ := ha.getElem?_of_closes (k := w.openAt) (by omega)
      cases hclose.symm.trans hopen
    · exact hge

end Scope

section Lawful

variable {o : Outline} {items : List Item} (ho : o.Lawful) (hitems : o.items = .ok items)
include ho hitems

/-- A loop is known by where it opens. -/
theorem Scope.Fits.eq_of_openAt {a b : Scope} (ha : a.Fits items) (hb : b.Fits items)
    (haloop : a.IsLoop) (hbloop : b.IsLoop) (h : a.openAt = b.openAt) : a = b := by
  rcases a with ⟨akind, p, ca⟩
  rcases b with ⟨bkind, q, cb⟩
  obtain ⟨m, l, rfl : akind = _⟩ := haloop
  obtain ⟨m', l', rfl : bkind = _⟩ := hbloop
  obtain rfl : p = q := h
  obtain ⟨-, hopen, hclose⟩ := ha
  obtain ⟨-, hopen', hclose'⟩ := hb
  obtain ⟨rfl, rfl⟩ := Item.loopOpen.inj (Option.some.inj (hopen.symm.trans hopen'))
  obtain rfl : ca = cb := ho.position_unique hitems hclose hclose'
  rfl

/-- A scope around another one opens before the item at which that one opens. -/
theorem Scope.Fits.opens_le_two_mul {a w : Scope} (ha : a.Fits items) (hw : w.Fits items)
    (hcloses : w.closes < a.closes) (h : a.opens ≤ w.opens) : a.opens ≤ 2 * w.openAt := by
  rcases w.isLabel_or_isLoop with hlabel | hloop
  · rwa [hlabel.opens_eq] at h
  · rw [hloop.opens_eq] at h
    rcases a.isLabel_or_isLoop with halabel | haloop
    · rw [halabel.opens_eq] at h ⊢
      omega
    · rw [haloop.opens_eq] at h ⊢
      have hne : a.openAt ≠ w.openAt := by
        intro heq
        rw [ha.eq_of_openAt ho hitems hw haloop hloop heq] at hcloses
        exact Nat.lt_irrefl _ hcloses
      omega

/-- A labelled scope may be put between the scopes that end before it and the others if it opens at
the item of its jump, or together with the outermost of the scopes that end before it. -/
theorem Nested.insertLabel {k : Nat} {inner outer closed : List Scope} {s : Scope}
    (h : Nested items (2 * k + 1) (inner ++ outer) closed) (hfits : s.Fits items)
    (hlabel : s.IsLabel) (hk : k < s.closeAt) (hinner : ∀ a ∈ inner, a.closes < s.closes)
    (houter : ∀ b ∈ outer, s.closes < b.closes)
    (hopenAt : (inner = [] ∧ s.openAt = k) ∨
      ∃ w ∈ inner, s.openAt = w.openAt ∧ ∀ a ∈ inner, w.opens ≤ a.opens) :
    Nested items (2 * k + 1) (inner ++ s :: outer) closed := by
  have hopens := hlabel.opens_eq
  have hcloses := hlabel.closes_eq
  have hdesc := (List.pairwise_append.mp h.descending).2.2
  have hloops : ∀ a : Scope, a.IsLoop → a.Fits items → a.opens < 2 * k + 1 →
      a.opens < 2 * k + 1 ∨ a = s := fun _ _ _ => .inl
  have hopened : ∀ a ∈ inner ++ outer, 2 * k + 1 ≤ a.closes := by
    intro a ha
    exact (h.opened_spec a ha).2.2
  -- no open scope ends before the new one, or it opens together with the outermost of those that do
  rcases hopenAt with ⟨rfl, hopenAt⟩ | ⟨w, hw, hopenAt, hleast⟩
  · refine h.insert [] outer (Nat.le_refl _) hopened hloops hfits (by omega) (by omega) (by simp)
      (fun b hb => ⟨houter b hb, ?_⟩) (fun f _ hlt => .inl (by omega))
    have hlt := (h.opened_spec b hb).2.1
    omega
  · obtain ⟨hwfits, hwopens, hwcloses⟩ := h.opened_spec w (List.mem_append_left _ hw)
    have hle : s.opens ≤ w.opens := by
      rw [hopens, hopenAt, Scope.opens]
      split <;> omega
    refine h.insert inner outer (Nat.le_refl _) hopened hloops hfits (by omega) (by omega)
      (fun a ha => ⟨hinner a ha, Nat.le_trans hle (hleast a ha)⟩)
      (fun b hb => ⟨houter b hb, ?_⟩) ?_
    · -- the scopes outside enclose the outermost one inside, so they open before it
      have hbfits := (h.opened_spec b (List.mem_append_right _ hb)).1
      have hlt := Nat.lt_trans (hinner w hw) (houter b hb)
      rw [hopens, hopenAt]
      exact hbfits.opens_le_two_mul ho hitems hwfits hlt (hdesc w hw b hb)
    · -- a scope that has been closed lies before the outermost one or in it
      intro f hf hlt
      have hffits := h.fits_of_known hf
      have hforder := hffits.opens_lt_closes
      rw [hopens, hopenAt]
      rcases h.apartOrNested f w hf (.inl (List.mem_append_left _ hw)) with
        hap | hap | ⟨-, hap⟩ | ⟨hin, -⟩
      · exact .inl (hffits.closes_le_two_mul hwfits hap)
      · omega
      · omega
      · exact .inr (by omega)

omit ho hitems in
/-- A labelled scope that ends at a block is the scope of its label. -/
private theorem Nested.label_of_key {k q number : Nat} {b : Block} {opened closed : List Scope}
    (h : Nested items (2 * k + 1) opened closed) (hq : items[q]? = some (.block number b))
    {s : Scope} (hs : s ∈ opened) (hkey : s.key = 2 * q + 1) :
    s.kind = .label b.label ∧ s.openAt ≤ k ∧ s.closeAt = q := by
  obtain ⟨hlabel, rfl⟩ := Scope.isLabel_of_key hkey
  obtain ⟨hfits, hopens, -⟩ := h.opened_spec s hs
  rw [hlabel.opens_eq] at hopens
  obtain ⟨label, hkind⟩ := hlabel
  obtain ⟨m, c, hc, rfl⟩ := hfits.exists_block hkind
  obtain ⟨rfl, rfl⟩ := Item.block.inj (Option.some.inj (hc.symm.trans hq))
  exact ⟨hkind, by omega, rfl⟩

omit ho hitems in
/-- The last of some open scopes is the outermost one, and opens first. -/
private theorem getLast?_openAt {inner : List Scope}
    (h : inner.Pairwise fun a b => b.opens ≤ a.opens) (k : Nat) :
    (inner = [] ∧ (inner.getLast?.map (·.openAt)).getD k = k) ∨
      ∃ w ∈ inner, (inner.getLast?.map (·.openAt)).getD k = w.openAt ∧
        ∀ a ∈ inner, w.opens ≤ a.opens := by
  rcases hlast : inner.getLast? with _ | w
  · exact .inl ⟨List.getLast?_eq_none_iff.mp hlast, rfl⟩
  · obtain ⟨front, rfl⟩ := List.getLast?_eq_some_iff.mp hlast
    refine .inr ⟨w, by simp, rfl, ?_⟩
    intro a ha
    rcases List.mem_append.mp ha with ha | ha
    · exact (List.pairwise_append.mp h).2.2 a ha w (List.mem_singleton_self w)
    · rw [List.mem_singleton.mp ha]

/-- **The scope of a label** keeps the scopes nested, and the jump to the label is inside of it. -/
theorem Nested.openLabel {k q number : Nat} {b : Block} {opened closed : List Scope}
    (h : Nested items (2 * k + 1) opened closed) (hq : items[q]? = some (.block number b))
    (hk : k < q) :
    Nested items (2 * k + 1) (openLabel opened b.label k q) closed ∧
      ∃ s ∈ openLabel opened b.label k q,
        s.kind = .label b.label ∧ s.openAt ≤ k ∧ s.closeAt = q := by
  have hfits : ∀ {s}, s ∈ opened → s.Fits items := fun hs => (h.opened_spec _ hs).1
  have hsorted : opened.Pairwise fun a b => a.key < b.key :=
    h.ascending.imp_of_mem fun ha hb hlt => ((hfits ha).key_lt_key_iff (hfits hb)).mpr hlt
  rcases openLabel_cases hsorted b.label k q with
    ⟨s, hs, hkey, heq⟩ | ⟨inner, outer, rfl, hinner, houter, heq⟩
  · rw [heq]
    exact ⟨h, s, hs, h.label_of_key hq hs hkey⟩
  · rw [heq]
    have hopenAt := getLast?_openAt (List.pairwise_append.mp h.descending).1 k
    generalize (inner.getLast?.map (·.openAt)).getD k = openAt at hopenAt
    have hle : openAt ≤ k := by
      rcases hopenAt with ⟨-, rfl⟩ | ⟨w, hw, rfl, -⟩
      · exact Nat.le_refl _
      · have hwopens := (h.opened_spec w (List.mem_append_left _ hw)).2.1
        rw [Scope.opens] at hwopens
        split at hwopens <;> omega
    have hsfits : Scope.Fits items ⟨.label b.label, openAt, q⟩ :=
      ⟨Nat.lt_of_le_of_lt hle hk, number, b, hq, rfl⟩
    have hnested := h.insertLabel ho hitems hsfits ⟨b.label, rfl⟩ hk
      (fun a ha => ((hfits (List.mem_append_left _ ha)).key_lt_key_iff hsfits).mp (hinner a ha))
      (fun c hc => (hsfits.key_lt_key_iff (hfits (List.mem_append_right _ hc))).mp (houter c hc))
      hopenAt
    exact ⟨hnested, ⟨.label b.label, openAt, q⟩, by simp, rfl, hle, rfl⟩

end Lawful

end JvmSource
