import Mathlib.Data.List.Pairwise
import JvmSource.Proofs.Structure.Nesting

/-!
# The control flow of a text

The items of a method, read as a program. A `break` goes on right behind the scope it names, a
`continue` and the end of a loop start the loop again, and all else goes on with the next item
(`Passes`, `Lands`). These rules know the text only, with its scopes and their names, and nothing of
the graph. The block that is executed next is then the one that the flow graph says
(`structure_preserves_flow`).

The rules leave no choice, since names are those of one scope each: control at an item comes to one
block at most (`Reaches.unique`). So it is enough to find one.

A jump that is taken lands right before its target or at the opening of a loop with this head, by
what is known of its scope. For the flow behind a block the argument goes over the ranges that the
items are written for. A range hands on what it is given: if control behind the range goes where it
should, so does control behind each block of the range (`Emits.continues`). In the three parts of a
loop different items stand behind a range:

* behind the part from the head stands the exit of the loop, which leads behind the loop; without an
  exit the flow does not go on there;
* behind the part in front of the head stands the end of the loop, which leads back to the head;
* behind the loop stands what is behind the range of the loop.

Where a range begins with the opening of a loop, control comes to the head of the loop, so the flow
from a block to the start of a loop is what it should be only if the loop is entered at its top
(`Outline.Lawful.kind_eq_of_fallsThrough`). The jump that enters a `while` loop from above is left
out for the same reason.
-/

namespace JvmSource

/-- The position right behind a scope: that of the item it ends before, or the one behind its
loop. -/
def Scope.behind (s : Scope) : Nat :=
  match s.kind with
  | .label _ => s.closeAt
  | .loop .. => s.closeAt + 1

/-- A scope around item `k` that has the name of a label. -/
def Nesting.Names (o : Outline) (items : List Item) (n : Nesting) (k : Nat) (name : Label)
    (s : Scope) : Prop :=
  n.IsScope items s ∧ s.Covers k ∧ ∃ label, o.scopeLabel s = .ok label ∧ label.text = name.text

/-- Control at an item that is not a block passes to another item. -/
inductive Passes (o : Outline) (items : List Item) (n : Nesting) : Nat → Nat → Prop
  | loopOpen {p number : Nat} {loop : Loop} (hp : items[p]? = some (.loopOpen number loop)) :
    Passes o items n p (p + 1)
  | loopExit {p number : Nat} {loop : Loop} {name : Label} {s : Scope}
      (hp : items[p]? = some (.loopExit number loop)) (hname : o.loopLabel loop = .ok name)
      (hs : n.Names o items p name s) :
    Passes o items n p s.behind
  | loopClose {p r number : Nat} {loop : Loop} (hp : items[p]? = some (.loopClose number loop))
      (hr : items[r]? = some (.loopOpen number loop)) :
    Passes o items n p r

/-- The block at item `q` is the next one executed by control at item `p`. -/
inductive Reaches (o : Outline) (items : List Item) (n : Nesting) : Nat → Nat → Prop
  | here {p number : Nat} {b : Block} (hp : items[p]? = some (.block number b)) :
    Reaches o items n p p
  | pass {p r q : Nat} (hpass : Passes o items n p r) (hreaches : Reaches o items n r q) :
    Reaches o items n p q

/-- The position to which the jump of the block at item `k` leads as it is written. -/
inductive Lands (o : Outline) (items : List Item) (n : Nesting) (k : Nat) : Jump → Nat → Prop
  | omitted : Lands o items n k .omitted (k + 1)
  | breakOut {label : Label} {s : Scope} (hs : n.Names o items k label s) :
    Lands o items n k (.breakOut label) s.behind
  | continueLoop {target name : Label} {s : Scope} (hs : n.Names o items k name s)
      (hloop : s.IsLoop) :
    Lands o items n k (.continueLoop target name) s.openAt

/-- The block at item `q` is the next one executed when the jump of the block at item `k` is
taken. -/
def JumpsTo (o : Outline) (items : List Item) (n : Nesting) (k q : Nat) : Prop :=
  ∃ jump p, n.jumps[k]? = some (some jump) ∧ Lands o items n k jump p ∧ Reaches o items n p q

/-- Whether item `q` is the block that starts at an index. -/
def StartsAt (items : List Item) (q index : Nat) : Prop :=
  ∃ number b, items[q]? = some (.block number b) ∧ b.start = index

section Deterministic

variable {o : Outline} {items : List Item} {n : Nesting} (ho : o.Lawful)
  (hitems : o.items = .ok items) (hnest : o.nest items = .ok n)
include ho hitems hnest

/-- At most one scope around an item has a name. -/
theorem Nesting.Names.unique {k : Nat} {name : Label} {s t : Scope}
    (hs : n.Names o items k name s) (ht : n.Names o items k name t) : s = t := by
  obtain ⟨hsscope, -, la, hla, hlatext⟩ := hs
  obtain ⟨htscope, -, lb, hlb, hlbtext⟩ := ht
  exact ho.eq_of_name hitems hnest hsscope htscope hla hlb (hlatext.trans hlbtext.symm)

/-- An item that is not a block passes control to one other item at most. -/
theorem Passes.unique {p q r : Nat} (hq : Passes o items n p q) (hr : Passes o items n p r) :
    q = r := by
  cases hq with
  | loopOpen hp =>
    cases hr with
    | loopOpen => rfl
    | loopExit hp' => cases hp.symm.trans hp'
    | loopClose hp' => cases hp.symm.trans hp'
  | loopExit hp hname hs =>
    cases hr with
    | loopOpen hp' => cases hp.symm.trans hp'
    | loopExit hp' hname' hs' =>
      cases hp.symm.trans hp'
      cases hname.symm.trans hname'
      rw [hs.unique ho hitems hnest hs']
    | loopClose hp' => cases hp.symm.trans hp'
  | loopClose hp hopen =>
    cases hr with
    | loopOpen hp' => cases hp.symm.trans hp'
    | loopExit hp' => cases hp.symm.trans hp'
    | loopClose hp' hopen' =>
      cases hp.symm.trans hp'
      exact ho.position_unique hitems hopen hopen'

/-- **The next block is unique.** -/
theorem Reaches.unique {p q r : Nat} (hq : Reaches o items n p q) (hr : Reaches o items n p r) :
    q = r := by
  have hblock : ∀ {p r number b}, items[p]? = some (.block number b) → ¬ Passes o items n p r := by
    intro p r number b hp hpass
    cases hpass with
    | loopOpen hp' | loopExit hp' | loopClose hp' => cases hp.symm.trans hp'
  induction hq with
  | here hp =>
    cases hr with
    | here => rfl
    | pass hpass => exact absurd hpass (hblock hp)
  | pass hpass _ ih =>
    cases hr with
    | here hp => exact absurd hpass (hblock hp)
    | pass hpass' hreaches =>
      obtain rfl := hpass.unique ho hitems hnest hpass'
      exact ih hreaches

/-- A jump lands in one place at most. -/
theorem Lands.unique {k p q : Nat} {jump : Jump} (hp : Lands o items n k jump p)
    (hq : Lands o items n k jump q) : p = q := by
  cases hp with
  | omitted =>
    cases hq with
    | omitted => rfl
  | breakOut hs =>
    cases hq with
    | breakOut ht => rw [hs.unique ho hitems hnest ht]
  | continueLoop hs =>
    cases hq with
    | continueLoop ht => rw [hs.unique ho hitems hnest ht]

/-- A jump leads to one block at most. -/
theorem JumpsTo.unique {k q r : Nat} (hq : JumpsTo o items n k q) (hr : JumpsTo o items n k r) :
    q = r := by
  obtain ⟨jump, p, hjump, hlands, hreaches⟩ := hq
  obtain ⟨jump', p', hjump', hlands', hreaches'⟩ := hr
  cases hjump.symm.trans hjump'
  obtain rfl := hlands.unique ho hitems hnest hlands'
  exact hreaches.unique ho hitems hnest hreaches'

end Deterministic

/-! ### Ranges hand on control -/

/-- Control at item `p` next executes the block that starts at an index. -/
def ReachesStart (o : Outline) (items : List Item) (n : Nesting) (p index : Nat) : Prop :=
  ∃ q, Reaches o items n p q ∧ StartsAt items q index

/-- What an item passes control to, it reaches. -/
theorem ReachesStart.pass {o : Outline} {items : List Item} {n : Nesting} {p r index : Nat}
    (hpass : Passes o items n p r) (h : ReachesStart o items n r index) :
    ReachesStart o items n p index := by
  obtain ⟨q, hreaches, hstart⟩ := h
  exact ⟨q, .pass hpass hreaches, hstart⟩

/-- Control at item `p` goes on as it should behind a block that ends before `index`: to the block
that starts there, if the flow goes on, and to the condition of a `while` loop that starts there. -/
structure Continues (o : Outline) (items : List Item) (n : Nesting) (p index : Nat) : Prop where
  falls : ∀ b ∈ o.blocks, b.stop = index → o.graph.FallsThrough b.last →
    ReachesStart o items n p index
  enters : ∀ loop ∈ o.loops, loop.kind = .whileLoop → loop.start = index →
    ReachesStart o items n p loop.head

namespace Outline.Lawful

variable {o : Outline} (ho : o.Lawful)
include ho

/-- The flow does not go on into a `while` loop. -/
theorem kind_eq_of_fallsThrough {b : Block} (hb : b ∈ o.blocks)
    (hfalls : o.graph.FallsThrough b.last) {loop : Loop} (hloop : loop ∈ o.loops)
    (hstart : loop.start = b.stop) : loop.kind = .doWhile := by
  rcases hkind : loop.kind with _ | _
  · obtain ⟨-, before, hbefore, hjumps, -⟩ := (ho.lawful_loop hloop).entry hkind
    have hlast := ho.tiles.last_add_one hb
    obtain rfl : before = b.last := by omega
    exact absurd hfalls (Graph.not_fallsThrough_of_jumpsAt hjumps)
  · rfl

/-- The block that the flow goes on to is kept. -/
theorem exists_kept_of_fallsThrough {b : Block} (hb : b ∈ o.blocks)
    (hfalls : o.graph.FallsThrough b.last) :
    ∃ number c, o.blocks[number]? = some c ∧ c.start = b.stop ∧ o.Keeps number := by
  obtain ⟨c, hc, hstart⟩ := ho.tiles.exists_start_eq_stop hb (ho.stop_lt_length hb hfalls)
  obtain ⟨number, hnumber⟩ := List.getElem?_of_mem hc
  refine ⟨number, c, hnumber, hstart, (keeps_iff hnumber).mpr (.inr (.inr ⟨b, hb, ?_⟩))⟩
  exact (ho.mem_successors_iff hb).mpr (.inr ⟨hstart, hfalls⟩)

end Outline.Lawful

section Ranges

variable {o : Outline} {items : List Item} {n : Nesting} (ho : o.Lawful)
  (hitems : o.items = .ok items)
include ho hitems

/-- Control at the opening of a loop executes its head. -/
theorem reachesStart_of_loopOpen {p number : Nat} {loop : Loop}
    (hp : items[p]? = some (.loopOpen number loop)) : ReachesStart o items n p loop.head := by
  obtain ⟨q, hq, -, -, ⟨m, b, hb, hhead⟩, -⟩ :=
    ho.exists_positions hitems ((ho.mem_loopOpen_iff hitems).mp (List.mem_of_getElem? hp))
  obtain rfl := ho.position_unique hitems hq hp
  exact ⟨q + 1, .pass (.loopOpen hp) (.here hb), m, b, hb, hhead⟩

namespace Emits

variable {pending rest : List (Nat × Loop)} {index stop : Nat} {part : List Item}
  (hsub : pending.Sublist o.numberedLoops) (h : Emits o pending index stop part rest)
include hsub h

/-- Control at the first item of a range executes the head of the loop that starts there, or else
the first block. -/
theorem reachesStart {p : Nat} (hpart : StandAt items p part) (hlt : index < stop) :
    (∀ x ∈ pending, x.2.start = index → ReachesStart o items n p x.2.head) ∧
      ((∀ x ∈ pending, x.2.start ≠ index) → ∀ number c, o.blocks[number]? = some c →
        c.start = index → o.Keeps number → ReachesStart o items n p index) := by
  cases h with
  | done hle => omega
  | @loop _ _ _ _ _ _ _ number loop _ _ _ _ htake =>
    have hmem := mem_of_takeLoop? htake
    have hstart := (takeLoop?_eq_some htake).1
    refine ⟨?_, fun hnone => absurd hstart (hnone _ hmem)⟩
    intro x hx hxstart
    obtain rfl := eq_of_start_eq ho hsub hx hmem (hxstart.trans hstart.symm)
    exact reachesStart_of_loopOpen ho hitems hpart.cons.1
  | @block _ _ _ _ m b _ _ htake hb =>
    have hnone := takeLoop?_eq_none_iff.mp htake
    refine ⟨fun x hx hxstart => absurd hxstart (hnone x hx), ?_⟩
    intro _ number c hc hcstart hkeeps
    obtain ⟨hm, hbstart⟩ := Outline.getElem?_of_blockAt? hb
    obtain rfl : number = m := ho.tiles.position_unique hc hm
      (ho.tiles.contains_start (List.mem_of_getElem? hc))
      (hcstart.trans hbstart.symm ▸ ho.tiles.contains_start (List.mem_of_getElem? hm))
    rw [if_pos hkeeps] at hpart
    exact ⟨p, .here hpart.cons.1, number, b, hpart.cons.1, hbstart⟩

/-- Control comes to the first item of a range as it should, if it comes so to what is behind the
range. -/
theorem continues_start {p : Nat} (hpart : StandAt items p part) (hle : index ≤ stop)
    (hpending : ∀ x ∈ o.numberedLoops, x.2.start = index → index < stop → x ∈ pending)
    (hend : Continues o items n (p + part.length) stop) : Continues o items n p index := by
  rcases Nat.lt_or_ge index stop with hlt | hge
  · obtain ⟨hloop, hblock⟩ := h.reachesStart ho hitems (n := n) hsub hpart hlt
    constructor
    · intro b hb hstop hfalls
      by_cases hsome : ∃ x ∈ pending, x.2.start = index
      · obtain ⟨x, hx, hstart⟩ := hsome
        have hmem := Outline.mem_loops_of_numbered (hsub.subset hx)
        have hkind := ho.kind_eq_of_fallsThrough hb hfalls hmem (hstart.trans hstop.symm)
        have hreaches := hloop x hx hstart
        rwa [Loop.head, hkind, hstart] at hreaches
      · obtain ⟨number, c, hc, hstart, hkeeps⟩ := ho.exists_kept_of_fallsThrough hb hfalls
        exact hblock (fun x hx hxstart => hsome ⟨x, hx, hxstart⟩) number c hc
          (hstart.trans hstop) hkeeps
    · intro loop hmem _ hstart
      obtain ⟨number, hnumber⟩ := List.getElem?_of_mem hmem
      have hx := hpending (number, loop) (Outline.mem_numberedLoops.mpr hnumber) hstart hlt
      exact hloop (number, loop) hx hstart
  · obtain rfl : index = stop := Nat.le_antisymm hle hge
    cases h with
    | done => exact hend
    | loop hlt | block hlt => omega

end Emits

/-- No `while` loop starts at the head of a loop. -/
theorem Outline.Lawful.start_ne_head_of_whileLoop {loop inner : Loop} (hloop : loop ∈ o.loops)
    (hinner : inner ∈ o.loops) (hkind : inner.kind = .whileLoop) : inner.start ≠ loop.head := by
  intro hstart
  have hlawful := ho.lawful_loop hloop
  have hilast := (ho.lawful_loop hinner).start_le_last
  have hhead := hlawful.start_le_head
  have hlast := hlawful.head_le_last
  obtain ⟨m, hm⟩ := List.getElem?_of_mem hinner
  obtain ⟨k, hk⟩ := List.getElem?_of_mem hloop
  by_cases hsame : inner.start = loop.start
  · have heq := Emits.eq_of_start_eq ho (List.Sublist.refl _) (mem_numberedLoops.mpr hm)
      (mem_numberedLoops.mpr hk) hsame
    obtain ⟨-, rfl⟩ := Prod.mk.inj heq
    have hcondition := ((ho.lawful_loop hinner).entry hkind).1
    rw [Loop.head, hkind] at hstart
    dsimp only at hstart
    omega
  · have hapart : inner.ApartOrNested loop := by
      have hsymm : Std.Symm Loop.ApartOrNested := ⟨fun _ _ h => h.symm⟩
      exact (ho.pairwise_apartOrNested hitems).forall hinner hloop fun heq => hsame (heq ▸ rfl)
    rcases hapart with hap | hap | ⟨hap, -⟩ | ⟨-, hap⟩
    · omega
    · omega
    · omega
    · exact ho.start_ne_head hloop hinner hsame (Nat.le_of_succ_le_succ hap) hstart

omit hitems in
/-- A loop has a name. -/
theorem Outline.Lawful.exists_loopLabel {loop : Loop} (hloop : loop ∈ o.loops) :
    ∃ name, o.loopLabel loop = .ok name := by
  obtain ⟨b, hb, hstart⟩ := ho.exists_start (ho.lawful_loop hloop).target_last
  have hlabel := ho.label_start hb
  rw [hstart] at hlabel
  exact ⟨b.label.asLoop, by rw [loopLabel, hlabel]⟩

/-- Control at the exit of a loop goes on behind the loop. -/
theorem passes_loopExit {p c number : Nat} {loop : Loop}
    (hp : items[p]? = some (.loopExit number loop))
    (hc : items[c]? = some (.loopClose number loop)) : Passes o items n p (c + 1) := by
  have hloop := (ho.mem_loopClose_iff hitems).mp (List.mem_of_getElem? hc)
  have hjumps := ((ho.mem_items_iff hitems).mp (List.mem_of_getElem? hp)).2.2.2
  obtain ⟨r, hr, -, -, -, hexit⟩ := ho.exists_positions hitems hloop
  obtain ⟨q, hq, hlt, hle⟩ := hexit hjumps
  obtain rfl := ho.position_unique hitems hq hp
  obtain ⟨name, hname⟩ := ho.exists_loopLabel (List.mem_of_getElem? hloop)
  have hfits := ho.fits_loop hitems hr
  rw [ho.closeOf_eq hitems hc] at hfits hle
  refine .loopExit (s := ⟨.loop number loop, r, c⟩) hp hname
    ⟨.inr ⟨⟨number, loop, rfl⟩, hfits⟩, ⟨?_, ?_⟩, name, hname, rfl⟩
  · show 2 * r + 1 ≤ 2 * q + 1
    omega
  · show 2 * q + 1 ≤ 2 * c + 1
    omega

/-- Behind the last branch of a loop control leaves the loop, if that branch is not taken. -/
private theorem continues_front {number c p : Nat} {loop : Loop}
    (hloop : o.loops[number]? = some loop) (hexit : StandAt items p (o.exitItems number loop))
    (hc : items[c]? = some (.loopClose number loop))
    (hbehind : Continues o items n (c + 1) (loop.last + 1)) :
    Continues o items n p (loop.last + 1) := by
  have hlawful := ho.lawful_loop (List.mem_of_getElem? hloop)
  constructor
  · intro b hb hstop hfalls
    have hlast : b.last = loop.last := by
      have := ho.tiles.last_add_one hb
      omega
    have hjumps : o.graph.jumpsAt loop.last = false := by
      rw [← hlast]
      exact Bool.eq_false_iff.mpr fun hjumps => Graph.not_fallsThrough_of_jumpsAt hjumps hfalls
    rw [Outline.exitItems, if_neg (Bool.eq_false_iff.mp hjumps)] at hexit
    exact .pass (passes_loopExit ho hitems hexit.cons.1 hc) (hbehind.falls b hb hstop hfalls)
  · -- the last branch goes back, and so does not enter the next loop
    intro inner hinner hkind hstart
    obtain ⟨hlt, before, hbefore, -, htarget⟩ := (ho.lawful_loop hinner).entry hkind
    obtain rfl : before = loop.last := by omega
    have heq := Option.some.inj (htarget.symm.trans hlawful.target_last)
    have hle := hlawful.start_le_last
    omega

/-- At the end of a loop control goes back to its head. -/
private theorem continues_back {number c r : Nat} {loop : Loop}
    (hloop : loop ∈ o.loops) (hr : items[r]? = some (.loopOpen number loop))
    (hc : items[c]? = some (.loopClose number loop)) : Continues o items n c loop.head where
  falls _ _ _ _ := .pass (.loopClose hc hr) (reachesStart_of_loopOpen ho hitems hr)
  enters _ hinner hkind hstart :=
    absurd hstart (ho.start_ne_head_of_whileLoop hitems hloop hinner hkind)

/-- **A range hands on control**: behind each of its blocks control goes on as it should, if it does
so behind the range. -/
theorem Emits.continues {pending rest : List (Nat × Loop)} {index stop : Nat} {part : List Item}
    (hsub : pending.Sublist o.numberedLoops) (h : Emits o pending index stop part rest) {p : Nat}
    (hpart : StandAt items p part)
    (hpending : ∀ x ∈ o.numberedLoops, index < x.2.start → x.2.start < stop → x ∈ pending)
    (hborder : o.IsBorder stop) (hend : Continues o items n (p + part.length) stop)
    {k number : Nat} {b : Block} (hpk : p ≤ k) (hk : k < p + part.length)
    (hb : items[k]? = some (.block number b)) : Continues o items n (k + 1) b.stop := by
  refine lawful_induction ho (motive := fun pending index stop part =>
    ∀ p, StandAt items p part →
      (∀ x ∈ o.numberedLoops, index < x.2.start → x.2.start < stop → x ∈ pending) →
      o.IsBorder stop → Continues o items n (p + part.length) stop →
      ∀ k number b, p ≤ k → k < p + part.length → items[k]? = some (.block number b) →
        Continues o items n (k + 1) b.stop)
    ?_ ?_ ?_ hsub h p hpart hpending hborder hend k number b hpk hk hb
  · intro pending index stop hstop p _ _ _ _ k number b hpk hk _
    exact absurd hpk (Nat.not_le.mpr hk)
  · intro pending rest₀ rest₁ rest₂ rest₃ index stop number loop front back behind hstep hfront
      hback hbehind ihfront ihback ihbehind p hpart hpending hborder hend k m b hpk hk hb
    have hstart := hstep.start_eq
    have hhead := hstep.lawful.start_le_head
    have hheadlast := hstep.lawful.head_le_last
    have hlaststop := hstep.last_lt
    have hloop := Outline.mem_numberedLoops.mp (hstep.sublist.subset hstep.mem)
    have hloopmem := List.mem_of_getElem? hloop
    obtain ⟨i, hi⟩ := ho.exists_target_head hloopmem
    obtain ⟨e, q, c, he, hq, hc, hlength, hopenAt, hfrontAt, hexitAt, hbackAt, hcloseAt,
      hbehindAt⟩ := hpart.loop
    rw [hlength] at hend hk
    -- control leaves the loop to what is behind it, and comes back to its head at its end
    have hbehindStart := hbehind.continues_start ho hitems hstep.sublist₂ hbehindAt hlaststop
      (fun x hx hxstart hxstop => (hstep.mem_rest₂ x).mpr
        ⟨hpending x hx (by omega) (by omega), by omega⟩) hend
    have hfrontEnd := continues_front ho hitems hloop hexitAt hcloseAt hbehindStart
    have hbackEnd := continues_back ho hitems hloopmem hopenAt hcloseAt (n := n)
    -- the block is in the front, in the back or behind: the other items are no blocks
    rcases Nat.lt_or_ge k e with hke | hke
    · rcases Nat.lt_or_ge p k with hkp | hkp
      · exact ihfront (p + 1) hfrontAt (fun x hx hxlt hxstop => (hstep.mem_rest₀ x).mpr
          ⟨hpending x hx (by omega) (by omega), by omega⟩)
          (ho.isBorder_succ hstep.lawful.target_last) (he ▸ hfrontEnd) k m b hkp (by omega) hb
      · obtain rfl : k = p := by omega
        cases hb.symm.trans hopenAt
    rcases Nat.lt_or_ge k q with hkq | hkq
    · rw [Outline.exitItems] at hexitAt hq
      split at hq
      · rw [List.length_nil] at hq
        omega
      · next hjumps =>
        rw [if_neg hjumps] at hexitAt
        rw [List.length_singleton] at hq
        obtain rfl : k = e := by omega
        cases hb.symm.trans hexitAt.cons.1
    rcases Nat.lt_or_ge k c with hkc | hkc
    · exact ihback q hbackAt (fun x hx hxlt hxstop => (hstep.mem_rest₁ x).mpr
        ⟨hpending x hx (by omega) (by omega), by omega, by omega⟩) (ho.isBorder_target hi)
        (hc ▸ hbackEnd) k m b hkq (by omega) hb
    rcases Nat.lt_or_ge c k with hkb | hkb
    · exact ihbehind (c + 1) hbehindAt (fun x hx hxlt hxstop => (hstep.mem_rest₂ x).mpr
        ⟨hpending x hx (by omega) hxstop, by omega⟩) hborder hend k m b hkb hk hb
    · obtain rfl : k = c := by omega
      cases hb.symm.trans hcloseAt
  · intro pending rest index stop number b tail hindex hstep hbehind ih p hpart hpending hborder
      hend k m c hpk hk hc
    have hstart := hstep.start_eq
    have hlt := hstep.lt_stop
    have hbmem := List.mem_of_getElem? hstep.getElem?
    have hle : b.stop ≤ stop := ho.stop_le_of_isBorder hbmem hborder (by omega)
    obtain ⟨hlead, htail⟩ := hpart.append
    rw [List.length_append, ← Nat.add_assoc] at hend hk
    -- behind the block stands the rest of the range, or what is behind the range
    have hnext := hbehind.continues_start ho hitems hstep.sublist htail hle
      (fun x hx hxstart hxstop => hpending x hx (by omega) (by omega)) hend
    rcases Nat.lt_or_ge k (p + (if o.Keeps number then [Item.block number b] else []).length) with
      hown | hown
    · split at hown
      · next hkeeps =>
        rw [if_pos hkeeps] at hlead hnext
        rw [List.length_singleton] at hown
        obtain rfl : k = p := by omega
        obtain ⟨rfl, rfl⟩ := Item.block.inj (Option.some.inj (hc.symm.trans hlead.cons.1))
        exact hnext
      · exact absurd hown (Nat.not_lt.mpr hpk)
    · exact ih _ htail (fun x hx hxstart => hpending x hx (by omega)) hborder hend k m c hown hk hc

end Ranges

/-! ### The next block -/

section Whole

variable {o : Outline} {items : List Item} {n : Nesting} (ho : o.Lawful)
  (hitems : o.items = .ok items)
include ho hitems

/-- **Behind a block** control goes on as it should. -/
theorem continues_of_block {k number : Nat} {b : Block}
    (hk : items[k]? = some (.block number b)) : Continues o items n (k + 1) b.stop := by
  obtain ⟨rest, hemits⟩ := Outline.emits_of_items hitems
  obtain ⟨hlt, -⟩ := List.getElem?_eq_some_iff.mp hk
  have hend : Continues o items n (0 + items.length) o.graph.code.length :=
    { falls := fun c hc hstop hfalls => absurd hstop (Nat.ne_of_lt (ho.stop_lt_length hc hfalls))
      enters := fun loop hloop _ hstart => absurd hstart (Nat.ne_of_lt (ho.start_lt_length hloop)) }
  exact hemits.continues ho hitems (List.Sublist.refl _) StandAt.all
    (fun x hx _ _ => hx) (.inl rfl) hend (Nat.zero_le k) (by omega) hk

/-- **The text begins with the first block.** -/
theorem reachesStart_zero (hlength : 0 < o.graph.code.length) : ReachesStart o items n 0 0 := by
  obtain ⟨rest, hemits⟩ := Outline.emits_of_items hitems
  obtain ⟨hloop, hblock⟩ := hemits.reachesStart ho hitems (n := n) (List.Sublist.refl _)
    StandAt.all hlength
  by_cases hsome : ∃ x ∈ o.numberedLoops, x.2.start = 0
  · obtain ⟨x, hx, hstart⟩ := hsome
    have hlawful := ho.lawful_loop (Outline.mem_loops_of_numbered hx)
    have hreaches := hloop x hx hstart
    rcases hkind : x.2.kind with _ | _
    · obtain ⟨-, before, hbefore, -⟩ := hlawful.entry hkind
      omega
    · rwa [Loop.head, hkind, hstart] at hreaches
  · obtain ⟨b, hb, hstart⟩ := ho.exists_first hlength
    exact hblock (fun x hx hxstart => hsome ⟨x, hx, hxstart⟩) 0 b hb hstart
      ((Outline.keeps_iff hb).mpr (.inl rfl))

omit hitems in
/-- A jump that is left out enters the `while` loop behind it. -/
theorem exists_loop_of_isLoopEntry {index : Nat} (hentry : o.isLoopEntry index = true) :
    ∃ loop ∈ o.loops, loop.kind = .whileLoop ∧ loop.start = index + 1 ∧
      o.graph.target? index = some loop.condition := by
  obtain ⟨loop, hloop, h⟩ := List.any_eq_true.mp hentry
  rw [Bool.and_eq_true, beq_iff_eq, beq_iff_eq] at h
  obtain ⟨hkind, hstart⟩ := h
  obtain ⟨-, before, hbefore, -, htarget⟩ := (ho.lawful_loop hloop).entry hkind
  obtain rfl : before = index := by omega
  exact ⟨loop, hloop, hkind, hstart, htarget⟩

/-- **A jump that is taken** leads to the block that it jumps to. -/
theorem exists_jumpsTo (hnest : o.nest items = .ok n) {k number target : Nat} {b : Block}
    (hk : items[k]? = some (.block number b)) (ht : o.graph.target? b.last = some target) :
    ∃ q, JumpsTo o items n k q ∧ StartsAt items q target := by
  have hwell := ho.wellNested hitems hnest
  obtain ⟨jump, hjump, hexplains⟩ := hwell.explains k number b hk
  rcases jump with _ | (_ | label | ⟨label, name⟩)
  · cases ht.symm.trans hexplains.2
  · -- left out: the jump enters the loop behind it, which begins with its condition
    obtain ⟨loop, hloop, hkind, hstart, htarget⟩ := exists_loop_of_isLoopEntry ho hexplains
    cases ht.symm.trans htarget
    rw [ho.tiles.last_add_one (ho.mem_blocks_of_item hitems hk)] at hstart
    obtain ⟨q, hreaches, hq⟩ :=
      (continues_of_block ho hitems (n := n) hk).enters loop hloop hkind hstart
    rw [Loop.head, hkind] at hq
    exact ⟨q, ⟨_, _, hjump, .omitted, hreaches⟩, hq⟩
  · -- a `break`: the scope ends right before the target
    obtain ⟨-, s, hs, hkind, hcovers, t, htarget, hitem⟩ := hexplains
    cases ht.symm.trans htarget
    obtain ⟨m, c, hc, hstart⟩ := Outline.getElem?_of_itemAt? hitem
    have hnames : n.Names o items k label s :=
      ⟨.inl hs, hcovers, label, by rw [Outline.scopeLabel, hkind], rfl⟩
    have hlands : Lands o items n k (.breakOut label) s.closeAt := by
      have hbehind : s.behind = s.closeAt := by rw [Scope.behind, hkind]
      exact hbehind ▸ .breakOut hnames
    exact ⟨s.closeAt, ⟨_, _, hjump, hlands, .here hc⟩, m, c, hc, hstart⟩
  · -- a `continue`: the target is the head of the loop
    obtain ⟨-, s, m, loop, hfits, hkind, hcovers, htarget, -, hname⟩ := hexplains
    cases ht.symm.trans htarget
    have hloop : s.IsLoop := ⟨m, loop, hkind⟩
    have hnames : n.Names o items k name s :=
      ⟨.inr ⟨hloop, hfits⟩, hcovers, name, by rw [Outline.scopeLabel, hkind]; exact hname, rfl⟩
    obtain ⟨m', loop', hkind', -, hopen⟩ := hfits.getElem?_of_opens hloop.opens_eq
    cases hkind.symm.trans hkind'
    obtain ⟨q, hreaches, hq⟩ := reachesStart_of_loopOpen ho hitems (n := n) hopen
    exact ⟨q, ⟨_, _, hjump, .continueLoop hnames hloop, hreaches⟩, hq⟩

/-- **No other jumps** are written than those of the branches. -/
theorem exists_target_of_jumpsTo (hnest : o.nest items = .ok n) {k number q : Nat} {b : Block}
    (hk : items[k]? = some (.block number b)) (hjumps : JumpsTo o items n k q) :
    ∃ target, o.graph.target? b.last = some target := by
  obtain ⟨jump, p, hjump, -, -⟩ := hjumps
  obtain ⟨jump', hjump', hexplains⟩ := (ho.wellNested hitems hnest).explains k number b hk
  obtain rfl : some jump = jump' := Option.some.inj (hjump.symm.trans hjump')
  rcases jump with _ | label | ⟨label, name⟩
  · obtain ⟨loop, -, -, -, htarget⟩ := exists_loop_of_isLoopEntry ho hexplains
    exact ⟨loop.condition, htarget⟩
  · obtain ⟨-, s, -, -, -, target, htarget, -⟩ := hexplains
    exact ⟨target, htarget⟩
  · obtain ⟨-, s, m, loop, -, -, -, htarget, -⟩ := hexplains
    exact ⟨loop.head, htarget⟩

end Whole

/-- **Structuring preserves control flow.** Read as a program, the text of a method enters at its
first block. Behind each block it goes on as the flow graph does: if the branch at its end is taken,
the next block is the one that the branch jumps to; without a branch there is no jump; and if the
flow goes on behind it, the next block is the one behind it. -/
theorem structure_preserves_flow {c : Code} {pool : Pool} {o : Outline} {options : Options}
    {lines : List (List (Option String))} {text : String} (houtline : c.outline pool = .ok o)
    (hbody : o.body options lines = .ok text) :
    ∃ items n, o.items = .ok items ∧ o.nest items = .ok n ∧
      (o.graph.code ≠ [] → ∃ q b, items[q]? = some (.block 0 b) ∧
        ∀ r, Reaches o items n 0 r ↔ r = q) ∧
      ∀ k number b, items[k]? = some (.block number b) →
        (∀ target, o.graph.target? b.last = some target → ∃ q, StartsAt items q target ∧
          ∀ r, JumpsTo o items n k r ↔ r = q) ∧
        (o.graph.target? b.last = none → ∀ r, ¬ JumpsTo o items n k r) ∧
        (o.graph.FallsThrough b.last → ∃ q, StartsAt items q b.stop ∧
          ∀ r, Reaches o items n (k + 1) r ↔ r = q) := by
  have ho := Code.lawful_of_outline houtline
  obtain ⟨rows, hrows, -⟩ := Result.bind_eq_ok.mp hbody
  obtain ⟨items, hitems, h⟩ := Result.bind_eq_ok.mp hrows
  obtain ⟨n, hnest, -⟩ := Result.bind_eq_ok.mp h
  -- where control gets to from a place is determined, so it is enough to reach one block
  have hreaches : ∀ {p q}, Reaches o items n p q → ∀ r, Reaches o items n p r ↔ r = q := by
    intro p q hq r
    constructor
    · intro hr
      exact hr.unique ho hitems hnest hq
    · rintro rfl
      exact hq
  refine ⟨items, n, hitems, hnest, ?_, ?_⟩
  · intro hcode
    have hlength := List.length_pos_iff.mpr hcode
    -- the block that is reached starts where the first one does
    obtain ⟨q, hq, m, b, hb, hstart⟩ := reachesStart_zero ho hitems (n := n) hlength
    obtain ⟨first, hfirst, hzero⟩ := ho.exists_first hlength
    have hblock := ho.getElem?_of_item hitems hb
    obtain rfl : m = 0 := ho.tiles.position_unique hblock hfirst
      (ho.tiles.contains_start (List.mem_of_getElem? hblock))
      (hstart.trans hzero.symm ▸ ho.tiles.contains_start (List.mem_of_getElem? hfirst))
    exact ⟨q, b, hb, hreaches hq⟩
  · intro k number b hk
    refine ⟨?_, ?_, ?_⟩
    · intro target ht
      obtain ⟨q, hjumps, hstart⟩ := exists_jumpsTo ho hitems hnest hk ht
      refine ⟨q, hstart, fun r => ⟨?_, ?_⟩⟩
      · intro hr
        exact hr.unique ho hitems hnest hjumps
      · rintro rfl
        exact hjumps
    · intro hnone r hr
      obtain ⟨target, ht⟩ := exists_target_of_jumpsTo ho hitems hnest hk hr
      cases hnone.symm.trans ht
    · intro hfalls
      obtain ⟨q, hq, hstart⟩ := (continues_of_block ho hitems (n := n) hk).falls b
        (ho.mem_blocks_of_item hitems hk) rfl hfalls
      exact ⟨q, hstart, hreaches hq⟩

/-- A `while` loop that is also left from its body, past what stands behind it. -/
theorem structure_preserves_flow_of_loop_with_break :
    ∃ o lines text items n,
      (Code.ofParts 1 2 [0xa7, 0, 10, 0x1a, 0x99, 0, 13, 0x84, 0, 1, 0x1b, 0x9a, 0xff, 0xf8, 0x84,
        1, 1, 0xb1] [] []).outline ⟨#[]⟩ = .ok o ∧
      (o.blocks.map fun b => b.stop - b.start) = lines.map List.length ∧
      Outline.body o {} lines = .ok text ∧ o.items = .ok items ∧ o.nest items = .ok n ∧
      ∀ k number b, items[k]? = some (.block number b) → ∀ target,
        o.graph.target? b.last = some target → ∃ q, StartsAt items q target ∧
          ∀ r, JumpsTo o items n k r ↔ r = q := by
  obtain ⟨lines, hok⟩ : ∃ lines, ((Code.ofParts 1 2 [0xa7, 0, 10, 0x1a, 0x99, 0, 13, 0x84, 0, 1,
      0x1b, 0x9a, 0xff, 0xf8, 0x84, 1, 1, 0xb1] [] []).outline ⟨#[]⟩ >>= fun o =>
        o.body {} lines >>= fun _ => .ok (o.blocks.map fun b => b.stop - b.start)) =
      .ok (lines.map List.length) := by
    refine ⟨[[some "goto L4;"], [none, some "if(arg0 == 0) \x7b goto L6; \x7d"],
      [some "arg0++;"], [none, some "if(arg1 != 0) \x7b goto L2; \x7d"], [some "arg1++;"],
      [some "return;"]], ?_⟩
    decide +kernel
  obtain ⟨o, houtline, h⟩ := Result.bind_eq_ok.mp hok
  obtain ⟨text, hbody, hshape⟩ := Result.bind_eq_ok.mp h
  obtain ⟨items, n, hitems, hnest, -, hflow⟩ := structure_preserves_flow houtline hbody
  exact ⟨o, lines, text, items, n, houtline, Except.ok.inj hshape, hbody, hitems, hnest,
    fun k number b hk => (hflow k number b hk).1⟩

end JvmSource
