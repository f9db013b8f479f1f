import JvmSource.Proofs.Structure.Order

/-!
# Loops as brackets

The opening and the closing of a loop stand around the items of the loop, whatever range they are
written for (`Emits.enclosedIn`), and the first item of a loop is the block at its head. A loop that
ends inside of another one does not start at the head of that one (`Outline.Lawful.start_ne_head`),
so the block at the head is not put behind the opening of a loop further in.

Items are `Bracketed` if they fall into blocks, exits and loops with bracketed items inside. This is
a property of a list of items alone; what fills a loop is said in addition (`Loop.Fills`): all of
its kept blocks and no others, and its exit if its last branch may fall through.

The last part transfers what is known of ranges to the range of all instructions, in which all loops
are pending. From here on the items of a method are known without the relation they come from.
-/

namespace JvmSource

/-- Items in which the opening and the closing of each loop match. -/
inductive Bracketed : List Item → Prop
  | nil : Bracketed []
  | block {number : Nat} {b : Block} {rest : List Item} (hrest : Bracketed rest) :
    Bracketed (.block number b :: rest)
  | exit {number : Nat} {loop : Loop} {rest : List Item} (hrest : Bracketed rest) :
    Bracketed (.loopExit number loop :: rest)
  | loop {number : Nat} {loop : Loop} {inside rest : List Item} (hinside : Bracketed inside)
      (hrest : Bracketed rest) :
    Bracketed (.loopOpen number loop :: inside ++ .loopClose number loop :: rest)

/-- Bracketed items one behind the other are bracketed. -/
theorem Bracketed.append {xs ys : List Item} (hxs : Bracketed xs) (hys : Bracketed ys) :
    Bracketed (xs ++ ys) := by
  induction hxs with
  | nil => exact hys
  | block _ ih => exact .block ih
  | exit _ ih => exact .exit ih
  | @loop number loop inside rest hinside _ _ ih =>
    rw [List.append_assoc]
    exact .loop hinside ih

theorem Outline.bracketed_exitItems (o : Outline) (number : Nat) (loop : Loop) :
    Bracketed (o.exitItems number loop) := by
  rw [exitItems]
  split
  · exact .nil
  · exact .exit .nil

/-- Items that may stand between the opening and the closing of a loop: its kept blocks, with the
one at its head first, and its exit, if it has one. -/
structure Loop.Fills (o : Outline) (number : Nat) (loop : Loop) (inside : List Item) : Prop where
  bracketed : Bracketed inside
  mem_block_iff : ∀ number b, Item.block number b ∈ inside ↔
    o.blocks[number]? = some b ∧ o.Keeps number ∧ loop.start ≤ b.start ∧ b.start ≤ loop.last
  head : ∃ number b rest, inside = .block number b :: rest ∧ b.start = loop.head
  exit : o.graph.jumpsAt loop.last = false → Item.loopExit number loop ∈ inside

/-- Some items that contain a loop with what fills it. -/
def Loop.EnclosedIn (o : Outline) (number : Nat) (loop : Loop) (items : List Item) : Prop :=
  ∃ before inside after, loop.Fills o number inside ∧
    items = before ++ .loopOpen number loop :: inside ++ .loopClose number loop :: after

namespace Loop.EnclosedIn

variable {o : Outline} {number : Nat} {loop : Loop} {items : List Item}

theorem append_left (h : loop.EnclosedIn o number items) (more : List Item) :
    loop.EnclosedIn o number (more ++ items) := by
  obtain ⟨before, inside, after, hfills, rfl⟩ := h
  exact ⟨more ++ before, inside, after, hfills, by simp⟩

theorem append_right (h : loop.EnclosedIn o number items) (more : List Item) :
    loop.EnclosedIn o number (items ++ more) := by
  obtain ⟨before, inside, after, hfills, rfl⟩ := h
  exact ⟨before, inside, after ++ more, hfills, by simp⟩

end Loop.EnclosedIn

namespace Outline.Lawful

variable {o : Outline} (ho : o.Lawful)
include ho

/-- A block that a branch jumps to is kept. -/
theorem keeps_of_target {i number : Nat} {b : Block} (hb : o.blocks[number]? = some b)
    (ht : o.graph.target? i = some b.start) : o.Keeps number := by
  obtain ⟨c, hc, rfl⟩ := ho.exists_last ht
  exact (keeps_iff hb).mpr (.inr (.inr ⟨c, hc, (ho.mem_successors_iff hc).mpr (.inl ht)⟩))

/-- Some branch jumps to the head of a loop. -/
theorem exists_target_head {loop : Loop} (hloop : loop ∈ o.loops) :
    ∃ i, o.graph.target? i = some loop.head := by
  have hlawful := ho.lawful_loop hloop
  rw [Loop.head]
  split
  · next hkind =>
    obtain ⟨-, before, -, -, ht⟩ := hlawful.entry hkind
    exact ⟨before, ht⟩
  · exact ⟨loop.last, hlawful.target_last⟩

/-- No loop that ends inside of another starts at its head. -/
theorem start_ne_head {outer inner : Loop} (houter : outer ∈ o.loops) (hinner : inner ∈ o.loops)
    (hne : inner.start ≠ outer.start) (hlast : inner.last ≤ outer.last) :
    inner.start ≠ outer.head := by
  have hlo := ho.lawful_loop houter
  have hli := ho.lawful_loop hinner
  rw [Loop.head]
  split
  · -- whichever loop was found first, the other ends before its condition
    have hor := List.pairwise_iff_getElem.mp ho.pairwise_loops
    obtain ⟨m, hm, rfl⟩ := List.getElem_of_mem houter
    obtain ⟨n, hn, rfl⟩ := List.getElem_of_mem hinner
    have hcond := hli.condition_le_last
    have hstart := hli.start_le_last
    rcases Nat.lt_trichotomy m n with hlt | rfl | hlt
    · have := (hor m n hm hn hlt).1
      omega
    · exact absurd rfl hne
    · have := (hor n m hn hm hlt).1
      omega
  · exact hne

end Outline.Lawful

namespace Emits

variable {o : Outline} {pending rest : List (Nat × Loop)} {index stop : Nat} {items : List Item}

/-- The items of a range are bracketed. -/
theorem bracketed (h : Emits o pending index stop items rest) : Bracketed items := by
  induction h with
  | done => exact .nil
  | @loop pending rest₀ rest₁ rest₂ rest₃ index stop number loop front back behind _ _ _ _ _ _
      ihfront ihback ihbehind =>
    exact .loop ((ihfront.append (o.bracketed_exitItems number loop)).append ihback) ihbehind
  | block _ _ _ _ _ ih =>
    split
    · exact .block ih
    · exact ih

section Lawful

variable (ho : o.Lawful)
include ho

/-- The front part of a loop begins with the block at its head. -/
theorem LoopStep.exists_head {rest₀ rest₁ rest₂ : List (Nat × Loop)} {number : Nat} {loop : Loop}
    {front : List Item} (hstep : LoopStep o pending rest₀ rest₁ rest₂ index stop number loop)
    (hfront : Emits o rest₀ loop.head (loop.last + 1) front rest₁) :
    ∃ n b rest, front = .block n b :: rest ∧ b.start = loop.head := by
  have hheadlast := hstep.lawful.head_le_last
  have hloop := Outline.mem_loops_of_numbered (hstep.sublist.subset hstep.mem)
  cases hfront with
  | done hle => omega
  | @loop _ _ _ _ _ _ _ n inner _ _ _ _ htake hlast =>
    -- a loop that starts at the head would end before the condition
    have hinner := mem_of_takeLoop? htake
    have hne := ((hstep.mem_rest₀ _).mp hinner).2
    rw [← hstep.start_eq] at hne
    have hmem := Outline.mem_loops_of_numbered (hstep.sublist₀.subset hinner)
    exact absurd (takeLoop?_eq_some htake).1
      (ho.start_ne_head hloop hmem hne (Nat.le_of_lt_succ hlast))
  | @block _ _ _ _ n b items _ _ hb =>
    obtain ⟨hn, hstart⟩ := Outline.getElem?_of_blockAt? hb
    obtain ⟨i, hi⟩ := ho.exists_target_head hloop
    have hkeeps := ho.keeps_of_target hn (hstart ▸ hi)
    exact ⟨n, b, items, by rw [if_pos hkeeps]; rfl, hstart⟩

/-- What stands between the opening and the closing of a loop. -/
theorem LoopStep.fills {rest₀ rest₁ rest₂ : List (Nat × Loop)} {number : Nat} {loop : Loop}
    {front back : List Item}
    (hstep : LoopStep o pending rest₀ rest₁ rest₂ index stop number loop)
    (hfront : Emits o rest₀ loop.head (loop.last + 1) front rest₁)
    (hback : Emits o rest₁ loop.start loop.head back rest₂) :
    loop.Fills o number (front ++ o.exitItems number loop ++ back) := by
  have hhead := hstep.lawful.start_le_head
  have hheadlast := hstep.lawful.head_le_last
  refine ⟨(hfront.bracketed.append (o.bracketed_exitItems number loop)).append hback.bracketed,
    ?_, ?_, ?_⟩
  · intro n b
    simp only [List.mem_append, Outline.mem_exitItems, hfront.mem_items_iff ho hstep.sublist₀,
      hback.mem_items_iff ho hstep.sublist₁, Item.Belongs, reduceCtorEq, false_and, or_false,
      ← and_or_left]
    exact and_congr_right fun _ => and_congr_right fun _ => by omega
  · obtain ⟨n, b, rest, rfl, hstart⟩ := hstep.exists_head ho hfront
    exact ⟨n, b, _, rfl, hstart⟩
  · intro hjumps
    exact List.mem_append_left _
      (List.mem_append_right _ (Outline.mem_exitItems.mpr ⟨rfl, hjumps⟩))

/-- A pending loop that starts in a range stands in its items with what fills it. The loop is the
one that is opened there, or it stands in one of the three parts. -/
theorem enclosedIn (hsub : pending.Sublist o.numberedLoops)
    (h : Emits o pending index stop items rest) {p : Nat × Loop} (hp : p ∈ pending)
    (hindex : index ≤ p.2.start) (hstop : p.2.start < stop) : p.2.EnclosedIn o p.1 items := by
  refine lawful_induction ho (motive := fun pending index stop items =>
    ∀ p ∈ pending, index ≤ p.2.start → p.2.start < stop → p.2.EnclosedIn o p.1 items)
    ?_ ?_ ?_ hsub h p hp hindex hstop
  · intros
    omega
  · intro pending rest₀ rest₁ rest₂ rest₃ index stop number loop front back behind hstep hfront
      hback _ ihfront ihback ihbehind p hp hle hlt
    -- the loop is the one that is opened here, or stands in one of the three parts
    rcases hstep.mem_cases ho hp hle hlt with rfl | ⟨hp, hle, hlt⟩ | ⟨hp, hle, hlt⟩ | ⟨hp, hle, hlt⟩
    · exact ⟨[], _, behind, hstep.fills ho hfront hback, by simp⟩
    · have hin := (ihfront p hp hle hlt).append_left [.loopOpen number loop]
      exact ((hin.append_right _).append_right _).append_right _
    · have hin := (ihback p hp hle hlt).append_left
        (.loopOpen number loop :: front ++ o.exitItems number loop)
      exact hin.append_right _
    · have hin := (ihbehind p hp hle hlt).append_left [.loopClose number loop]
      exact hin.append_left (.loopOpen number loop :: front ++ o.exitItems number loop ++ back)
  · intro pending rest index stop number b items hindex hstep _ ih p hp hle hlt
    have hstart := hstep.start_eq
    refine (ih p hp (Nat.le_of_not_lt ?_) hlt).append_left _
    intro hbelow
    exact hstep.not_contains p hp ⟨by omega, hbelow⟩

end Lawful

end Emits

/-! ### The order of a whole method -/

namespace Outline.Lawful

variable {o : Outline} (ho : o.Lawful)
include ho

/-- What the items of a method are. -/
theorem mem_items_iff {items : List Item} (h : o.items = .ok items) {x : Item} :
    x ∈ items ↔ x.Belongs o o.numberedLoops 0 o.graph.code.length := by
  obtain ⟨rest, hemits⟩ := emits_of_items h
  exact hemits.mem_items_iff ho (List.Sublist.refl _)

/-- No item of a method occurs twice. -/
theorem nodup_items {items : List Item} (h : o.items = .ok items) : items.Nodup := by
  obtain ⟨rest, hemits⟩ := emits_of_items h
  exact hemits.nodup_items ho (List.Sublist.refl _)

/-- The kept blocks are items, and no other blocks are. -/
theorem mem_block_iff {items : List Item} (h : o.items = .ok items) {number : Nat} {b : Block} :
    .block number b ∈ items ↔ o.blocks[number]? = some b ∧ o.Keeps number := by
  rw [ho.mem_items_iff h, Item.Belongs]
  constructor
  · rintro ⟨hb, hkeeps, -⟩
    exact ⟨hb, hkeeps⟩
  · rintro ⟨hb, hkeeps⟩
    obtain ⟨-, hlt, hle⟩ := ho.tiles.bounds (List.mem_of_getElem? hb)
    exact ⟨hb, hkeeps, Nat.zero_le _, by omega⟩

theorem start_lt_length {loop : Loop} (hloop : loop ∈ o.loops) :
    loop.start < o.graph.code.length := by
  obtain ⟨b, hb, hstart⟩ := ho.exists_start (ho.lawful_loop hloop).target_last
  obtain ⟨-, hlt, hle⟩ := ho.tiles.bounds hb
  omega

/-- Every loop of the method is opened. -/
theorem mem_loopOpen_iff {items : List Item} (h : o.items = .ok items) {number : Nat}
    {loop : Loop} : .loopOpen number loop ∈ items ↔ o.loops[number]? = some loop := by
  rw [ho.mem_items_iff h, Item.Belongs, mem_numberedLoops]
  exact ⟨And.left, fun hl =>
    ⟨hl, Nat.zero_le _, ho.start_lt_length (List.mem_of_getElem? hl)⟩⟩

/-- Every loop of the method is closed. -/
theorem mem_loopClose_iff {items : List Item} (h : o.items = .ok items) {number : Nat}
    {loop : Loop} : .loopClose number loop ∈ items ↔ o.loops[number]? = some loop := by
  rw [ho.mem_items_iff h, ← ho.mem_loopOpen_iff h, ho.mem_items_iff h]
  rfl

/-- Two loops of a method that has an order are apart from each other, or one lies in the other. -/
theorem pairwise_apartOrNested {items : List Item} (h : o.items = .ok items) :
    o.loops.Pairwise Loop.ApartOrNested := by
  obtain ⟨rest, hemits⟩ := emits_of_items h
  refine List.pairwise_iff_getElem.mpr ?_
  intro m n hm hn _
  have hmem : ∀ {k} (hk : k < o.loops.length), (k, o.loops[k]) ∈ o.numberedLoops := fun hk =>
    mem_numberedLoops.mpr (List.getElem?_eq_getElem hk)
  exact hemits.apart_or_nested ho (List.Sublist.refl _) (hmem hm) (hmem hn) (Nat.zero_le _)
    (ho.start_lt_length (List.getElem_mem hm)) (Nat.zero_le _)
    (ho.start_lt_length (List.getElem_mem hn))

end Outline.Lawful

end JvmSource
