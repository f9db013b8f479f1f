import JvmSource.Proofs.Structure.Nesting

/-!
# The rows of a body

Rows that open a scope and rows that close one match: counted from depth 1, no row stands further
out than depth 1, and the depth is 1 again at the end. The count (`Row.depthBehind?`) has no result
where a row would close what was never opened, so that it has one says that this does not happen.
Where it has one, the depths at which rows are laid out are those that it counts
(`Row.layout_append`).

Labelled scopes and loops are counted apart. Of the labelled scopes, those that close before an item
and those that open there lead from one depth to the next (`Row.depthBehind?_closing_opening`),
which is arithmetic about how many scopes open and close before an index; they close behind where
they open. The items of loops are bracketed, so what a loop opens it closes
(`Outline.depthBehind?_of_bracketed`). The induction is on the brackets, with the labelled scopes at
their own depth all along.

`scopes_well_nested` gathers what the modules on scopes have shown, and adds the depths.
-/

namespace JvmSource

namespace Row

/-- The depth behind some rows, the first of which stands at `depth`, unless a row would close a
scope at depth 1 or less. -/
def depthBehind? : (depth : Nat) → List Row → Option Nat
  | depth, [] => some depth
  | depth, .line _ :: rest => depthBehind? depth rest
  | depth, .enter _ :: rest => depthBehind? (depth + 1) rest
  | depth, .leave :: rest => if 1 < depth then depthBehind? (depth - 1) rest else none

variable {depth : Nat}

/-- The depth behind two runs of rows is counted through both. -/
theorem depthBehind?_append {xs ys : List Row} :
    depthBehind? depth (xs ++ ys) = (depthBehind? depth xs).bind (depthBehind? · ys) := by
  induction xs generalizing depth with
  | nil => rfl
  | cons x xs ih =>
    cases x with
    | line text => exact ih
    | enter text => exact ih
    | leave =>
      rw [List.cons_append, depthBehind?, depthBehind?]
      split
      · exact ih
      · rfl

theorem depthBehind?_lines (texts : List String) :
    depthBehind? depth (texts.map .line) = some depth := by
  induction texts with
  | nil => rfl
  | cons text texts ih => exact ih

theorem depthBehind?_enters (texts : List String) :
    depthBehind? depth (texts.map .enter) = some (depth + texts.length) := by
  induction texts generalizing depth with
  | nil => rfl
  | cons text texts ih =>
    rw [List.map_cons, depthBehind?, ih, List.length_cons, Nat.add_assoc, Nat.add_comm 1]

/-- Rows that close scopes lead out by one each, if they do not lead too far. -/
theorem depthBehind?_leaves {count : Nat} (h : count < depth) :
    depthBehind? depth (List.replicate count .leave) = some (depth - count) := by
  induction count generalizing depth with
  | zero => rfl
  | succ count ih =>
    rw [List.replicate_succ, depthBehind?, if_pos (by omega), ih (by omega), Nat.sub_sub,
      Nat.add_comm]

/-- Rows that keep to depth 1 or more stand at the depths that are counted. -/
theorem layout_append {xs ys : List Row} {depth' : Nat} (h : depthBehind? depth xs = some depth') :
    layout depth (xs ++ ys) = layout depth xs ++ layout depth' ys := by
  induction xs generalizing depth with
  | nil =>
    obtain rfl := Option.some.inj h
    rfl
  | cons x xs ih =>
    cases x with
    | line text =>
      rw [List.cons_append, layout, layout, List.cons_append, ih h]
    | enter text =>
      rw [List.cons_append, layout, layout, List.cons_append, ih h]
    | leave =>
      rw [depthBehind?] at h
      split at h
      · rw [List.cons_append, layout, layout, List.cons_append, ih h]
      · cases h

/-- No row leads further out than depth 1. -/
theorem one_le_of_depthBehind? {rows : List Row} {depth' : Nat} (hdepth : 1 ≤ depth)
    (h : depthBehind? depth rows = some depth') : 1 ≤ depth' := by
  induction rows generalizing depth with
  | nil =>
    obtain rfl := Option.some.inj h
    exact hdepth
  | cons row rows ih =>
    cases row with
    | line text => exact ih hdepth h
    | enter text => exact ih (Nat.le_succ_of_le hdepth) h
    | leave =>
      rw [depthBehind?] at h
      split at h
      · exact ih (by omega) h
      · cases h

/-! ### The depth of labelled scopes -/

/-- The number of labelled scopes that are open before item `k`, those that close there included. -/
def labelDepth (scopes : List Scope) (k : Nat) : Nat :=
  scopes.countP (·.openAt < k) - scopes.countP (·.closeAt < k)

/-- What is less than `k + 1` is less than `k`, or it is `k`. -/
private theorem countP_lt_succ (scopes : List Scope) (f : Scope → Nat) (k : Nat) :
    scopes.countP (f · < k + 1) = scopes.countP (f · < k) + scopes.countP (f · == k) := by
  induction scopes with
  | nil => rfl
  | cons s scopes ih =>
    simp only [List.countP_cons, ih, decide_eq_true_eq, beq_iff_eq]
    split <;> split <;> split <;> omega

variable {scopes : List Scope} {k : Nat}

/-- Each labelled scope that opens before an item has a row there. -/
theorem length_opening (hlabels : ∀ s ∈ scopes, s.IsLabel) :
    ((scopesOpening scopes k).filterMap openingText?).length = scopes.countP (·.openAt == k) := by
  have hperm : (scopesOpening scopes k).Perm (scopes.filter (·.openAt == k)) :=
    List.mergeSort_perm _ _
  rw [List.length_filterMap_eq_countP, hperm.countP_eq, List.countP_filter]
  refine List.countP_congr ?_
  intro s hs
  obtain ⟨label, hkind⟩ := hlabels s hs
  simp [openingText?, hkind]

/-- **The scopes that close and open before an item** lead from its depth to that of the next. -/
theorem depthBehind?_closing_opening (hlabels : ∀ s ∈ scopes, s.IsLabel)
    (horder : ∀ s ∈ scopes, s.openAt < s.closeAt) (loops : Nat) :
    depthBehind? (1 + labelDepth scopes k + loops) (closing scopes k ++ opening scopes k) =
      some (1 + labelDepth scopes (k + 1) + loops) := by
  have hopen := countP_lt_succ scopes (·.openAt) k
  have hclose := countP_lt_succ scopes (·.closeAt) k
  -- what is closed by now was open before
  have hle : scopes.countP (·.closeAt < k + 1) ≤ scopes.countP (·.openAt < k) := by
    refine List.countP_mono_left ?_
    intro s hs hlt
    have := horder s hs
    simp only [decide_eq_true_eq] at hlt ⊢
    omega
  rw [depthBehind?_append, closing, depthBehind?_leaves (by rw [labelDepth]; omega),
    Option.bind_some, opening, depthBehind?_enters, length_opening hlabels]
  refine congrArg some ?_
  simp only [labelDepth]
  omega

end Row

/-! ### The depth of loops -/

namespace Outline

variable {o : Outline} {options : Options} {lines : List (List (Option String))}
  {scopes : List Scope} {k : Nat}

/-- The rows of the first item and of the others. -/
theorem rowsFrom_cons_eq_ok {item : Item} {rest : List Item} {rows : List Row}
    (h : o.rowsFrom options lines scopes k (item :: rest) = .ok rows) :
    ∃ own behind, o.itemRows options lines item = .ok own ∧
      o.rowsFrom options lines scopes (k + 1) rest = .ok behind ∧
      rows = (Row.closing scopes k ++ Row.opening scopes k) ++ (own ++ behind) := by
  rw [rowsFrom] at h
  obtain ⟨own, hown, h⟩ := Result.bind_eq_ok.mp h
  obtain ⟨behind, hbehind, h⟩ := Result.bind_eq_ok.mp h
  exact ⟨own, behind, hown, hbehind, by rw [← Result.pure_eq_ok.mp h]; simp⟩

/-- The rows of two runs of items are those of the first one and those of the second one. -/
theorem rowsFrom_append_eq_ok {xs ys : List Item} {rows : List Row}
    (h : o.rowsFrom options lines scopes k (xs ++ ys) = .ok rows) :
    ∃ front behind, o.rowsFrom options lines scopes k xs = .ok front ∧
      o.rowsFrom options lines scopes (k + xs.length) ys = .ok behind ∧
      rows = front ++ behind := by
  induction xs generalizing k rows with
  | nil => exact ⟨[], rows, rfl, h, rfl⟩
  | cons item xs ih =>
    obtain ⟨own, rest, hown, hrest, rfl⟩ := rowsFrom_cons_eq_ok h
    obtain ⟨front, behind, hfront, hbehind, rfl⟩ := ih hrest
    refine ⟨Row.closing scopes k ++ Row.opening scopes k ++ own ++ front, behind, ?_, ?_, ?_⟩
    · rw [rowsFrom, hown, hfront]
      rfl
    · rwa [List.length_cons, Nat.add_comm xs.length, ← Nat.add_assoc]
    · simp

/-- **Bracketed items** have rows that end at the depth at which they began, labelled scopes
apart. -/
theorem depthBehind?_of_bracketed {items : List Item} (hitems : Bracketed items)
    (hlabels : ∀ s ∈ scopes, s.IsLabel) (horder : ∀ s ∈ scopes, s.openAt < s.closeAt)
    {rows : List Row} (h : o.rowsFrom options lines scopes k items = .ok rows) (loops : Nat) :
    Row.depthBehind? (1 + Row.labelDepth scopes k + loops) rows =
      some (1 + Row.labelDepth scopes (k + items.length) + loops) := by
  -- what stands before an item leads to the depth of the next one
  have hbefore : ∀ k loops (rows : List Row),
      Row.depthBehind? (1 + Row.labelDepth scopes k + loops)
          ((Row.closing scopes k ++ Row.opening scopes k) ++ rows) =
        Row.depthBehind? (1 + Row.labelDepth scopes (k + 1) + loops) rows := by
    intro k loops rows
    rw [Row.depthBehind?_append, Row.depthBehind?_closing_opening hlabels horder, Option.bind_some]
  induction hitems generalizing k rows loops with
  | nil =>
    cases h
    rfl
  | @block number b rest _ ih =>
    obtain ⟨own, behind, hown, hbehind, rfl⟩ := rowsFrom_cons_eq_ok h
    cases hown
    rw [hbefore, Row.depthBehind?_append, blockRows, Row.depthBehind?_lines, Option.bind_some,
      ih hbehind, List.length_cons, Nat.add_right_comm k, Nat.add_assoc k]
  | @exit number loop rest _ ih =>
    obtain ⟨own, behind, hown, hbehind, rfl⟩ := rowsFrom_cons_eq_ok h
    obtain ⟨name, -, hown⟩ := Result.bind_eq_ok.mp hown
    cases hown
    rw [hbefore, List.cons_append, Row.depthBehind?, List.nil_append, ih hbehind, List.length_cons,
      Nat.add_right_comm k, Nat.add_assoc k]
  | @loop number loop inside rest _ _ ihinside ihrest =>
    obtain ⟨front, behind, hfront, hbehind, rfl⟩ := rowsFrom_append_eq_ok h
    obtain ⟨own, within, hown, hinside, rfl⟩ := rowsFrom_cons_eq_ok hfront
    obtain ⟨name, -, hown⟩ := Result.bind_eq_ok.mp hown
    cases hown
    obtain ⟨own, behind, hown, hrest, rfl⟩ := rowsFrom_cons_eq_ok hbehind
    cases hown
    have hinner : k + (.loopOpen number loop :: inside).length = k + 1 + inside.length := by
      rw [List.length_cons]
      omega
    have htotal : k + (.loopOpen number loop :: inside ++ .loopClose number loop :: rest).length =
        k + 1 + inside.length + 1 + rest.length := by
      rw [List.length_append, List.length_cons, List.length_cons]
      omega
    -- one level deeper inside of the loop, and back again where it is closed
    rw [hinner] at hrest
    rw [htotal, hinner, List.append_assoc, hbefore, List.singleton_append, List.cons_append,
      Row.depthBehind?, Row.depthBehind?_append, Nat.add_assoc _ loops 1, ihinside hinside,
      Option.bind_some, hbefore, List.singleton_append, Row.depthBehind?, if_pos (by omega),
      ← Nat.add_assoc _ loops 1, Nat.add_sub_cancel, ihrest hrest]

end Outline

/-! ### Scopes and rows of a whole method -/

theorem Row.labelDepth_zero (scopes : List Scope) : Row.labelDepth scopes 0 = 0 := by
  simp [Row.labelDepth]

/-- Behind all scopes none is open. -/
theorem Row.labelDepth_eq_zero {scopes : List Scope} {k : Nat}
    (h : ∀ s ∈ scopes, s.closeAt < k) : Row.labelDepth scopes k = 0 := by
  have hall : scopes.countP (·.closeAt < k) = scopes.length :=
    List.countP_eq_length.mpr fun s hs => decide_eq_true (h s hs)
  rw [labelDepth, hall]
  exact Nat.sub_eq_zero_of_le List.countP_le_length

namespace Outline.Lawful

variable {o : Outline} (ho : o.Lawful)
include ho

/-- **The rows of a method match**: the depth keeps to 1 or more, and is 1 at the end. -/
theorem depthBehind?_rowsFrom {items : List Item} {n : Nesting} {options : Options}
    {lines : List (List (Option String))} {rows : List Row} (hitems : o.items = .ok items)
    (hnest : o.nest items = .ok n)
    (hrows : o.rowsFrom options lines n.closed 0 items = .ok rows) :
    Row.depthBehind? 1 rows = some 1 := by
  have hnested := ho.nested_of_nest hitems hnest
  obtain ⟨_, hemits⟩ := emits_of_items hitems
  have hlabels : ∀ s ∈ n.closed, s.IsLabel := fun s hs => (hnested.closed_spec s hs).2.1
  have horder : ∀ s ∈ n.closed, s.openAt < s.closeAt := fun s hs => (hnested.closed_spec s hs).1.1
  have hend : ∀ s ∈ n.closed, s.closeAt < items.length := by
    intro s hs
    obtain ⟨-, hlabel, hlt⟩ := hnested.closed_spec s hs
    rw [hlabel.closes_eq] at hlt
    omega
  have hdepth := depthBehind?_of_bracketed hemits.bracketed hlabels horder hrows 0
  rwa [Row.labelDepth_zero, Nat.zero_add, Row.labelDepth_eq_zero hend] at hdepth

end Outline.Lawful

/-- **Scopes are well nested and always closed.** The visit of a method's items never finds another
scope than the loop itself at the end of a loop. Where it comes to an end and the body is written,
all labelled scopes have been closed, each once and before the block with its label; scopes are
apart or nested, and have names of their own; every jump stands in the scope it names; and the depth
of the rows keeps to 1 or more, and is 1 at the end. -/
theorem scopes_well_nested {c : Code} {pool : Pool} {o : Outline}
    (houtline : c.outline pool = .ok o) :
    (∀ items k m number loop, o.items = .ok items →
      o.visitFrom items 0 (items.take k) ⟨[], [], []⟩ = .ok m →
      items[k]? = some (.loopClose number loop) →
      ∃ outer, o.visit items k (.loopClose number loop) (m.closeBefore k).opened =
        .ok (outer, none)) ∧
    ∀ options lines text, o.body options lines = .ok text →
      ∃ items n rows, o.items = .ok items ∧ o.nest items = .ok n ∧
        o.rows options lines = .ok rows ∧ n.WellNested o items ∧
        Row.depthBehind? 1 rows = some 1 ∧
        ∀ above below, rows = above ++ below → ∃ depth, 1 ≤ depth ∧
          Row.depthBehind? 1 above = some depth ∧
          Row.layout 1 rows = Row.layout 1 above ++ Row.layout depth below := by
  have ho := Code.lawful_of_outline houtline
  constructor
  · intro items k m number loop hitems hm hk
    have hsound := ho.sound_of_visitFrom hitems hm
    obtain ⟨hlt, -⟩ := List.getElem?_eq_some_iff.mp hk
    rw [List.length_take, Nat.min_eq_left (Nat.le_of_lt hlt)] at hsound
    obtain ⟨openAt, outer, heq⟩ := hsound.nested.closeBefore.exists_top ho hitems hk
    exact ⟨outer, by rw [heq, Outline.visit]; simp⟩
  · intro options lines text hbody
    obtain ⟨rows, hrows, -⟩ := Result.bind_eq_ok.mp hbody
    obtain ⟨items, hitems, h⟩ := Result.bind_eq_ok.mp hrows
    obtain ⟨n, hnest, hfrom⟩ := Result.bind_eq_ok.mp h
    have hdepth := ho.depthBehind?_rowsFrom hitems hnest hfrom
    refine ⟨items, n, rows, hitems, hnest, hrows, ho.wellNested hitems hnest, hdepth, ?_⟩
    rintro above below rfl
    rw [Row.depthBehind?_append] at hdepth
    obtain ⟨depth, habove, -⟩ := Option.bind_eq_some_iff.mp hdepth
    exact ⟨depth, Row.one_le_of_depthBehind? (Nat.le_refl 1) habove, habove,
      Row.layout_append habove⟩

/-- A `while` loop with a conditional in it: the jump over the conditional breaks out of a scope. -/
theorem scopes_well_nested_of_conditional_in_loop :
    ∃ o lines text items n,
      (Code.ofParts 1 2 [0xa7, 0, 13, 0x1a, 0x99, 0, 6, 0x84, 0, 1, 0x84, 1, 1, 0x1a, 0x9a, 0xff,
        0xf5, 0xb1] [] []).outline ⟨#[]⟩ = .ok o ∧
      (o.blocks.map fun b => b.stop - b.start) = lines.map List.length ∧
      Outline.body o {} lines = .ok text ∧ o.items = .ok items ∧ o.nest items = .ok n ∧
      n.WellNested o items := by
  obtain ⟨lines, hok⟩ : ∃ lines, ((Code.ofParts 1 2 [0xa7, 0, 13, 0x1a, 0x99, 0, 6, 0x84, 0, 1,
      0x84, 1, 1, 0x1a, 0x9a, 0xff, 0xf5, 0xb1] [] []).outline ⟨#[]⟩ >>= fun o =>
        o.body {} lines >>= fun _ => .ok (o.blocks.map fun b => b.stop - b.start)) =
      .ok (lines.map List.length) := by
    refine ⟨[[some "goto L5;"], [none, some "if(arg0 == 0) \x7b goto L4; \x7d"],
      [some "arg0++;"], [some "arg1++;"], [none, some "if(arg0 != 0) \x7b goto L2; \x7d"],
      [some "return;"]], ?_⟩
    decide +kernel
  obtain ⟨o, houtline, h⟩ := Result.bind_eq_ok.mp hok
  obtain ⟨text, hbody, hshape⟩ := Result.bind_eq_ok.mp h
  obtain ⟨items, n, -, hitems, hnest, -, hnested, -⟩ :=
    (scopes_well_nested houtline).2 {} lines text hbody
  exact ⟨o, lines, text, items, n, houtline, Except.ok.inj hshape, hbody, hitems, hnest, hnested⟩

end JvmSource
