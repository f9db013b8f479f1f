import Mathlib.Data.List.Forall2
import JvmSource.Error

/-!
# Computations that may fail, read backwards

What is known of the parts of a computation that has given a result. A sequence of two steps is
opened by `Result.bind_eq_ok`, a loop over a list by `Result.mapM_eq_ok` or `Result.forM_eq_ok`. In
all of these the intermediate result is named, so a proof takes a computation apart step by step and
has the equation for each of the steps.

Two predicates speak of a computation without running it: what is known of all of its results is
`Result.GivesOnly`, and of all of its failures `Result.FailsOnly`. Both go through sequences, maps
and loops by `simp`. They are what invariants are stated with: that every result of an action keeps
the discipline of the stack is a `GivesOnly`, and that evaluation fails for some causes only is a
`FailsOnly`.

A computation that fails only so can have some of its steps exchanged: only where a step would fail
otherwise does it matter which step it is (`Result.bind_congr_of_failsOnly`). That is how two ways
of treating a failure are compared.
-/

namespace JvmSource

namespace Result

variable {α β : Type}

/-- A sequence of two steps gives a result exactly if the first step does, and the second one does
from there. -/
theorem bind_eq_ok {x : Result α} {f : α → Result β} {b : β} :
    x >>= f = .ok b ↔ ∃ a, x = .ok a ∧ f a = .ok b := by
  cases x with
  | error e => simp [bind, Except.bind]
  | ok a => simp [bind, Except.bind]

/-- A sequence of two steps has some result exactly if the first one has, and the second one from
there. -/
theorem exists_bind_eq_ok {x : Result α} {f : α → Result β} :
    (∃ b, x >>= f = .ok b) ↔ ∃ a, x = .ok a ∧ ∃ b, f a = .ok b := by
  simp only [bind_eq_ok]
  constructor
  · rintro ⟨b, a, ha, hb⟩
    exact ⟨a, ha, b, hb⟩
  · rintro ⟨a, ha, b, hb⟩
    exact ⟨b, a, ha, hb⟩

/-- A sequence of two steps fails where the first step does, or the second one from there. -/
theorem bind_eq_error {x : Result α} {f : α → Result β} {e : Error} :
    x >>= f = .error e ↔ x = .error e ∨ ∃ a, x = .ok a ∧ f a = .error e := by
  cases x with
  | error e => simp [bind, Except.bind]
  | ok a => simp [bind, Except.bind]

/-- `Result.bind_eq_ok` with a map for the second step: the map cannot fail. -/
theorem map_eq_ok {x : Result α} {f : α → β} {b : β} :
    f <$> x = .ok b ↔ ∃ a, x = .ok a ∧ f a = b := by
  cases x with
  | error e => simp [Functor.map, Except.map]
  | ok a => simp [Functor.map, Except.map]

/-- A map has a result exactly if what it is applied to has one. -/
theorem exists_map_eq_ok {x : Result α} {f : α → β} :
    (∃ b, f <$> x = .ok b) ↔ ∃ a, x = .ok a := by
  simp [map_eq_ok]

/-- A map fails exactly as what it is applied to does. -/
theorem map_eq_error {x : Result α} {f : α → β} {e : Error} :
    f <$> x = .error e ↔ x = .error e := by
  cases x with
  | error e => simp [Functor.map, Except.map]
  | ok a => simp [Functor.map, Except.map]

theorem pure_eq_ok {a b : α} : (pure a : Result α) = .ok b ↔ a = b := by
  simp [pure, Except.pure]

theorem exists_of_isOk {x : Result α} (h : x.isOk = true) : ∃ a, x = .ok a := by
  cases x with
  | error e => simp [Except.isOk, Except.toBool] at h
  | ok a => exact ⟨a, rfl⟩

/-- A loop that collects results has one for each element, in the same order. -/
theorem mapM_eq_ok {f : α → Result β} {xs : List α} {ys : List β} :
    xs.mapM f = .ok ys ↔ List.Forall₂ (fun x y => f x = .ok y) xs ys := by
  induction xs generalizing ys with
  | nil =>
    rw [List.mapM_nil, pure_eq_ok, List.forall₂_nil_left_iff, eq_comm]
  | cons x xs ih =>
    rw [List.mapM_cons, bind_eq_ok, List.forall₂_cons_left_iff]
    constructor
    · rintro ⟨y, hy, h⟩
      obtain ⟨rest, hrest, h⟩ := bind_eq_ok.mp h
      exact ⟨y, rest, hy, ih.mp hrest, (pure_eq_ok.mp h).symm⟩
    · rintro ⟨y, rest, hy, hrest, rfl⟩
      exact ⟨y, hy, bind_eq_ok.mpr ⟨rest, ih.mpr hrest, rfl⟩⟩

/-- Every collected result is the result of an element. -/
theorem exists_of_mem_mapM {f : α → Result β} {xs : List α} {ys : List β}
    (h : xs.mapM f = .ok ys) {y : β} (hy : y ∈ ys) : ∃ x ∈ xs, f x = .ok y := by
  induction mapM_eq_ok.mp h with
  | nil => simp at hy
  | cons hx hrest ih =>
    rcases List.mem_cons.mp hy with rfl | hy
    · exact ⟨_, List.mem_cons_self, hx⟩
    · obtain ⟨x, hxs, hx⟩ := ih (mapM_eq_ok.mpr hrest) hy
      exact ⟨x, List.mem_cons_of_mem _ hxs, hx⟩

/-- The result of each element is collected. -/
theorem mem_of_mapM {f : α → Result β} {xs : List α} {ys : List β} (h : xs.mapM f = .ok ys) {x : α}
    {y : β} (hx : x ∈ xs) (hy : f x = .ok y) : y ∈ ys := by
  induction mapM_eq_ok.mp h with
  | nil => simp at hx
  | cons hfirst hrest ih =>
    rcases List.mem_cons.mp hx with rfl | hx
    · obtain rfl := Except.ok.inj (hfirst.symm.trans hy)
      exact List.mem_cons_self
    · exact List.mem_cons_of_mem _ (ih (mapM_eq_ok.mpr hrest) hx)

/-- A loop that succeeds does so at each element. -/
theorem exists_of_mem_of_mapM {f : α → Result β} {xs : List α} {ys : List β}
    (h : xs.mapM f = .ok ys) {x : α} (hx : x ∈ xs) : ∃ y, f x = .ok y := by
  induction mapM_eq_ok.mp h with
  | nil => simp at hx
  | cons hfirst hrest ih =>
    rcases List.mem_cons.mp hx with rfl | hx
    · exact ⟨_, hfirst⟩
    · exact ih (mapM_eq_ok.mpr hrest) hx

/-- A loop that succeeds at each element succeeds. -/
theorem exists_mapM_eq_ok {f : α → Result β} {xs : List α} (h : ∀ x ∈ xs, ∃ y, f x = .ok y) :
    ∃ ys, xs.mapM f = .ok ys := by
  induction xs with
  | nil => exact ⟨[], rfl⟩
  | cons x xs ih =>
    obtain ⟨⟨y, hy⟩, hrest⟩ := List.forall_mem_cons.mp h
    obtain ⟨ys, hys⟩ := ih hrest
    exact ⟨y :: ys, mapM_eq_ok.mpr (.cons hy (mapM_eq_ok.mp hys))⟩

/-- A loop that collects results succeeds exactly if it does at each element. -/
theorem exists_mapM_eq_ok_iff {f : α → Result β} {xs : List α} :
    (∃ ys, xs.mapM f = .ok ys) ↔ ∀ x ∈ xs, ∃ y, f x = .ok y :=
  ⟨fun ⟨_, h⟩ _ hx => exists_of_mem_of_mapM h hx, exists_mapM_eq_ok⟩

/-- A loop over elements at which `f` gives what `g` does is a map. -/
theorem mapM_eq_ok_map {f : α → Result β} {g : α → β} {xs : List α}
    (h : ∀ x ∈ xs, f x = .ok (g x)) : xs.mapM f = .ok (xs.map g) := by
  rw [mapM_eq_ok, List.forall₂_map_right_iff, List.forall₂_same]
  exact h

/-- A loop that collects results fails as its first element that fails. What comes behind that
element does not matter. -/
theorem mapM_eq_error {f : α → Result β} {xs : List α} {e : Error} :
    xs.mapM f = .error e ↔
      ∃ front x behind, xs = front ++ x :: behind ∧ (∀ y ∈ front, ∃ z, f y = .ok z) ∧
        f x = .error e := by
  induction xs with
  | nil => simp [pure, Except.pure]
  | cons x xs ih =>
    rw [List.mapM_cons, bind_eq_error]
    constructor
    · rintro (hx | ⟨y, hy, h⟩)
      · exact ⟨[], x, xs, rfl, by simp, hx⟩
      · rcases bind_eq_error.mp h with hrest | ⟨ys, -, h⟩
        · obtain ⟨front, z, behind, rfl, hfront, hz⟩ := ih.mp hrest
          exact ⟨x :: front, z, behind, rfl, List.forall_mem_cons.mpr ⟨⟨y, hy⟩, hfront⟩, hz⟩
        · cases h
    · rintro ⟨front, z, behind, heq, hfront, hz⟩
      cases front with
      | nil =>
        obtain ⟨rfl, rfl⟩ := List.cons.inj heq
        exact .inl hz
      | cons y front =>
        obtain ⟨rfl, rfl⟩ := List.cons.inj heq
        obtain ⟨⟨y', hy'⟩, hfront⟩ := List.forall_mem_cons.mp hfront
        have hrest := ih.mpr ⟨front, z, behind, rfl, hfront, hz⟩
        exact .inr ⟨y', hy', bind_eq_error.mpr (.inl hrest)⟩

/-- A loop of checks succeeds exactly if every check does. -/
theorem forM_eq_ok {f : α → Result Unit} {xs : List α} :
    xs.forM f = .ok () ↔ ∀ x ∈ xs, f x = .ok () := by
  induction xs with
  | nil => simp [pure, Except.pure]
  | cons x xs ih =>
    change (f x >>= fun _ => xs.forM f) = .ok () ↔ _
    rw [bind_eq_ok, List.forall_mem_cons, ← ih]
    constructor
    · rintro ⟨_, hx, h⟩
      exact ⟨hx, h⟩
    · rintro ⟨hx, h⟩
      exact ⟨(), hx, h⟩

/-- A fold whose steps keep an invariant and never fail has a result with the invariant. The step
may use that its element is one of the list. -/
theorem exists_foldlM_eq_ok {p : β → Prop} {f : β → α → Result β} {xs : List α}
    (h : ∀ x ∈ xs, ∀ b, p b → ∃ b', f b x = .ok b' ∧ p b') {b : β} (hb : p b) :
    ∃ b', xs.foldlM f b = .ok b' ∧ p b' := by
  induction xs generalizing b with
  | nil => exact ⟨b, rfl, hb⟩
  | cons x xs ih =>
    obtain ⟨hx, hxs⟩ := List.forall_mem_cons.mp h
    obtain ⟨next, hnext, hp⟩ := hx b hb
    obtain ⟨b', hb', hp'⟩ := ih hxs hp
    exact ⟨b', by rw [List.foldlM_cons]; exact bind_eq_ok.mpr ⟨next, hnext, hb'⟩, hp'⟩

/-! ### Results -/

/-- Every result of the computation satisfies `p`. A computation that fails satisfies this for any
`p`. -/
def GivesOnly (p : α → Prop) (x : Result α) : Prop :=
  ∀ a, x = .ok a → p a

section GivesOnly

variable {p : β → Prop}

@[simp] theorem givesOnly_ok {b : β} : GivesOnly p (.ok b) ↔ p b := by
  simp [GivesOnly]

@[simp] theorem givesOnly_pure {b : β} : GivesOnly p (pure b) ↔ p b :=
  givesOnly_ok

@[simp] theorem givesOnly_error (e : Error) : GivesOnly p (.error e) :=
  fun _ h => nomatch h

@[simp] theorem givesOnly_bind {x : Result α} {f : α → Result β} :
    GivesOnly p (x >>= f) ↔ ∀ a, x = .ok a → GivesOnly p (f a) := by
  cases x with
  | error e => simp [GivesOnly, bind_eq_ok]
  | ok a => simp [GivesOnly, bind_eq_ok]

@[simp] theorem givesOnly_map {x : Result α} {f : α → β} :
    GivesOnly p (f <$> x) ↔ ∀ a, x = .ok a → p (f a) := by
  simp [GivesOnly, map_eq_ok]

end GivesOnly

/-! ### Failures -/

/-- Every failure of the computation satisfies `p`. A computation that succeeds satisfies this for
any `p`. -/
def FailsOnly (p : Error → Prop) (x : Result α) : Prop :=
  ∀ e, x = .error e → p e

variable {p : Error → Prop}

@[simp] theorem failsOnly_ok (a : α) : FailsOnly p (.ok a : Result α) :=
  fun _ h => nomatch h

@[simp] theorem failsOnly_pure (a : α) : FailsOnly p (pure a : Result α) :=
  failsOnly_ok a

@[simp] theorem failsOnly_error {e : Error} : FailsOnly p (.error e : Result α) ↔ p e := by
  simp [FailsOnly]

/-- A sequence whose first step fails only so fails only so if the second step does. -/
@[simp] theorem failsOnly_bind {x : Result α} {f : α → Result β} (hx : FailsOnly p x) :
    FailsOnly p (x >>= f) ↔ ∀ a, x = .ok a → FailsOnly p (f a) := by
  constructor
  · intro h a ha e he
    exact h e (bind_eq_error.mpr (.inr ⟨a, ha, he⟩))
  · intro h e he
    rcases bind_eq_error.mp he with he | ⟨a, ha, he⟩
    · exact hx e he
    · exact h a ha e he

/-- The first step of a sequence that fails only so fails only so itself. -/
theorem failsOnly_of_bind {x : Result α} {f : α → Result β} (h : FailsOnly p (x >>= f)) :
    FailsOnly p x :=
  fun e he => h e (bind_eq_error.mpr (.inl he))

/-- Second steps may be exchanged for each other where they agree, if the sequence fails only so.
They need to agree only where the step that is exchanged fails in the allowed way, or not at all. -/
theorem bind_congr_of_failsOnly {x : Result α} {f g : α → Result β} (h : FailsOnly p (x >>= f))
    (hfg : ∀ a, x = .ok a → FailsOnly p (f a) → g a = f a) : x >>= g = x >>= f := by
  cases x with
  | error e => rfl
  | ok a => exact hfg a rfl h

@[simp] theorem failsOnly_map {x : Result α} {f : α → β} :
    FailsOnly p (f <$> x) ↔ FailsOnly p x := by
  cases x with
  | error e => exact (failsOnly_error (e := e)).trans failsOnly_error.symm
  | ok a => exact iff_of_true (failsOnly_ok (f a)) (failsOnly_ok a)

@[simp] theorem failsOnly_mapM {f : α → Result β} {xs : List α} (h : ∀ x ∈ xs, FailsOnly p (f x)) :
    FailsOnly p (xs.mapM f) := by
  induction xs with
  | nil => simp
  | cons x xs ih =>
    obtain ⟨hx, hxs⟩ := List.forall_mem_cons.mp h
    have hrest := ih hxs
    simp [List.mapM_cons, hx, hrest]

@[simp] theorem failsOnly_forM {f : α → Result Unit} {xs : List α}
    (h : ∀ x ∈ xs, FailsOnly p (f x)) : FailsOnly p (forM xs f) := by
  induction xs with
  | nil => exact failsOnly_ok ()
  | cons x xs ih =>
    obtain ⟨hx, hxs⟩ := List.forall_mem_cons.mp h
    have hrest := ih hxs
    simp [List.forM_cons, hx, hrest]

@[simp] theorem failsOnly_foldlM {f : β → α → Result β} {xs : List α}
    (h : ∀ x ∈ xs, ∀ b, FailsOnly p (f b x)) (b : β) : FailsOnly p (xs.foldlM f b) := by
  induction xs generalizing b with
  | nil => exact failsOnly_ok b
  | cons x xs ih =>
    obtain ⟨hx, hxs⟩ := List.forall_mem_cons.mp h
    have hrest := ih hxs
    simp [List.foldlM_cons, hx, hrest]

end Result

end JvmSource
