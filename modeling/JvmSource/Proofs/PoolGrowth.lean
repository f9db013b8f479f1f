import JvmSource.Proofs.Result
import JvmSource.Reference

/-!
# Growing a constant pool

A pool is built by any number of operations, one behind the other (`Pool.Addition`, `Pool.after`).
No operation moves an entry, so what has been found at an index is found there in every later pool
(`Pool.GrowsTo`). An operation that adds several entries refers from the later ones to the earlier
ones by indices; these stay right for the same reason.

So what is stated of an operation is not only about the pool right behind it, but about all pools
that are grown from that one (`Pool.Adds`). A law for a sequence of operations follows from the laws
for its parts (`Pool.Adds.bind`): the pool behind the second operation is one of the later pools of
the first. The index that an addition returns stands for what was added, in every later pool that
two-byte indices can address (`Pool.Addition.adds_perform`).

Texts are shared: one that is in the pool already is found and not added again. A pool without a
text that is there twice stays such a pool (`Pool.KeepsDistinct`), unless a text is pushed as it is.
Together: `additions_stay_resolved`.
-/

namespace JvmSource

namespace Pool

variable {pool later : Pool} {index : UInt16}

/-! ### Entries of a pool that has grown -/

/-- Every entry of the pool is in the later pool, at the same place. More entries may follow. -/
def GrowsTo (pool later : Pool) : Prop :=
  ∀ (i : Nat) (c : Constant), pool.entries[i]? = some c → later.entries[i]? = some c

theorem GrowsTo.refl (pool : Pool) : pool.GrowsTo pool :=
  fun _ _ h => h

theorem GrowsTo.trans {mid : Pool} (h : pool.GrowsTo mid) (h' : mid.GrowsTo later) :
    pool.GrowsTo later :=
  fun i c hi => h' i c (h i c hi)

theorem GrowsTo.size_le (h : pool.GrowsTo later) : pool.size ≤ later.size := by
  by_contra hlt
  have hlast : later.size < pool.entries.size := Nat.lt_of_not_le hlt
  have hsome := h later.size _ (Array.getElem?_eq_getElem hlast)
  exact absurd (Array.getElem?_eq_some_iff.mp hsome).1 (Nat.lt_irrefl _)

/-- What is found at an index, in terms of entries: indices start at 1. -/
theorem get_eq_ok {c : Constant} :
    pool.get index = .ok c ↔ index ≠ 0 ∧ pool.entries[index.toNat - 1]? = some c := by
  rw [get, get?]
  by_cases hzero : index = 0
  · simp [hzero]
  · rw [if_neg hzero]
    cases pool.entries[index.toNat - 1]? <;> simp [hzero]

/-- What is found at an index is found there later. -/
theorem GrowsTo.get (h : pool.GrowsTo later) {c : Constant} (hc : pool.get index = .ok c) :
    later.get index = .ok c := by
  rw [get_eq_ok] at hc ⊢
  exact ⟨hc.1, h _ _ hc.2⟩

/-- The entry at a place that a two-byte index can address. -/
theorem get_ofNat {i : Nat} {c : Constant} (hi : pool.entries[i]? = some c)
    (hsize : pool.size < UInt16.size) : pool.get (UInt16.ofNat (i + 1)) = .ok c := by
  have hlt : i < pool.size := (Array.getElem?_eq_some_iff.mp hi).1
  have htoNat : (UInt16.ofNat (i + 1)).toNat = i + 1 := UInt16.toNat_ofNat_of_lt' (by omega)
  refine get_eq_ok.mpr ⟨fun hzero => ?_, ?_⟩
  · rw [hzero] at htoNat
    exact absurd htoNat.symm (Nat.succ_ne_zero i)
  · rwa [htoNat, Nat.add_sub_cancel]

/-! ### Laws for operations -/

/-- The operation moves no entry, and it returns an index for which `p` holds in every later pool
that two-byte indices can address. -/
structure Adds (op : StateM Pool UInt16) (p : Pool → UInt16 → Prop) : Prop where
  growsTo : ∀ pool : Pool, pool.GrowsTo (op.run pool).2
  later : ∀ pool later : Pool, (op.run pool).2.GrowsTo later → later.size < UInt16.size →
    p later (op.run pool).1

/-- **Two operations in sequence**: the pool behind the second is one of the later pools of the
first. -/
theorem Adds.bind {op : StateM Pool UInt16} {f : UInt16 → StateM Pool UInt16}
    {p : Pool → UInt16 → Prop} {q : UInt16 → Pool → UInt16 → Prop} (h : Adds op p)
    (hf : ∀ i, Adds (f i) (q i)) : Adds (op >>= f) fun later j => ∃ i, p later i ∧ q i later j where
  growsTo pool := (h.growsTo pool).trans ((hf _).growsTo _)
  later pool later hgrows hsize := by
    refine ⟨(op.run pool).1, h.later pool later ?_ hsize, (hf _).later _ later hgrows hsize⟩
    exact ((hf _).growsTo _).trans hgrows

theorem Adds.imp {op : StateM Pool UInt16} {p q : Pool → UInt16 → Prop} (h : Adds op p)
    (hpq : ∀ later i, p later i → q later i) : Adds op q where
  growsTo := h.growsTo
  later pool later hgrows hsize := hpq later _ (h.later pool later hgrows hsize)

/-- The entries behind a push. -/
theorem entries_push (c : Constant) (pool : Pool) :
    ((push c).run pool).2.entries =
      pool.entries ++ if c.isWide then #[c, .unusable] else #[c] := by
  change (if c.isWide then (pool.entries.push c).push .unusable else pool.entries.push c) = _
  split
  · rw [Array.push_eq_append, Array.push_eq_append, Array.append_assoc]
    rfl
  · exact Array.push_eq_append

/-- A constant that is pushed stands at the returned index; a wide one takes the next index
along. -/
theorem adds_push (c : Constant) :
    Adds (push c) fun later i =>
      later.get i = .ok c ∧ (c.isWide = true → later.get (i + 1) = .ok .unusable) where
  growsTo pool i d hd := by
    have hlt := (Array.getElem?_eq_some_iff.mp hd).1
    rw [entries_push, Array.getElem?_append_left hlt, hd]
  later pool later hgrows hsize := by
    have hindex : ((push c).run pool).1 = UInt16.ofNat (pool.size + 1) := by
      change UInt16.ofNat (pool.entries.push c).size = _
      rw [Array.size_push, size]
    have hfirst : later.entries[pool.size]? = some c := by
      refine hgrows _ _ ?_
      rw [entries_push, size, Array.getElem?_append_right (Nat.le_refl _)]
      split <;> simp
    rw [hindex]
    refine ⟨get_ofNat hfirst hsize, fun hwide => ?_⟩
    -- a wide constant is pushed together with the unusable entry behind it
    have hsecond : later.entries[pool.size + 1]? = some .unusable := by
      refine hgrows _ _ ?_
      rw [entries_push, if_pos hwide, size, Array.getElem?_append_right (Nat.le_succ _)]
      simp
    have hnext : UInt16.ofNat (pool.size + 1) + 1 = UInt16.ofNat (pool.size + 1 + 1) := by
      rw [UInt16.ofNat_add (pool.size + 1) 1]
      rfl
    rw [hnext]
    exact get_ofNat hsecond hsize

/-- A text that is there already is found where it first stands, and another one is pushed. -/
theorem run_addUtf8_cases (text : String) (pool : Pool) :
    (∃ position, pool.entries[position]? = some (.utf8 text) ∧
      (addUtf8 text).run pool = (UInt16.ofNat (position + 1), pool)) ∨
    (∀ c ∈ pool.entries, c ≠ .utf8 text) ∧
      (addUtf8 text).run pool = (push (.utf8 text)).run pool := by
  change (∃ position, _ ∧ addUtf8 text pool = _) ∨ _ ∧ addUtf8 text pool = push (.utf8 text) pool
  rw [addUtf8]
  cases hfind : pool.entries.findIdx? (· == .utf8 text) with
  | some position =>
    obtain ⟨hlt, hbeq, -⟩ := Array.findIdx?_eq_some_iff_getElem.mp hfind
    refine .inl ⟨position, ?_, rfl⟩
    rw [Array.getElem?_eq_getElem hlt, eq_of_beq hbeq]
  | none =>
    refine .inr ⟨fun c hc => ?_, rfl⟩
    simpa using Array.findIdx?_eq_none_iff.mp hfind c hc

/-- A text stands at the index that is returned for it, whether it was there or not. -/
theorem adds_addUtf8 (text : String) :
    Adds (addUtf8 text) fun later i => later.utf8 i = .ok text := by
  have hutf8 {later : Pool} {i : UInt16} (h : later.get i = .ok (.utf8 text)) :
      later.utf8 i = .ok text :=
    Result.bind_eq_ok.mpr ⟨_, h, rfl⟩
  have hpush := adds_push (.utf8 text)
  constructor
  · intro pool
    rcases run_addUtf8_cases text pool with ⟨position, -, hrun⟩ | ⟨-, hrun⟩
    · rw [hrun]
      exact .refl pool
    · rw [hrun]
      exact hpush.growsTo pool
  · intro pool later
    rcases run_addUtf8_cases text pool with ⟨position, hentry, hrun⟩ | ⟨-, hrun⟩
    · rw [hrun]
      intro hgrows hsize
      exact hutf8 (get_ofNat (hgrows _ _ hentry) hsize)
    · rw [hrun]
      intro hgrows hsize
      exact hutf8 (hpush.later pool later hgrows hsize).1

/-- The index of a class leads to its name. -/
theorem adds_addClass (name : String) :
    Adds (addClass name) fun later i => later.className i = .ok name := by
  refine ((adds_addUtf8 name).bind fun i => adds_push (.classRef i)).imp ?_
  rintro later index ⟨i, hname, hget, -⟩
  exact Result.bind_eq_ok.mpr ⟨_, hget, hname⟩

/-- The index of a string constant leads to its text. -/
theorem adds_addString (text : String) :
    Adds (addString text) fun later i =>
      ∃ j, later.get i = .ok (.string j) ∧ later.utf8 j = .ok text := by
  refine ((adds_addUtf8 text).bind fun i => adds_push (.string i)).imp ?_
  rintro later index ⟨i, htext, hget, -⟩
  exact ⟨i, hget, htext⟩

/-- The index of a name and a descriptor leads to both of them. -/
theorem adds_addNameAndType (name descriptor : String) :
    Adds (addNameAndType name descriptor) fun later i =>
      later.nameAndType i = .ok (name, descriptor) := by
  refine ((adds_addUtf8 name).bind fun i => (adds_addUtf8 descriptor).bind fun j =>
    adds_push (.nameAndType i j)).imp ?_
  rintro later index ⟨i, hname, j, hdescriptor, hget, -⟩
  refine Result.bind_eq_ok.mpr ⟨_, hget, ?_⟩
  refine Result.bind_eq_ok.mpr ⟨_, hname, ?_⟩
  exact Result.bind_eq_ok.mpr ⟨_, hdescriptor, rfl⟩

/-- A member refers to its class and to its name and descriptor, each by an index that stays
right. -/
theorem adds_addMember (reference : UInt16 → UInt16 → Constant) (owner name descriptor : String) :
    Adds (addMember reference owner name descriptor) fun later i =>
      ∃ j k, later.className j = .ok owner ∧ later.nameAndType k = .ok (name, descriptor) ∧
        later.get i = .ok (reference j k) := by
  refine ((adds_addClass owner).bind fun j => (adds_addNameAndType name descriptor).bind fun k =>
    adds_push (reference j k)).imp ?_
  rintro later index ⟨j, howner, k, hpair, hget, -⟩
  exact ⟨j, k, howner, hpair, hget⟩

theorem adds_addInvokeDynamic (bootstrap : UInt16) (name descriptor : String) :
    Adds (addInvokeDynamic bootstrap name descriptor) fun later i =>
      ∃ k, later.nameAndType k = .ok (name, descriptor) ∧
        later.get i = .ok (.invokeDynamic bootstrap k) := by
  refine ((adds_addNameAndType name descriptor).bind fun k =>
    adds_push (.invokeDynamic bootstrap k)).imp ?_
  rintro later index ⟨k, hpair, hget, -⟩
  exact ⟨k, hpair, hget⟩

/-! ### Decoding what was added -/

theorem methodOf_eq_ok {j k : UInt16} {owner name descriptor : String} {type : MethodTy}
    (howner : pool.className j = .ok owner) (hpair : pool.nameAndType k = .ok (name, descriptor))
    (htype : MethodTy.ofDescriptor descriptor = .ok type) :
    pool.methodOf j k = .ok { owner := Name.dotted owner, name, descriptor, type } := by
  refine Result.bind_eq_ok.mpr ⟨_, hpair, ?_⟩
  refine Result.bind_eq_ok.mpr ⟨_, htype, ?_⟩
  exact Result.bind_eq_ok.mpr ⟨_, howner, rfl⟩

/-! ### Sequences of operations -/

/-- An operation that adds to a pool: any constant as it is, or one that is made from texts together
with what it refers to. -/
inductive Addition where
  | push (c : Constant)
  | utf8 (text : String)
  | classRef (name : String)
  | string (text : String)
  | nameAndType (name descriptor : String)
  | fieldRef (owner name descriptor : String)
  | methodRef (owner name descriptor : String)
  | interfaceMethodRef (owner name descriptor : String)
  | invokeDynamic (bootstrap : UInt16) (name descriptor : String)
  deriving DecidableEq

namespace Addition

/-- Performs the operation and returns the index of what it added. -/
def perform : Addition → StateM Pool UInt16
  | push c => Pool.push c
  | utf8 text => addUtf8 text
  | classRef name => addClass name
  | string text => addString text
  | nameAndType name descriptor => addNameAndType name descriptor
  | fieldRef owner name descriptor => addFieldRef owner name descriptor
  | methodRef owner name descriptor => addMethodRef owner name descriptor
  | interfaceMethodRef owner name descriptor => addInterfaceMethodRef owner name descriptor
  | invokeDynamic bootstrap name descriptor => addInvokeDynamic bootstrap name descriptor

/-- The index stands for what the operation added. A reference can be decoded if its descriptor can
be read. -/
def Resolves (pool : Pool) (index : UInt16) : Addition → Prop
  | push c => pool.get index = .ok c ∧ (c.isWide = true → pool.get (index + 1) = .ok .unusable)
  | utf8 text => pool.utf8 index = .ok text
  | classRef name => pool.className index = .ok name
  | string text => ∃ i, pool.get index = .ok (.string i) ∧ pool.utf8 i = .ok text
  | nameAndType name descriptor => pool.nameAndType index = .ok (name, descriptor)
  | fieldRef owner name descriptor => ∀ type, Ty.ofDescriptor descriptor = .ok type →
    pool.fieldRef index = .ok { owner := Name.display owner, name, type }
  | methodRef owner name descriptor => ∀ type, MethodTy.ofDescriptor descriptor = .ok type →
    pool.methodRef index = .ok { owner := Name.dotted owner, name, descriptor, type }
  | interfaceMethodRef owner name descriptor =>
    ∀ type, MethodTy.ofDescriptor descriptor = .ok type →
    pool.methodRef index = .ok { owner := Name.dotted owner, name, descriptor, type } ∧
    pool.interfaceMethodRef index = .ok { owner := Name.dotted owner, name, descriptor, type }
  | invokeDynamic _ name descriptor => ∀ type, MethodTy.ofDescriptor descriptor = .ok type →
    pool.callSite index = .ok { owner := "", name, descriptor, type }

/-- **One operation**: its index stands for what it added, in every later pool. -/
theorem adds_perform (op : Addition) : Adds op.perform fun later i => op.Resolves later i := by
  cases op with
  | push c => exact adds_push c
  | utf8 text => exact adds_addUtf8 text
  | classRef name => exact adds_addClass name
  | string text => exact adds_addString text
  | nameAndType name descriptor => exact adds_addNameAndType name descriptor
  -- a reference resolves through its owner, its name and its type, which are entries of their own
  | fieldRef owner name descriptor =>
    refine (adds_addMember .fieldRef owner name descriptor).imp ?_
    rintro later i ⟨j, k, howner, hpair, hget⟩ type htype
    refine Result.bind_eq_ok.mpr ⟨_, hget, ?_⟩
    refine Result.bind_eq_ok.mpr ⟨_, hpair, ?_⟩
    refine Result.bind_eq_ok.mpr ⟨_, howner, ?_⟩
    exact Result.bind_eq_ok.mpr ⟨_, htype, rfl⟩
  | methodRef owner name descriptor =>
    refine (adds_addMember .methodRef owner name descriptor).imp ?_
    rintro later i ⟨j, k, howner, hpair, hget⟩ type htype
    exact Result.bind_eq_ok.mpr ⟨_, hget, methodOf_eq_ok howner hpair htype⟩
  | interfaceMethodRef owner name descriptor =>
    refine (adds_addMember .interfaceMethodRef owner name descriptor).imp ?_
    rintro later i ⟨j, k, howner, hpair, hget⟩ type htype
    have hmethod := methodOf_eq_ok howner hpair htype
    exact ⟨Result.bind_eq_ok.mpr ⟨_, hget, hmethod⟩, Result.bind_eq_ok.mpr ⟨_, hget, hmethod⟩⟩
  | invokeDynamic bootstrap name descriptor =>
    refine (adds_addInvokeDynamic bootstrap name descriptor).imp ?_
    rintro later i ⟨k, hpair, hget⟩ type htype
    refine Result.bind_eq_ok.mpr ⟨_, hget, ?_⟩
    refine Result.bind_eq_ok.mpr ⟨_, hpair, ?_⟩
    exact Result.bind_eq_ok.mpr ⟨_, htype, rfl⟩

end Addition

/-- The pool behind some operations, performed one after the other. -/
def after (pool : Pool) (ops : List Addition) : Pool :=
  ops.foldl (fun pool op => (op.perform.run pool).2) pool

theorem after_append (pool : Pool) (ops ops' : List Addition) :
    pool.after (ops ++ ops') = (pool.after ops).after ops' :=
  List.foldl_append

theorem growsTo_after (pool : Pool) (ops : List Addition) : pool.GrowsTo (pool.after ops) := by
  induction ops generalizing pool with
  | nil => exact .refl pool
  | cons op ops ih => exact (op.adds_perform.growsTo pool).trans (ih _)

/-- Of the pools along a sequence of operations, the later ones are grown from the earlier ones. -/
theorem growsTo_take (pool : Pool) (ops : List Addition) {j k : Nat} (h : j ≤ k) :
    (pool.after (ops.take j)).GrowsTo (pool.after (ops.take k)) := by
  obtain ⟨d, rfl⟩ := Nat.exists_eq_add_of_le h
  rw [List.take_add, after_append]
  exact growsTo_after _ _

theorem after_take_succ (pool : Pool) {ops : List Addition} {j : Nat} {op : Addition}
    (h : ops[j]? = some op) :
    pool.after (ops.take (j + 1)) = (op.perform.run (pool.after (ops.take j))).2 := by
  rw [List.take_add_one, h, after_append]
  rfl

theorem size_take_lt {ops : List Addition} (h : (pool.after ops).size < UInt16.size) (k : Nat) :
    (pool.after (ops.take k)).size < UInt16.size := by
  refine Nat.lt_of_le_of_lt (GrowsTo.size_le ?_) h
  nth_rewrite 2 [← List.take_append_drop k ops]
  rw [after_append]
  exact growsTo_after _ _

/-! ### Shared texts -/

/-- No two entries are the same text. Other constants may be there several times. -/
def Distinct (pool : Pool) : Prop :=
  ∀ (i j : Nat) (text : String), pool.entries[i]? = some (.utf8 text) →
    pool.entries[j]? = some (.utf8 text) → i = j

/-- The operation adds no text that the pool has already. -/
def KeepsDistinct (op : StateM Pool UInt16) : Prop :=
  ∀ pool : Pool, pool.Distinct → (op.run pool).2.Distinct

/-- Two operations in sequence add no text twice, if neither of them does. -/
theorem KeepsDistinct.bind {op : StateM Pool UInt16} {f : UInt16 → StateM Pool UInt16}
    (h : KeepsDistinct op) (hf : ∀ i, KeepsDistinct (f i)) : KeepsDistinct (op >>= f) :=
  fun pool hpool => hf _ _ (h pool hpool)

/-- A text behind a push is one from before, or the constant that was pushed. -/
theorem eq_of_push_utf8 {c : Constant} {i : Nat} {text : String}
    (h : ((push c).run pool).2.entries[i]? = some (.utf8 text)) :
    pool.entries[i]? = some (.utf8 text) ∨ i = pool.size ∧ c = .utf8 text := by
  rw [entries_push] at h
  rcases Nat.lt_or_ge i pool.entries.size with hlt | hge
  · rw [Array.getElem?_append_left hlt] at h
    exact .inl h
  · rw [Array.getElem?_append_right hge] at h
    obtain ⟨n, rfl⟩ := Nat.exists_eq_add_of_le hge
    rw [Nat.add_sub_cancel_left] at h
    -- behind the first new entry there is at most an unusable one
    rcases n with _ | _ | n
    · refine .inr ⟨rfl, ?_⟩
      split at h <;> simpa using h
    · split at h <;> simp at h
    · split at h <;> simp at h

/-- A constant may be pushed if it is not a text that is there. -/
theorem Distinct.push (h : pool.Distinct) {c : Constant}
    (hnew : ∀ (text : String) (i : Nat), c = .utf8 text → pool.entries[i]? ≠ some (.utf8 text)) :
    ((push c).run pool).2.Distinct := by
  intro i j text hi hj
  rcases eq_of_push_utf8 hi with hi | ⟨rfl, hc⟩
  · rcases eq_of_push_utf8 hj with hj | ⟨rfl, hc⟩
    · exact h i j text hi hj
    · exact absurd hi (hnew text i hc)
  · rcases eq_of_push_utf8 hj with hj | ⟨rfl, -⟩
    · exact absurd hj (hnew text j hc)
    · rfl

theorem keepsDistinct_push {c : Constant} (h : ∀ text, c ≠ .utf8 text) : KeepsDistinct (push c) :=
  fun _ hpool => hpool.push fun text _ hc => absurd hc (h text)

/-- A text is pushed only if it is not there. -/
theorem keepsDistinct_addUtf8 (text : String) : KeepsDistinct (addUtf8 text) := by
  intro pool hpool
  rcases run_addUtf8_cases text pool with ⟨position, -, hrun⟩ | ⟨hnew, hrun⟩
  · rw [hrun]
    exact hpool
  · rw [hrun]
    refine hpool.push fun other i hother hi => ?_
    obtain rfl := Constant.utf8.inj hother
    exact hnew _ (Array.mem_of_getElem? hi) rfl

theorem keepsDistinct_addNameAndType (name descriptor : String) :
    KeepsDistinct (addNameAndType name descriptor) :=
  (keepsDistinct_addUtf8 name).bind fun i => (keepsDistinct_addUtf8 descriptor).bind fun j =>
    keepsDistinct_push (c := .nameAndType i j) nofun

theorem keepsDistinct_addMember (reference : UInt16 → UInt16 → Constant)
    (h : ∀ i j text, reference i j ≠ .utf8 text) (owner name descriptor : String) :
    KeepsDistinct (addMember reference owner name descriptor) :=
  ((keepsDistinct_addUtf8 owner).bind fun i => keepsDistinct_push (c := .classRef i) nofun).bind
    fun j => (keepsDistinct_addNameAndType name descriptor).bind fun k => keepsDistinct_push (h j k)

/-- **Texts stay distinct**, unless one is pushed as it is. -/
theorem Addition.keepsDistinct_perform {op : Addition} (h : ∀ text, op ≠ push (.utf8 text)) :
    KeepsDistinct op.perform := by
  cases op with
  | push c => exact keepsDistinct_push fun text hc => h text (congrArg push hc)
  | utf8 text => exact keepsDistinct_addUtf8 text
  | classRef name =>
    exact (keepsDistinct_addUtf8 name).bind fun i => keepsDistinct_push (c := .classRef i) nofun
  | string text =>
    exact (keepsDistinct_addUtf8 text).bind fun i => keepsDistinct_push (c := .string i) nofun
  | nameAndType name descriptor => exact keepsDistinct_addNameAndType name descriptor
  | fieldRef owner name descriptor =>
    exact keepsDistinct_addMember .fieldRef (fun _ _ _ => nofun) owner name descriptor
  | methodRef owner name descriptor =>
    exact keepsDistinct_addMember .methodRef (fun _ _ _ => nofun) owner name descriptor
  | interfaceMethodRef owner name descriptor =>
    exact keepsDistinct_addMember .interfaceMethodRef (fun _ _ _ => nofun) owner name descriptor
  | invokeDynamic bootstrap name descriptor =>
    exact (keepsDistinct_addNameAndType name descriptor).bind fun k =>
      keepsDistinct_push (c := .invokeDynamic bootstrap k) nofun

end Pool

/-- **What was added to a pool stays resolved.** Along any sequence of operations behind which the
pool can still be addressed by two-byte indices, every entry keeps its index; the index that an
operation returns stands for what was added in all pools behind it; and only a text that is pushed
as it is can be there twice. -/
theorem additions_stay_resolved (pool : Pool) (ops : List Pool.Addition)
    (h : (pool.after ops).size < UInt16.size) :
    (∀ j k : Nat, j ≤ k → ∀ index c, (pool.after (ops.take j)).get index = .ok c →
      (pool.after (ops.take k)).get index = .ok c) ∧
    (∀ (j : Nat) (op : Pool.Addition), ops[j]? = some op → ∀ k, j < k →
      op.Resolves (pool.after (ops.take k)) (op.perform.run (pool.after (ops.take j))).1) ∧
    ∀ (j : Nat) (op : Pool.Addition), ops[j]? = some op → (∀ text, op ≠ .push (.utf8 text)) →
      (pool.after (ops.take j)).Distinct → (pool.after (ops.take (j + 1))).Distinct := by
  refine ⟨fun j k hjk index c hget => ?_, fun j op hop k hjk => ?_,
    fun j op hop htext hdistinct => ?_⟩
  · exact (pool.growsTo_take ops hjk).get hget
  · have hgrows := pool.growsTo_take ops (Nat.succ_le_of_lt hjk)
    rw [Pool.after_take_succ pool hop] at hgrows
    exact op.adds_perform.later _ _ hgrows (Pool.size_take_lt h k)
  · rw [Pool.after_take_succ pool hop]
    exact Pool.Addition.keepsDistinct_perform htext _ hdistinct

/-- A wide number, a method of an interface and a text that is there, added to a pool that holds a
class. -/
theorem additions_stay_resolved_of_method :
    ∃ last : Pool, last = Pool.after ⟨#[.utf8 "A", .classRef 1]⟩
        [.push (.long 5), .interfaceMethodRef "A" "f" "(I)V", .utf8 "f"] ∧
      last.size < UInt16.size ∧ last.get 2 = .ok (.classRef 1) ∧ last.get 4 = .ok .unusable ∧
      last.methodRef 9 = .ok ⟨"A", "f", "(I)V", ⟨[.int], .void⟩⟩ ∧ last.utf8 6 = .ok "f" := by
  have hsize : Pool.size (Pool.after ⟨#[.utf8 "A", .classRef 1]⟩
      [.push (.long 5), .interfaceMethodRef "A" "f" "(I)V", .utf8 "f"]) = 9 := by
    decide +kernel
  have hlt := Nat.lt_of_le_of_lt (Nat.le_of_eq hsize) (show 9 < UInt16.size by decide)
  obtain ⟨hkeeps, hresolves, -⟩ := additions_stay_resolved _ _ hlt
  have hmethod := (hresolves 1 _ rfl 3 (by decide) ⟨[.int], .void⟩ (by decide +kernel)).1
  have htext := hresolves 2 _ rfl 3 (by decide)
  refine ⟨_, rfl, hlt, hkeeps 0 3 (by decide) 2 _ rfl,
    (hresolves 0 _ rfl 3 (by decide)).2 rfl, ?_, ?_⟩
  · have hindex : ((Pool.Addition.interfaceMethodRef "A" "f" "(I)V").perform.run
        (Pool.after ⟨#[.utf8 "A", .classRef 1]⟩ [.push (.long 5)])).1 = 9 := by
      decide +kernel
    exact hindex ▸ hmethod
  · have hindex : ((Pool.Addition.utf8 "f").perform.run (Pool.after ⟨#[.utf8 "A", .classRef 1]⟩
        [.push (.long 5), .interfaceMethodRef "A" "f" "(I)V"])).1 = 6 := by
      decide +kernel
    exact hindex ▸ htext

end JvmSource
