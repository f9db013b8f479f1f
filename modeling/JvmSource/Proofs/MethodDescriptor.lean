import JvmSource.Proofs.Descriptor

/-!
# Method descriptors and closing parentheses

A method descriptor can be taken apart in only one way (`MethodTy.eq_of_descriptor_eq`): the types
of its arguments are read off the front one by one, and no type begins with a closing parenthesis,
so the parenthesis behind the last one is recognized where it stands.

The reader does not go this way. It cuts the text at the first closing parenthesis, and a class may
have one in its name. So it reads exactly the descriptors of method types without such a class among
the arguments (`MethodTy.parse?_eq_some_iff`), while a class of the result may have any name. A
method type with such an argument has a descriptor, and each of its types can be read by itself, but
the method descriptor is refused (`method_descriptors_accepted`).
-/

namespace JvmSource

namespace Ty

/-! ### Runs of descriptors -/

/-- No type begins with a closing parenthesis. -/
theorem descriptor_ne_paren_cons {t : Ty} (h : t.WellFormed) (rest cs : List Char) :
    t.descriptor ++ rest ≠ ')' :: cs := by
  intro heq
  have hread := parseFront?_descriptor h rest
  rw [heq] at hread
  cases hread

/-- **A run of descriptors** up to a closing parenthesis is that of one list of types. The induction
is on one of the lists; the first types agree because each is read off the front. -/
theorem eq_of_flatMap_descriptor_paren {ts ts' : List Ty} {cs cs' : List Char}
    (hwell : ∀ t ∈ ts, t.WellFormed) (hwell' : ∀ t ∈ ts', t.WellFormed)
    (h : ts.flatMap descriptor ++ ')' :: cs = ts'.flatMap descriptor ++ ')' :: cs') :
    ts = ts' ∧ cs = cs' := by
  induction ts generalizing ts' with
  | nil =>
    cases ts' with
    | nil => exact ⟨rfl, (List.cons.inj h).2⟩
    | cons t' ts' =>
      rw [List.flatMap_cons, List.append_assoc] at h
      exact absurd h.symm (descriptor_ne_paren_cons (hwell' t' List.mem_cons_self) _ _)
  | cons t ts ih =>
    obtain ⟨ht, hts⟩ := List.forall_mem_cons.mp hwell
    rw [List.flatMap_cons, List.append_assoc] at h
    cases ts' with
    | nil => exact absurd h (descriptor_ne_paren_cons ht _ _)
    | cons t' ts' =>
      obtain ⟨ht', hts'⟩ := List.forall_mem_cons.mp hwell'
      rw [List.flatMap_cons, List.append_assoc] at h
      -- both sides begin with the type that is read off the front
      have hread := parseFront?_descriptor ht (ts.flatMap descriptor ++ ')' :: cs)
      rw [h, parseFront?_descriptor ht'] at hread
      obtain ⟨rfl, hrest⟩ := Prod.mk.inj (Option.some.inj hread)
      obtain ⟨rfl, rfl⟩ := ih hts hts' hrest.symm
      exact ⟨rfl, rfl⟩

/-- Arguments are read back from their descriptors, if there is nothing behind them. -/
theorem parseArguments?_flatMap {ts : List Ty} (h : ∀ t ∈ ts, t.WellFormed ∧ t ≠ void) :
    parseArguments? (ts.flatMap descriptor) = some ts := by
  induction ts with
  | nil => rw [List.flatMap_nil, parseArguments?]
  | cons t ts ih =>
    obtain ⟨⟨hwell, hvoid⟩, hts⟩ := List.forall_mem_cons.mp h
    have hread := parseFront?_descriptor hwell (ts.flatMap descriptor)
    rw [List.flatMap_cons]
    generalize hcs : t.descriptor ++ ts.flatMap descriptor = cs at hread
    cases cs with
    | nil => cases hread
    | cons c cs =>
      rw [parseArguments?]
      split
      · next t' rest hread' =>
        obtain ⟨rfl, rfl⟩ := Prod.mk.inj (Option.some.inj (hread.symm.trans hread'))
        rw [if_neg hvoid, ih hts, Option.map_some]
      · next hnone =>
        rw [hread] at hnone
        cases hnone

/-- A closing parenthesis in a descriptor is one in the name of a class, which may be the elements
of an array. -/
theorem paren_mem_descriptor_iff {t : Ty} :
    ')' ∈ t.descriptor ↔ ∃ name, t.base = reference name ∧ ')' ∈ name.toList := by
  induction t with
  | reference name => simp [descriptor, base]
  | array element ih => simp [descriptor, ih]
  | _ => simp [descriptor, base]

end Ty

namespace MethodTy

/-- The method type has a descriptor: its types are well formed, and no argument is void. -/
structure WellFormed (m : MethodTy) : Prop where
  arguments : ∀ t ∈ m.arguments, t.WellFormed ∧ t ≠ .void
  result : m.result.WellFormed

/-- No class among the arguments has a closing parenthesis in its name. Then the first one in the
descriptor ends the arguments. -/
def ClosesOnce (m : MethodTy) : Prop :=
  ∀ t ∈ m.arguments, ∀ name, t.base = .reference name → ')' ∉ name.toList

theorem closesOnce_iff {m : MethodTy} :
    m.ClosesOnce ↔ ')' ∉ m.arguments.flatMap Ty.descriptor := by
  simp [ClosesOnce, List.mem_flatMap, Ty.paren_mem_descriptor_iff]

/-- **A method descriptor is that of one method type.** Nothing is asked of the names of classes
here. -/
theorem eq_of_descriptor_eq {m m' : MethodTy} (hm : m.WellFormed) (hm' : m'.WellFormed)
    (h : m.descriptor = m'.descriptor) : m = m' := by
  obtain ⟨harguments, hresult⟩ := Ty.eq_of_flatMap_descriptor_paren
    (fun t ht => (hm.arguments t ht).1) (fun t ht => (hm'.arguments t ht).1) (List.cons.inj h).2
  have hread := Ty.parse?_eq_some_iff.mpr ⟨hm.result, rfl⟩
  rw [hresult, Ty.parse?_eq_some_iff.mpr ⟨hm'.result, rfl⟩] at hread
  cases m
  cases m'
  cases harguments
  cases hread
  rfl

/-- What is read as a method type has no closing parenthesis among its arguments: the text was cut
at the first one. -/
theorem closesOnce_of_parse? {cs : List Char} {m : MethodTy} (h : parse? cs = some m) :
    m.ClosesOnce := by
  rw [parse?.eq_def] at h
  split at h
  · next cs =>
    split at h
    · cases h
    · next y result hdrop =>
      obtain ⟨arguments, harguments, h⟩ := Option.bind_eq_some_iff.mp h
      obtain ⟨t, -, h⟩ := Option.bind_eq_some_iff.mp h
      obtain rfl := Option.some.inj h
      rw [closesOnce_iff, ← (Ty.eq_flatMap_of_parseArguments? harguments).2]
      exact (eq_of_dropWhile_ne hdrop).2
  · cases h

/-- The descriptor of a method type is read, if the first closing parenthesis ends the arguments. -/
theorem parse?_descriptor {m : MethodTy} (hm : m.WellFormed) (hclose : m.ClosesOnce) :
    parse? m.descriptor = some m := by
  have hfront : ∀ c ∈ m.arguments.flatMap Ty.descriptor, decide (c ≠ ')') = true := by
    intro c hc
    simpa using fun heq : c = ')' => closesOnce_iff.mp hclose (heq ▸ hc)
  have htake : (m.arguments.flatMap Ty.descriptor ++ ')' :: m.result.descriptor).takeWhile
      (· ≠ ')') = m.arguments.flatMap Ty.descriptor := by
    rw [List.takeWhile_append_of_pos hfront]
    simp
  have hdrop : (m.arguments.flatMap Ty.descriptor ++ ')' :: m.result.descriptor).dropWhile
      (· ≠ ')') = ')' :: m.result.descriptor := by
    rw [List.dropWhile_append_of_pos hfront]
    simp
  have hresult : Ty.parse? m.result.descriptor = some m.result :=
    Ty.parse?_eq_some_iff.mpr ⟨hm.result, rfl⟩
  rw [descriptor, parse?, hdrop]
  dsimp only
  rw [htake, Ty.parseArguments?_flatMap hm.arguments, hresult]
  rfl

/-- **Which texts are read as which method types.** -/
theorem parse?_eq_some_iff {cs : List Char} {m : MethodTy} :
    parse? cs = some m ↔ m.WellFormed ∧ m.ClosesOnce ∧ cs = m.descriptor := by
  constructor
  · intro h
    obtain ⟨harguments, hresult, hcs⟩ := eq_descriptor_of_parse? h
    exact ⟨⟨harguments, hresult⟩, closesOnce_of_parse? h, hcs⟩
  · rintro ⟨hm, hclose, rfl⟩
    exact parse?_descriptor hm hclose

end MethodTy

/-- **Method descriptors are accepted** if the arguments close once. The descriptor of well-formed
arguments other than void and of a well-formed or void result is read as that method type, unless a
class among the arguments has a closing parenthesis in its name: then it is refused. -/
theorem method_descriptors_accepted {m : MethodTy} (hm : m.WellFormed) :
    (m.ClosesOnce → MethodTy.parse? m.descriptor = some m) ∧
    (¬ m.ClosesOnce → MethodTy.parse? m.descriptor = none) := by
  refine ⟨MethodTy.parse?_descriptor hm, fun hclose => ?_⟩
  cases hread : MethodTy.parse? m.descriptor with
  | none => rfl
  | some m' =>
    obtain ⟨hm', hclose', hdescriptor⟩ := MethodTy.parse?_eq_some_iff.mp hread
    rw [MethodTy.eq_of_descriptor_eq hm hm' hdescriptor] at hclose
    exact absurd hclose' hclose

/-- A class of the result may have a closing parenthesis in its name. -/
theorem method_descriptors_accepted_of_paren_in_result :
    let m : MethodTy := ⟨[.long, .array (.array (.reference "é/A"))], .array (.reference "a)b")⟩
    m.WellFormed ∧ m.ClosesOnce ∧ m.descriptor = "(J[[Lé/A;)[La)b;".toList ∧
      MethodTy.parse? m.descriptor = some m := by
  intro m
  have hm : m.WellFormed := ⟨by decide, by decide⟩
  have hclose : m.ClosesOnce := MethodTy.closesOnce_iff.mpr (by decide)
  exact ⟨hm, hclose, by decide, (method_descriptors_accepted hm).1 hclose⟩

/-- A legal name of a class, whose descriptor is read by itself, makes a method descriptor one that
is refused. -/
theorem paren_in_argument_refused :
    let name := "a)b"
    name ≠ "" ∧ '.' ∉ name.toList ∧ ';' ∉ name.toList ∧ '[' ∉ name.toList ∧
    Ty.parse? "La)b;".toList = some (.reference name) ∧
    MethodTy.WellFormed ⟨[.reference name], .void⟩ ∧
    MethodTy.descriptor ⟨[.reference name], .void⟩ = "(La)b;)V".toList ∧
    MethodTy.parse? "(La)b;)V".toList = none := by
  refine ⟨by decide, by decide, by decide, by decide, by decide +kernel,
    ⟨by decide, by decide⟩, by decide,
    by decide +kernel⟩

end JvmSource
