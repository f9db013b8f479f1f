import Mathlib.Data.List.TakeWhile
import JvmSource.Ty.Descriptor

/-!
# Reading descriptors

A type has a descriptor that can be read if no array of it has void elements and no class of it has
a name that the spelling cannot hold (`Ty.WellFormed`). Reading a descriptor off the front of a text
is the inverse of writing it there (`Ty.parseFront?_eq_some_iff`): what is read is well formed and
the text begins with its descriptor, and a text that begins with the descriptor of a well-formed
type is read as that type.

The readers of whole texts, of texts at a byte position and of method descriptors are all built on
that. A whole text is read if nothing is left behind the descriptor. At a byte position, the bytes
in front are dropped if a character ends there (`Ty.dropBytes?_eq_some_iff`), and the position
behind the descriptor is known from the bytes that are left. The arguments of a method are read off
the front one by one.

`descriptors_read_exactly` puts these together. For types it says exactly which texts are read; for
method types it says that what is read is right. Which method descriptors are read is another
matter, since the reader looks for the first closing parenthesis.
-/

namespace JvmSource

/-! ### Texts up to a character -/

/-- A text behind whose front part a character stands for the first time: the text is that part, the
character and the rest. -/
theorem eq_of_dropWhile_ne {x y : Char} {cs rest : List Char}
    (h : cs.dropWhile (· ≠ x) = y :: rest) :
    cs = cs.takeWhile (· ≠ x) ++ x :: rest ∧ x ∉ cs.takeWhile (· ≠ x) := by
  have hy : y = x := by
    have hhead := List.head?_dropWhile_not (fun c => decide (c ≠ x)) cs
    rw [h] at hhead
    simpa using hhead
  constructor
  · rw [← hy, ← h, hy, List.takeWhile_append_dropWhile]
  · intro hx
    have hfront := List.all_takeWhile (p := fun c => decide (c ≠ x)) (l := cs)
    have hne := List.all_eq_true.mp hfront x hx
    simp at hne

namespace Text

/-- What stands in a text between two byte positions. Both are positions at which characters end. -/
def Spans (text : String) (start stop : Nat) (part : String) : Prop :=
  ∃ before behind, text = before ++ part ++ behind ∧ before.utf8ByteSize = start ∧
    (before ++ part).utf8ByteSize = stop

end Text

namespace Ty

/-! ### One descriptor -/

/-- The type has a descriptor that can be read: it has no array of void, and the name of a class is
not empty and does not hold the character that ends it. -/
def WellFormed : Ty → Prop
  | reference name => name ≠ "" ∧ ';' ∉ name.toList
  | array element => element ≠ void ∧ element.WellFormed
  | _ => True

instance decidableWellFormed : (t : Ty) → Decidable t.WellFormed
  | reference name => inferInstanceAs (Decidable (name ≠ "" ∧ ';' ∉ name.toList))
  | array element =>
    have := decidableWellFormed element
    inferInstanceAs (Decidable (element ≠ void ∧ element.WellFormed))
  | int | long | float | double | byte | char | short | boolean | void => isTrue trivial

/-- A type that a letter stands for is well formed, and the letter is its descriptor. -/
theorem descriptor_of_ofLetter? {c : Char} {t : Ty} (h : ofLetter? c = some t) :
    t.WellFormed ∧ t.descriptor = [c] := by
  unfold ofLetter? at h
  split at h <;> cases h <;> exact ⟨trivial, rfl⟩

/-- The descriptor of a well-formed type is read off the front of a text, whatever stands behind
it. -/
theorem parseFront?_descriptor {t : Ty} (h : t.WellFormed) (rest : List Char) :
    parseFront? (t.descriptor ++ rest) = some (t, rest) := by
  induction t with
  | reference name =>
    obtain ⟨hne, hend⟩ := h
    have hname : ∀ c ∈ name.toList, decide (c ≠ ';') = true := by
      intro c hc
      simpa using fun heq : c = ';' => hend (heq ▸ hc)
    obtain ⟨n, cs, hcs⟩ : ∃ n cs, name.toList = n :: cs :=
      List.exists_cons_of_ne_nil fun hnil => hne (String.toList_injective hnil)
    -- no `;` stands in a name, so the first one is that of the descriptor
    have htake : (name.toList ++ [';'] ++ rest).takeWhile (· ≠ ';') = n :: cs := by
      rw [List.append_assoc, List.takeWhile_append_of_pos hname, ← hcs]
      simp
    have hdrop : (name.toList ++ [';'] ++ rest).dropWhile (· ≠ ';') = ';' :: rest := by
      rw [List.append_assoc, List.dropWhile_append_of_pos hname]
      simp
    rw [descriptor, List.cons_append, parseFront?, if_pos rfl, htake, hdrop]
    dsimp only
    rw [← hcs, String.ofList_toList]
  | array element ih =>
    obtain ⟨hvoid, helement⟩ := h
    rw [descriptor, List.cons_append, parseFront?, if_neg (by decide), if_pos rfl, ih helement]
    -- an array of `void` is refused, and the elements are not `void`
    split
    · next heq => exact absurd (Prod.mk.inj (Option.some.inj heq)).1 hvoid
    · next heq =>
      obtain ⟨rfl, rfl⟩ := Prod.mk.inj (Option.some.inj heq)
      rfl
    · next heq => cases heq
  | _ => rfl

/-- What is read off the front of a text is well formed, and its descriptor stands there. The
induction is on the text, which an array gives on to its elements. -/
theorem eq_append_of_parseFront? {cs rest : List Char} {t : Ty}
    (h : parseFront? cs = some (t, rest)) : t.WellFormed ∧ cs = t.descriptor ++ rest := by
  induction cs generalizing t rest with
  | nil => cases h
  | cons c cs ih =>
    rw [parseFront?] at h
    split at h
    · next hc =>
      subst hc
      split at h
      · next n name y behind htake hdrop =>
        obtain ⟨rfl, rfl⟩ := Prod.mk.inj (Option.some.inj h)
        obtain ⟨hcs, hend⟩ := eq_of_dropWhile_ne hdrop
        rw [htake] at hcs hend
        refine ⟨⟨fun hempty => ?_, by simpa using hend⟩, ?_⟩
        · simpa using congrArg String.toList hempty
        · rw [descriptor, hcs]
          simp
      · cases h
    · split at h
      · next hc =>
        subst hc
        split at h
        · cases h
        · next element behind hvoid hparse =>
          obtain ⟨rfl, rfl⟩ := Prod.mk.inj (Option.some.inj h)
          obtain ⟨helement, rfl⟩ := ih hparse
          exact ⟨⟨hvoid, helement⟩, rfl⟩
        · cases h
      · obtain ⟨t', ht', heq⟩ := Option.map_eq_some_iff.mp h
        obtain ⟨rfl, rfl⟩ := Prod.mk.inj heq
        obtain ⟨hwell, hdescriptor⟩ := descriptor_of_ofLetter? ht'
        exact ⟨hwell, by rw [hdescriptor]; rfl⟩

/-- **Reading off the front** is the inverse of writing there. -/
theorem parseFront?_eq_some_iff {cs rest : List Char} {t : Ty} :
    parseFront? cs = some (t, rest) ↔ t.WellFormed ∧ cs = t.descriptor ++ rest := by
  constructor
  · exact eq_append_of_parseFront?
  · rintro ⟨hwell, rfl⟩
    exact parseFront?_descriptor hwell rest

/-! ### Whole texts and runs of descriptors -/

/-- **A whole text** is read as a type exactly if it is the descriptor of that type, and the type is
well formed. -/
theorem parse?_eq_some_iff {cs : List Char} {t : Ty} :
    parse? cs = some t ↔ t.WellFormed ∧ cs = t.descriptor := by
  have hfront : parse? cs = some t ↔ parseFront? cs = some (t, []) := by
    rw [parse?]
    constructor
    · intro h
      split at h
      · next hparse => rw [hparse, Option.some.inj h]
      · cases h
    · intro h
      rw [h]
  rw [hfront, parseFront?_eq_some_iff, List.append_nil]

/-- Arguments are read off the front one by one, until nothing is left. -/
theorem eq_flatMap_of_parseArguments? {cs : List Char} {ts : List Ty}
    (h : parseArguments? cs = some ts) :
    (∀ t ∈ ts, t.WellFormed ∧ t ≠ void) ∧ cs = ts.flatMap descriptor := by
  fun_induction parseArguments? cs generalizing ts with
  | case1 =>
    obtain rfl := Option.some.inj h
    simp
  | case2 => cases h
  | case3 c cs t rest hparse hvoid ih =>
    obtain ⟨others, hothers, rfl⟩ := Option.map_eq_some_iff.mp h
    obtain ⟨hwell, hcs⟩ := eq_append_of_parseFront? hparse
    obtain ⟨hall, rfl⟩ := ih hothers
    exact ⟨List.forall_mem_cons.mpr ⟨⟨hwell, hvoid⟩, hall⟩, by rw [hcs, List.flatMap_cons]⟩
  | case4 => cases h

/-! ### Byte positions -/

/-- The number of bytes of a text is that of its encoding. -/
theorem byteLength_toList (text : String) : byteLength text.toList = text.utf8ByteSize := by
  suffices h : ∀ cs : List Char, byteLength cs = (String.ofList cs).utf8ByteSize by
    rw [h, String.ofList_toList]
  intro cs
  induction cs with
  | nil => rfl
  | cons c cs ih =>
    have hsplit : String.ofList (c :: cs) = String.singleton c ++ String.ofList cs :=
      String.toList_injective (by simp)
    rw [hsplit, String.utf8ByteSize_append, String.utf8ByteSize_singleton, ← ih]
    rfl

/-- The bytes of a text are those of its parts. -/
theorem byteLength_append (cs cs' : List Char) :
    byteLength (cs ++ cs') = byteLength cs + byteLength cs' := by
  induction cs with
  | nil => exact (Nat.zero_add _).symm
  | cons c cs ih =>
    show c.utf8Size + byteLength (cs ++ cs') = c.utf8Size + byteLength cs + byteLength cs'
    rw [ih, Nat.add_assoc]

/-- Bytes can be dropped off a text exactly where a character ends. -/
theorem dropBytes?_eq_some_iff {n : Nat} {cs rest : List Char} :
    dropBytes? n cs = some rest ↔ ∃ before, cs = before ++ rest ∧ byteLength before = n := by
  constructor
  · intro h
    induction cs generalizing n with
    | nil =>
      rw [dropBytes?] at h
      split at h
      · next hzero => exact ⟨[], Option.some.inj h, hzero.symm⟩
      · cases h
    | cons c cs ih =>
      rw [dropBytes?] at h
      split at h
      · next hzero => exact ⟨[], Option.some.inj h, hzero.symm⟩
      · split at h
        · next hle =>
          obtain ⟨before, rfl, hbefore⟩ := ih h
          refine ⟨c :: before, rfl, ?_⟩
          show c.utf8Size + byteLength before = n
          omega
        · cases h
  · -- every character has a byte, so dropping stops nowhere but at its own end
    rintro ⟨before, rfl, rfl⟩
    induction before with
    | nil => cases rest <;> simp [dropBytes?, byteLength]
    | cons c before ih =>
      have hlength : byteLength (c :: before) = c.utf8Size + byteLength before := rfl
      have hpos := c.utf8Size_pos
      rw [List.cons_append, dropBytes?, hlength, if_neg (by omega), if_pos (by omega),
        Nat.add_sub_cancel_left, ih]

/-- **A descriptor at a byte position** is read from there up to the byte position behind it. -/
theorem parseAt?_eq_some_iff {text : String} {position next : Nat} {t : Ty} :
    parseAt? text position = some (t, next) ↔
      t.WellFormed ∧ Text.Spans text position next (String.ofList t.descriptor) := by
  constructor
  · intro h
    obtain ⟨cs, hcs, h⟩ := Option.bind_eq_some_iff.mp h
    obtain ⟨⟨t', rest⟩, hparse, h⟩ := Option.bind_eq_some_iff.mp h
    obtain ⟨rfl, rfl⟩ := Prod.mk.inj (Option.some.inj h)
    obtain ⟨before, htext, rfl⟩ := dropBytes?_eq_some_iff.mp hcs
    obtain ⟨hwell, rfl⟩ := eq_append_of_parseFront? hparse
    refine ⟨hwell, String.ofList before, String.ofList rest, ?_, ?_, ?_⟩
    · exact String.toList_injective (by simp [htext])
    · rw [← byteLength_toList, String.toList_ofList]
    · rw [← byteLength_toList, htext]
      simp only [byteLength_append, String.toList_append, String.toList_ofList]
      omega
  · rintro ⟨hwell, before, behind, rfl, rfl, rfl⟩
    -- the position is the number of bytes before the descriptor
    have hdrop : dropBytes? before.utf8ByteSize
        (before ++ String.ofList t.descriptor ++ behind).toList =
          some (t.descriptor ++ behind.toList) :=
      dropBytes?_eq_some_iff.mpr ⟨before.toList, by simp, byteLength_toList before⟩
    rw [parseAt?, hdrop, Option.bind_eq_bind, Option.bind_some, parseFront?_descriptor hwell,
      Option.bind_eq_bind, Option.bind_some]
    dsimp only
    rw [byteLength_toList, byteLength_toList, String.utf8ByteSize_append, Nat.add_sub_cancel]
    rfl

end Ty

/-! ### Method descriptors -/

/-- What is read as a method descriptor is one. -/
theorem MethodTy.eq_descriptor_of_parse? {cs : List Char} {m : MethodTy} (h : parse? cs = some m) :
    (∀ t ∈ m.arguments, t.WellFormed ∧ t ≠ .void) ∧ m.result.WellFormed ∧ cs = m.descriptor := by
  rw [parse?.eq_def] at h
  split at h
  · next cs =>
    split at h
    · cases h
    · next y result hdrop =>
      obtain ⟨arguments, harguments, h⟩ := Option.bind_eq_some_iff.mp h
      obtain ⟨t, ht, h⟩ := Option.bind_eq_some_iff.mp h
      obtain rfl := Option.some.inj h
      obtain ⟨hall, hfront⟩ := Ty.eq_flatMap_of_parseArguments? harguments
      obtain ⟨hwell, rfl⟩ := Ty.parse?_eq_some_iff.mp ht
      refine ⟨hall, hwell, ?_⟩
      rw [descriptor, ← hfront, ← (eq_of_dropWhile_ne hdrop).1]
  · cases h

/-- **Descriptors are read exactly.** A text is read as a type if and only if the type is well
formed and the text is its descriptor. A type is read at a byte position, up to another one, if and
only if it is well formed and its descriptor stands between the two. What is read as a method type
has well-formed types, no void argument, and the text for its descriptor. So no two texts are read
as the same type, or as the same method type. -/
theorem descriptors_read_exactly :
    (∀ (text : String) (t : Ty), Ty.parse? text.toList = some t ↔
      t.WellFormed ∧ text = String.ofList t.descriptor) ∧
    (∀ (text : String) (position next : Nat) (t : Ty), Ty.parseAt? text position = some (t, next) ↔
      t.WellFormed ∧ Text.Spans text position next (String.ofList t.descriptor)) ∧
    (∀ (text : String) (m : MethodTy), MethodTy.parse? text.toList = some m →
      (∀ t ∈ m.arguments, t.WellFormed ∧ t ≠ .void) ∧ m.result.WellFormed ∧
        text = String.ofList m.descriptor) ∧
    (∀ (text text' : String) (t : Ty), Ty.parse? text.toList = some t →
      Ty.parse? text'.toList = some t → text = text') ∧
    ∀ (text text' : String) (m : MethodTy), MethodTy.parse? text.toList = some m →
      MethodTy.parse? text'.toList = some m → text = text' := by
  have hchars {text : String} {cs : List Char} : text.toList = cs ↔ text = String.ofList cs := by
    rw [← String.toList_inj, String.toList_ofList]
  refine ⟨fun text t => ?_, fun text position next t => Ty.parseAt?_eq_some_iff, fun text m h => ?_,
    fun text text' t h h' => ?_, fun text text' m h h' => ?_⟩
  · rw [Ty.parse?_eq_some_iff, hchars]
  · obtain ⟨harguments, hresult, htext⟩ := MethodTy.eq_descriptor_of_parse? h
    exact ⟨harguments, hresult, hchars.mp htext⟩
  · obtain ⟨-, htext⟩ := Ty.parse?_eq_some_iff.mp h
    obtain ⟨-, htext'⟩ := Ty.parse?_eq_some_iff.mp h'
    exact String.toList_injective (htext.trans htext'.symm)
  · obtain ⟨-, -, htext⟩ := MethodTy.eq_descriptor_of_parse? h
    obtain ⟨-, -, htext'⟩ := MethodTy.eq_descriptor_of_parse? h'
    exact String.toList_injective (htext.trans htext'.symm)

/-- A wide argument, and an array of arrays of a class whose name does not fit into single bytes. -/
theorem descriptors_read_exactly_of_nested_array :
    ∃ m, MethodTy.parse? "(J[[Lé/A;)V".toList = some m ∧
      (∀ t ∈ m.arguments, t.WellFormed ∧ t ≠ .void) ∧ m.result.WellFormed ∧
      "(J[[Lé/A;)V" = String.ofList m.descriptor ∧
      Ty.parseAt? "(J[[Lé/A;)V" 2 = some (.array (.array (.reference "é/A")), 10) := by
  have hparse : MethodTy.parse? "(J[[Lé/A;)V".toList =
      some ⟨[.long, .array (.array (.reference "é/A"))], .void⟩ := by
    decide +kernel
  obtain ⟨harguments, hresult, htext⟩ := descriptors_read_exactly.2.2.1 _ _ hparse
  refine ⟨_, hparse, harguments, hresult, htext, ?_⟩
  refine (descriptors_read_exactly.2.1 _ _ _ _).mpr ⟨by decide, "(J", ")V", ?_, ?_, ?_⟩ <;> decide

end JvmSource
