import Mathlib.Algebra.Order.Ring.Int
import JvmSource.Proofs.Encoding

/-!
# Operands and the bytes they are read from

A machine reads an operand in a word of 32 bits: the bytes are shifted in from the right
(`Bytes.word`), and the sign is spread by a shift to the top of the word and an arithmetic shift
back (`Bytes.extended`). For up to four bytes that word holds the number that the bytes spell
(`Bytes.toNat_word`), and the two shifts give it in two's complement (`Bytes.toInt_extended`). So
the integers that operands are here are those of a computation with words, which never overflows.

A fixed payload is cut at the sizes of its kinds, so operands of different kinds do not mix
(`Instruction.getElem?_splitOperands`), and nothing of the payload is lost: the operands spell it
again (`Instruction.spell_splitOperands`), and so do their values modulo the number of values that
their bytes can take (`Instruction.reduced_operands`). An index is read without its sign, and all
else with it.

A branch has one operand, of two bytes or four, and its target is found in 64-bit arithmetic: the
jump is less than half of what 32 bits hold, and the offset is bounded by the length of the code.
Together: `operands_spell_payload`.
-/

namespace JvmSource

/-! ### Words -/

namespace Bytes

/-- The word that some bytes make up, each shifted in from the right. -/
def word (bytes : List UInt8) : BitVec 32 :=
  bytes.foldl (fun w b => w <<< 8 ||| b.toBitVec.setWidth 32) 0#32

/-- The lowest `width` bytes of a word with their sign: shifted to the top, and back with copies of
the sign. -/
def extended (width : Nat) (w : BitVec 32) : BitVec 32 :=
  (w <<< (32 - 8 * width)).sshiftRight (32 - 8 * width)

/-- The number of values that some bytes can take, as a power of two. -/
theorem capacity_eq (width : Nat) : capacity width = 2 ^ (8 * width) := by
  induction width with
  | zero => rfl
  | succ width ih =>
    rw [capacity, ih, Nat.mul_succ, Nat.pow_add]
    omega

theorem word_concat (bytes : List UInt8) (b : UInt8) :
    word (bytes ++ [b]) = word bytes <<< 8 ||| b.toBitVec.setWidth 32 := by
  simp [word, List.foldl_append]

/-- Up to four bytes fit into a word: shifting loses nothing at its top. -/
theorem toNat_word {bytes : List UInt8} (h : bytes.length ≤ 4) :
    (word bytes).toNat = toNat bytes := by
  induction bytes using List.reverseRecOn with
  | nil => rfl
  | append_singleton bytes b ih =>
    rw [List.length_append, List.length_singleton] at h
    have hb := UInt8.toNat_lt b
    have hbytes := toNat_lt_capacity bytes
    -- three bytes leave room for one more
    have hroom : toNat bytes * 2 ^ 8 < 2 ^ 32 := by
      have hle : capacity bytes.length ≤ 2 ^ 24 := by
        rw [capacity_eq]
        exact Nat.pow_le_pow_right (by decide) (by omega)
      omega
    have hbyte : (b.toBitVec.setWidth 32).toNat = b.toNat :=
      BitVec.toNat_setWidth_of_le (by decide)
    rw [word_concat, toNat_concat, BitVec.toNat_or, BitVec.toNat_shiftLeft, ih (by omega), hbyte,
      Nat.shiftLeft_eq, Nat.mod_eq_of_lt hroom, ← Nat.shiftLeft_eq,
      ← Nat.shiftLeft_add_eq_or_of_lt hb, Nat.shiftLeft_eq]

section Signed

variable {width n : Nat}

/-- The reading in two's complement is that of the bits themselves. -/
theorem signed_eq_toInt (h : n < capacity width) :
    signed width n = (BitVec.ofNat (8 * width) n).toInt := by
  rw [capacity_eq] at h
  rw [signed, BitVec.toInt_eq_toNat_cond, BitVec.toNat_ofNat, Nat.mod_eq_of_lt h, capacity_eq]

/-- A number is what is left of its signed reading modulo the number of values. -/
theorem signed_emod (h : n < capacity width) : signed width n % capacity width = n := by
  have hlt : (n : Int) < capacity width := by exact_mod_cast h
  have hmod : (n : Int) % capacity width = n := Int.emod_eq_of_lt (Int.natCast_nonneg n) hlt
  rw [signed]
  split
  · exact hmod
  · rw [Int.sub_emod_right, hmod]

/-- **The two shifts give the lowest bytes in two's complement.** -/
theorem toInt_extended (hwidth : width ≤ 4) {w : BitVec 32} (h : w.toNat < capacity width) :
    (extended width w).toInt = signed width w.toNat := by
  have hsplit : 2 ^ 32 = capacity width * 2 ^ (32 - 8 * width) := by
    rw [capacity_eq, ← Nat.pow_add]
    congr 1
    omega
  have hpos : 0 < 2 ^ (32 - 8 * width) := Nat.two_pow_pos _
  -- nothing is shifted out at the top
  have hshifted : (w <<< (32 - 8 * width)).toNat = w.toNat * 2 ^ (32 - 8 * width) := by
    rw [BitVec.toNat_shiftLeft, Nat.shiftLeft_eq, Nat.mod_eq_of_lt]
    rw [hsplit]
    exact Nat.mul_lt_mul_of_pos_right h hpos
  have htop : 2 * (w.toNat * 2 ^ (32 - 8 * width)) < 2 ^ 32 ↔ 2 * w.toNat < capacity width := by
    rw [hsplit, ← Nat.mul_assoc]
    exact Nat.mul_lt_mul_right hpos
  have hne : ((2 ^ (32 - 8 * width) : Nat) : Int) ≠ 0 := by exact_mod_cast hpos.ne'
  rw [extended, BitVec.toInt_sshiftRight, BitVec.toInt_eq_toNat_cond, hshifted,
    Int.shiftRight_eq_div_pow, signed]
  split
  · next hlow =>
    rw [if_pos (htop.mp hlow), Nat.cast_mul, Int.mul_ediv_cancel _ hne]
  · next hhigh =>
    rw [if_neg (mt htop.mpr hhigh), hsplit, Nat.cast_mul, Nat.cast_mul, ← Int.sub_mul,
      Int.mul_ediv_cancel _ hne]

theorem neg_pow_le_signed (h : n < capacity width) : -2 ^ (8 * width - 1) ≤ signed width n := by
  rw [signed_eq_toInt h]
  exact BitVec.le_toInt _

theorem signed_lt_pow (h : n < capacity width) : signed width n < 2 ^ (8 * width - 1) := by
  rw [signed_eq_toInt h]
  exact BitVec.toInt_lt

end Signed

end Bytes

/-! ### Operands of a fixed payload -/

namespace OperandKind

theorem size_le_four (kind : OperandKind) : kind.size ≤ 4 := by
  cases kind <;> decide

/-- A value as the number of the same bytes without sign. For an index that is the value itself. -/
def reduce (kind : OperandKind) (v : Int) : Nat :=
  (v % 2 ^ (8 * kind.size)).toNat

/-- Some numbers as operands of the given kinds, one behind the other, each in the bytes of its
kind. -/
def spell (kinds : List OperandKind) (numbers : List Nat) : List UInt8 :=
  (List.zipWith (fun kind n => Bytes.ofNat kind.size n) kinds numbers).flatten

/-- The value of an operand as a word: an index as it was read, all else with its sign spread. -/
def valueWord (kind : OperandKind) (w : BitVec 32) : BitVec 32 :=
  if kind.isIndex then w else Bytes.extended kind.size w

theorem size_le_two_of_isIndex {kind : OperandKind} (h : kind.isIndex = true) : kind.size ≤ 2 := by
  cases kind <;> simp_all [isIndex, size]

/-- The value of an operand is worked out in 32 bits without overflow. -/
theorem operandValue_eq_toInt {kind : OperandKind} {w : BitVec 32}
    (h : w.toNat < Bytes.capacity kind.size) :
    Instruction.operandValue kind w.toNat = (kind.valueWord w).toInt := by
  rw [Instruction.operandValue, valueWord]
  split
  · next hindex =>
    -- an index leaves the bit of the sign free
    have hsmall : Bytes.capacity kind.size ≤ 2 ^ 16 := by
      have hsize := size_le_two_of_isIndex hindex
      rw [Bytes.capacity_eq]
      exact Nat.pow_le_pow_right (by decide) (by omega)
    rw [BitVec.toInt_eq_toNat_of_lt (by omega)]
  · exact (Bytes.toInt_extended kind.size_le_four h).symm

/-- A number is recovered from the value that it has as an operand. -/
theorem reduce_operandValue {kind : OperandKind} {n : Nat} (h : n < Bytes.capacity kind.size) :
    kind.reduce (Instruction.operandValue kind n) = n := by
  have hpow : (2 : Int) ^ (8 * kind.size) = Bytes.capacity kind.size := by
    rw [Bytes.capacity_eq]
    norm_cast
  rw [reduce, hpow, Instruction.operandValue]
  split
  · rw [Int.emod_eq_of_lt (Int.natCast_nonneg n) (by exact_mod_cast h), Int.toNat_natCast]
  · rw [Bytes.signed_emod h, Int.toNat_natCast]

end OperandKind

namespace Instruction

/-- An operand that stands behind others, as the word that a machine reads. The bytes of the others
are skipped. -/
def operandWord (before : List OperandKind) (kind : OperandKind) (payload : List UInt8) :
    BitVec 32 :=
  Bytes.word ((payload.drop (OperandKind.totalSize before)).take kind.size)

section Split

variable {kinds : List OperandKind} {payload : List UInt8}

/-- Operands are read behind one another, each from bytes of its own. -/
theorem getElem?_splitOperands {i : Nat} {kind : OperandKind} (h : kinds[i]? = some kind) :
    (splitOperands kinds payload)[i]? = some (operandWord (kinds.take i) kind payload).toNat := by
  induction kinds generalizing payload i with
  | nil => simp at h
  | cons first kinds ih =>
    rw [splitOperands]
    cases i with
    | zero =>
      obtain rfl : first = kind := by simpa using h
      have hlength : (payload.take first.size).length ≤ 4 :=
        (List.length_take_le _ _).trans first.size_le_four
      simp [operandWord, OperandKind.totalSize, Bytes.toNat_word hlength]
    | succ i =>
      rw [List.getElem?_cons_succ] at h ⊢
      rw [ih h, operandWord, operandWord, List.drop_drop, List.take_succ_cons]
      rfl

theorem toNat_operandWord_lt (before : List OperandKind) (kind : OperandKind)
    (payload : List UInt8) :
    (operandWord before kind payload).toNat < Bytes.capacity kind.size := by
  have hlength := List.length_take_le kind.size (payload.drop (OperandKind.totalSize before))
  rw [operandWord, Bytes.toNat_word (hlength.trans kind.size_le_four)]
  refine (Bytes.toNat_lt_capacity _).trans_le ?_
  rw [Bytes.capacity_eq, Bytes.capacity_eq]
  exact Nat.pow_le_pow_right (by decide) (by omega)

/-- **The operands spell the payload.** The induction is on the kinds, each of which takes its bytes
off the front. -/
theorem spell_splitOperands (h : payload.length = OperandKind.totalSize kinds) :
    OperandKind.spell kinds (splitOperands kinds payload) = payload := by
  induction kinds generalizing payload with
  | nil => exact (List.eq_nil_of_length_eq_zero h).symm
  | cons kind kinds ih =>
    have htotal : OperandKind.totalSize (kind :: kinds) =
        kind.size + OperandKind.totalSize kinds := rfl
    have hfirst : (payload.take kind.size).length = kind.size := by
      rw [List.length_take]
      omega
    have hrest : OperandKind.spell kinds (splitOperands kinds (payload.drop kind.size)) =
        payload.drop kind.size := ih (by rw [List.length_drop]; omega)
    have hspelled := Bytes.ofNat_toNat (payload.take kind.size)
    rw [hfirst] at hspelled
    rw [OperandKind.spell] at hrest ⊢
    rw [splitOperands, List.zipWith_cons_cons, List.flatten_cons, hrest, hspelled,
      List.take_append_drop]

end Split

variable {a : Instruction} {kinds : List OperandKind}

theorem WellFormed.length_payload (h : a.WellFormed) (hkinds : a.opcode.payload = .fixed kinds) :
    a.payload.length = OperandKind.totalSize kinds := by
  have haccepts := h.accepts
  rwa [Opcode.Accepts, hkinds] at haccepts

theorem length_unsignedOperands (hkinds : a.opcode.payload = .fixed kinds) :
    a.unsignedOperands.length = kinds.length := by
  rw [unsignedOperands, hkinds, length_splitOperands, Payload.kinds]

theorem getElem?_unsignedOperands (hkinds : a.opcode.payload = .fixed kinds) {i : Nat}
    {kind : OperandKind} (h : kinds[i]? = some kind) :
    a.unsignedOperands[i]? = some (operandWord (kinds.take i) kind a.payload).toNat := by
  rw [unsignedOperands, hkinds]
  exact getElem?_splitOperands h

/-- The value of an operand, found from its position. -/
theorem getElem?_operands (hkinds : a.opcode.payload = .fixed kinds) {i : Nat}
    {kind : OperandKind} (h : kinds[i]? = some kind) :
    a.operands[i]? =
      some (operandValue kind (operandWord (kinds.take i) kind a.payload).toNat) := by
  rw [operands, List.getElem?_zipWith, getElem?_unsignedOperands hkinds h, hkinds, Payload.kinds, h]

/-- **The values are the numbers without sign, up to the number of values that their bytes can
take.** -/
theorem reduced_operands (hkinds : a.opcode.payload = .fixed kinds) :
    List.zipWith OperandKind.reduce kinds a.operands = a.unsignedOperands := by
  refine List.ext_getElem? fun i => ?_
  rw [List.getElem?_zipWith]
  cases hkind : kinds[i]? with
  | none =>
    rw [List.getElem?_eq_none_iff] at hkind
    rw [List.getElem?_eq_none ((length_unsignedOperands hkinds).trans_le hkind)]
  | some kind =>
    rw [getElem?_operands hkinds hkind, getElem?_unsignedOperands hkinds hkind]
    exact congrArg some (OperandKind.reduce_operandValue (toNat_operandWord_lt _ _ _))

end Instruction

/-! ### Branches -/

namespace Instruction

variable {a : Instruction}

/-- The jump of a branch in 64 bits, with its sign. -/
def jumpWord (a : Instruction) : BitVec 64 :=
  (BitVec.ofNat (8 * a.payload.length) (Bytes.toNat a.payload)).signExtend 64

theorem toInt_jumpWord (h : a.payload.length ≤ 4) :
    a.jumpWord.toInt = Bytes.signed a.payload.length (Bytes.toNat a.payload) := by
  rw [jumpWord, BitVec.toInt_signExtend_of_le (by omega),
    Bytes.signed_eq_toInt (Bytes.toNat_lt_capacity _)]

/-- The jump is the same whether its sign is spread in 64 bits or in 32. -/
theorem jumpWord_eq (h : a.payload.length ≤ 4) :
    a.jumpWord = (Bytes.extended a.payload.length (Bytes.word a.payload)).signExtend 64 := by
  refine BitVec.eq_of_toInt_eq ?_
  have hlt := Bytes.toNat_lt_capacity a.payload
  rw [← Bytes.toNat_word h] at hlt
  rw [toInt_jumpWord h, BitVec.toInt_signExtend_of_le (by decide), Bytes.toInt_extended h hlt,
    Bytes.toNat_word h]

/-- A jump is less than half of the range of 32 bits, in either direction. -/
theorem jumpWord_bounds (h : a.payload.length ≤ 4) :
    -2 ^ 31 ≤ a.jumpWord.toInt ∧ a.jumpWord.toInt < 2 ^ 31 := by
  rw [jumpWord_eq h, BitVec.toInt_signExtend_of_le (by decide)]
  exact ⟨BitVec.le_toInt _, BitVec.toInt_lt⟩

/-- A branch jumps by its only operand, which is its whole payload. -/
theorem branchOffset?_eq (hwell : a.WellFormed) (hbranch : a.operation.isBranch = true) :
    (a.payload.length = 2 ∨ a.payload.length = 4) ∧ a.branchOffset? = some a.jumpWord.toInt := by
  have hone {kind : OperandKind} (hkinds : a.opcode.payload = .fixed [kind])
      (hindex : kind.isIndex = false) :
      a.payload.length = kind.size ∧ a.branchOffset? = some a.jumpWord.toInt := by
    have hlength : a.payload.length = kind.size := hwell.length_payload hkinds
    refine ⟨hlength, ?_⟩
    rw [toInt_jumpWord (hlength.trans_le kind.size_le_four), branchOffset?, if_pos hbranch,
      operands, unsignedOperands, hkinds]
    simp [Payload.kinds, splitOperands, operandValue, hindex, ← hlength]
  rcases Opcode.payload_of_isBranch a.opcode hwell.mem_catalogue hbranch with hshort | hint
  · exact (hone hshort rfl).imp_left .inl
  · exact (hone hint rfl).imp_left .inr

end Instruction

/-- A small offset and a jump are added in 64 bits without overflow. -/
private theorem toInt_ofNat_add {offset : Nat} (hoffset : offset < 2 ^ 63 - 2 ^ 31)
    {jump : BitVec 64} (hle : -2 ^ 31 ≤ jump.toInt) (hlt : jump.toInt < 2 ^ 31) :
    (BitVec.ofNat 64 offset + jump).toInt = offset + jump.toInt := by
  have hplace : (BitVec.ofNat 64 offset).toInt = offset := by
    rw [BitVec.toInt_ofNat', Int.bmod_eq_of_le_mul_two] <;> omega
  rw [BitVec.toInt_add, hplace, Int.bmod_eq_of_le_mul_two] <;> omega

/-- **Operands are the payload.** Every kind of a fixed payload has one number without sign and one
value. The numbers spell the payload, and so do the values modulo the number of values that their
bytes can take. Each is worked out in a word of 32 bits from the bytes behind those of the operands
before it; an index is never negative, and all else lies in the range of its bytes. The jump of a
branch is its payload with the sign spread, and its target is found in 64 bits without overflow. The
length of a method's code is stored in four bytes, far below the bound that this last part needs. -/
theorem operands_spell_payload {bytes : List UInt8} {code : List Instruction}
    (hdecode : decode bytes = .ok code) {a : Instruction} (ha : a ∈ code)
    {kinds : List OperandKind} (hkinds : a.opcode.payload = .fixed kinds) :
    a.unsignedOperands.length = kinds.length ∧ a.operands.length = kinds.length ∧
    OperandKind.spell kinds a.unsignedOperands = a.payload ∧
    OperandKind.spell kinds (List.zipWith OperandKind.reduce kinds a.operands) = a.payload ∧
    (∀ i kind, kinds[i]? = some kind → ∃ n v,
      a.unsignedOperands[i]? = some n ∧ a.operands[i]? = some v ∧
      n = (Instruction.operandWord (kinds.take i) kind a.payload).toNat ∧
      v = (kind.valueWord (Instruction.operandWord (kinds.take i) kind a.payload)).toInt ∧
      (kind.isIndex = true → v = n) ∧
      (kind.isIndex = false → -2 ^ (8 * kind.size - 1) ≤ v ∧ v < 2 ^ (8 * kind.size - 1))) ∧
    (a.operation.isBranch = true →
      (a.payload.length = 2 ∨ a.payload.length = 4) ∧
      a.jumpWord = (Bytes.extended a.payload.length (Bytes.word a.payload)).signExtend 64 ∧
      a.branchOffset? = some a.jumpWord.toInt ∧
      a.branchTarget? = some (a.offset + a.jumpWord.toInt) ∧
      (bytes.length ≤ 2 ^ 63 - 2 ^ 31 →
        (BitVec.ofNat 64 a.offset + a.jumpWord).toInt = a.offset + a.jumpWord.toInt)) := by
  obtain ⟨hseq, hwell, rfl⟩ := decodeFrom_eq_ok_iff.mp hdecode
  have hspelled : OperandKind.spell kinds a.unsignedOperands = a.payload := by
    rw [Instruction.unsignedOperands, hkinds]
    exact Instruction.spell_splitOperands ((hwell a ha).length_payload hkinds)
  have hlength := Instruction.length_unsignedOperands hkinds
  refine ⟨hlength, ?_, hspelled, ?_, ?_, ?_⟩
  · rw [Instruction.operands, List.length_zipWith, hlength, hkinds, Payload.kinds, Nat.min_self]
  · rw [Instruction.reduced_operands hkinds, hspelled]
  · intro i kind hkind
    have hlt := Instruction.toNat_operandWord_lt (kinds.take i) kind a.payload
    refine ⟨_, _, Instruction.getElem?_unsignedOperands hkinds hkind,
      Instruction.getElem?_operands hkinds hkind, rfl, OperandKind.operandValue_eq_toInt hlt,
      ?_, ?_⟩
    · intro hindex
      rw [Instruction.operandValue, if_pos hindex]
    · intro hindex
      rw [Instruction.operandValue, if_neg (by simp [hindex])]
      exact ⟨Bytes.neg_pow_le_signed hlt, Bytes.signed_lt_pow hlt⟩
  · intro hbranch
    obtain ⟨hsize, hjump⟩ := Instruction.branchOffset?_eq (hwell a ha) hbranch
    have hfour : a.payload.length ≤ 4 := by omega
    refine ⟨hsize, Instruction.jumpWord_eq hfour, hjump, ?_, fun hmemory => ?_⟩
    · rw [Instruction.branchTarget?, hjump, Option.map_some]
    · have hinside := hseq.offset_add_size_le ha
      obtain ⟨hle, hlt⟩ := Instruction.jumpWord_bounds hfour
      rw [Instruction.size] at hinside
      exact toInt_ofNat_add (by omega) hle hlt

/-- An index and a byte with the sign bit set, then a branch back to them. -/
theorem operands_spell_payload_of_mixed_kinds :
    let allocate : Instruction := ⟨0, 0,
      ⟨0xc5, "multianewarray", .fixed [.poolIndexShort, .byte], .newNestedArray⟩,
      [0xff, 0xfe, 0x80]⟩
    let jump : Instruction := ⟨4, 1, ⟨0xc8, "goto_w", .fixed [.int], .jump⟩,
      [0xff, 0xff, 0xff, 0xfc]⟩
    decode [0xc5, 0xff, 0xfe, 0x80, 0xc8, 0xff, 0xff, 0xff, 0xfc] = .ok [allocate, jump] ∧
      allocate.unsignedOperands = [0xfffe, 0x80] ∧ allocate.operands = [0xfffe, -0x80] ∧
      OperandKind.spell [.poolIndexShort, .byte] allocate.unsignedOperands = [0xff, 0xfe, 0x80] ∧
      OperandKind.spell [.poolIndexShort, .byte]
        (List.zipWith OperandKind.reduce [.poolIndexShort, .byte] allocate.operands) =
          [0xff, 0xfe, 0x80] ∧
      jump.branchTarget? = some 0 ∧ (BitVec.ofNat 64 jump.offset + jump.jumpWord).toInt = 0 := by
  intro allocate jump
  have hdecode : decode [0xc5, 0xff, 0xfe, 0x80, 0xc8, 0xff, 0xff, 0xff, 0xfc] =
      .ok [allocate, jump] := by
    decide +kernel
  obtain ⟨-, -, hunsigned, hvalues, -, -⟩ :=
    operands_spell_payload hdecode List.mem_cons_self rfl
  obtain ⟨-, -, -, -, -, hbranch⟩ :=
    operands_spell_payload hdecode (List.mem_cons_of_mem _ List.mem_cons_self) rfl
  obtain ⟨-, -, -, htarget, hsum⟩ := hbranch rfl
  have hzero : (jump.offset : Int) + jump.jumpWord.toInt = 0 := by
    decide +kernel
  rw [hzero] at htarget hsum
  exact ⟨hdecode, by decide +kernel, by decide +kernel, hunsigned, hvalues, htarget,
    hsum (by decide)⟩

end JvmSource
