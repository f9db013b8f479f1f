import JvmSource.Instruction
import JvmSource.Proofs.Result

/-!
# Decoded instructions

A decoded method is one run of instructions: they are numbered from 0, each stands where the one
before it ends, and every opcode is one of the catalogue. In particular two instructions never stand
at one offset, and every branch has an operand.

The run is described by `Sequential`, a recursion along the list with the number and the offset of
the first instruction. All that is used of decoding elsewhere follows from it: the index of an
instruction is its position in the list (`Sequential.index_eq`), offsets increase
(`Sequential.offset_lt`), and no instruction reaches behind the end of the code
(`Sequential.offset_add_size_le`).

The part on branches ties the opcodes that are branches to the instructions that name a target: in a
decoded method they are the same. It goes through the catalogue, where every branch has one operand
of two bytes or of four.
-/

namespace JvmSource

/-- The instructions are numbered from `index` and stand one behind the other from `offset`, without
a gap between them. -/
def Sequential (index offset : Nat) : List Instruction → Prop
  | [] => True
  | a :: rest =>
    a.index = index ∧ a.offset = offset ∧ Sequential (index + 1) (offset + a.size) rest

/-- The first instruction of a decoded run, and what the rest is decoded from. -/
theorem decodeFrom_cons_eq_ok {index offset : Nat} {b : UInt8} {bytes : List UInt8}
    {code : List Instruction} (h : decodeFrom index offset (b :: bytes) = .ok code) :
    ∃ opcode size rest, Opcode.find? b = some opcode ∧ payloadSize opcode offset bytes = .ok size ∧
      (bytes.take size).length = size ∧
      decodeFrom (index + 1) (offset + 1 + size) (bytes.drop size) = .ok rest ∧
      code = { offset, index, opcode, payload := bytes.take size } :: rest := by
  rw [decodeFrom] at h
  split at h
  · cases h
  · next opcode hfind =>
    obtain ⟨size, hsize, h⟩ := Result.bind_eq_ok.mp h
    split at h
    · next hlength =>
      obtain ⟨rest, hrest, h⟩ := Result.bind_eq_ok.mp h
      exact ⟨opcode, size, rest, hfind, hsize, hlength, hrest, (Result.pure_eq_ok.mp h).symm⟩
    · cases h

/-- Decoded instructions are numbered in order and stand one behind the other. -/
theorem sequential_of_decodeFrom {index offset : Nat} {bytes : List UInt8}
    {code : List Instruction} (h : decodeFrom index offset bytes = .ok code) :
    Sequential index offset code := by
  induction code generalizing index offset bytes with
  | nil => trivial
  | cons a code ih =>
    cases bytes with
    | nil => rw [decodeFrom] at h; cases h
    | cons b bytes =>
      obtain ⟨opcode, size, rest, -, -, hlength, hrest, heq⟩ := decodeFrom_cons_eq_ok h
      cases heq
      refine ⟨rfl, rfl, ?_⟩
      rw [Instruction.size, hlength, ← Nat.add_assoc]
      exact ih hrest

/-- Decoded instructions have opcodes of the catalogue. -/
theorem opcode_mem_of_decodeFrom {index offset : Nat} {bytes : List UInt8}
    {code : List Instruction} (h : decodeFrom index offset bytes = .ok code) :
    ∀ a ∈ code, a.opcode ∈ Opcode.catalogue := by
  induction code generalizing index offset bytes with
  | nil => exact fun a ha => absurd ha List.not_mem_nil
  | cons a code ih =>
    cases bytes with
    | nil => rw [decodeFrom] at h; cases h
    | cons b bytes =>
      obtain ⟨opcode, size, rest, hfind, -, -, hrest, heq⟩ := decodeFrom_cons_eq_ok h
      cases heq
      intro x hx
      rcases List.mem_cons.mp hx with rfl | hx
      · exact Opcode.mem_catalogue_of_find? hfind
      · exact ih hrest x hx

namespace Sequential

variable {index offset : Nat} {code : List Instruction}

/-- The number of an instruction follows from its position. -/
theorem index_eq (h : Sequential index offset code) {i : Nat} {a : Instruction}
    (ha : code[i]? = some a) : a.index = index + i := by
  induction code generalizing index offset i with
  | nil => simp at ha
  | cons b code ih =>
    cases i with
    | zero =>
      obtain rfl : b = a := by simpa using ha
      exact h.1
    | succ i =>
      rw [List.getElem?_cons_succ] at ha
      rw [ih h.2.2 ha]
      omega

/-- No instruction stands before the first one. -/
theorem le_offset (h : Sequential index offset code) {i : Nat} {a : Instruction}
    (ha : code[i]? = some a) : offset ≤ a.offset := by
  induction code generalizing index offset i with
  | nil => simp at ha
  | cons b code ih =>
    cases i with
    | zero =>
      obtain rfl : b = a := by simpa using ha
      exact Nat.le_of_eq h.2.1.symm
    | succ i =>
      rw [List.getElem?_cons_succ] at ha
      exact Nat.le_trans (Nat.le_add_right _ _) (ih h.2.2 ha)

/-- Later instructions stand further on. -/
theorem offset_lt (h : Sequential index offset code) {i j : Nat} {a b : Instruction} (hij : i < j)
    (ha : code[i]? = some a) (hb : code[j]? = some b) : a.offset < b.offset := by
  induction code generalizing index offset i j with
  | nil => simp at ha
  | cons c code ih =>
    cases j with
    | zero => omega
    | succ j =>
      rw [List.getElem?_cons_succ] at hb
      cases i with
      | zero =>
        obtain rfl : c = a := by simpa using ha
        have hle := h.2.2.le_offset hb
        have hsize : c.size = 1 + c.payload.length := rfl
        rw [h.2.1]
        omega
      | succ i =>
        rw [List.getElem?_cons_succ] at ha
        exact ih h.2.2 (by omega) ha hb

/-- Every instruction lies inside of the code. -/
theorem offset_add_size_le (h : Sequential index offset code) {a : Instruction} (ha : a ∈ code) :
    a.offset + a.size ≤ offset + (code.flatMap Instruction.encode).length := by
  induction code generalizing index offset with
  | nil => exact absurd ha List.not_mem_nil
  | cons b code ih =>
    rw [List.flatMap_cons, List.length_append, Instruction.length_encode]
    rcases List.mem_cons.mp ha with rfl | ha
    · have hplace := h.2.1
      omega
    · have hrest := ih h.2.2 ha
      omega

end Sequential

/-! ### Branches -/

/-- Every branch of the catalogue has one operand, of two bytes or four. -/
theorem Opcode.payload_of_isBranch : ∀ opcode ∈ catalogue, opcode.operation.isBranch →
    opcode.payload = .fixed [.short] ∨ opcode.payload = .fixed [.int] := by
  decide +kernel

@[simp] theorem Instruction.length_splitOperands (kinds : List OperandKind) (bytes : List UInt8) :
    (splitOperands kinds bytes).length = kinds.length := by
  induction kinds generalizing bytes with
  | nil => rfl
  | cons kind kinds ih => rw [splitOperands, List.length_cons, ih, List.length_cons]

/-- Only branches name a target, since no other operation has one. -/
theorem Instruction.isBranch_of_branchTarget? {a : Instruction} {target : Int}
    (h : a.branchTarget? = some target) : a.operation.isBranch = true := by
  rw [branchTarget?, branchOffset?] at h
  split at h
  · assumption
  · cases h

/-- The branches of a decoded method are the instructions that name a target. -/
theorem isSome_branchTarget?_iff {a : Instruction} (h : a.opcode ∈ Opcode.catalogue) :
    a.branchTarget?.isSome ↔ a.operation.isBranch = true := by
  rw [Instruction.branchTarget?, Option.isSome_map, Instruction.branchOffset?]
  by_cases hbranch : a.operation.isBranch = true
  · have hkinds : a.opcode.payload.kinds ≠ [] := by
      rcases Opcode.payload_of_isBranch a.opcode h hbranch with hpayload | hpayload <;>
        simp [hpayload, Payload.kinds]
    rw [if_pos hbranch, Instruction.operands, List.isSome_head?]
    simp only [hbranch, iff_true]
    intro hnil
    have hlength := congrArg List.length hnil
    rw [List.length_zipWith, Instruction.unsignedOperands, Instruction.length_splitOperands]
      at hlength
    exact hkinds (List.eq_nil_of_length_eq_zero (by simpa using hlength))
  · simp [hbranch]

end JvmSource
