import Mathlib.Algebra.GroupWithZero.Nat
import Mathlib.Data.List.Nodup
import JvmSource.Proofs.Bytes
import JvmSource.Proofs.Decoding

/-!
# Decoding and encoding are inverse

What an opcode accepts behind it is fixed by the catalogue, except that a `lookupswitch` is followed
by a table that its own position moves to a multiple of four bytes (`Opcode.Accepts`). Decoding is
related to this format in both directions: `decodeFrom_eq_ok_iff` says which bytes have which
instructions, and `decodeFrom_eq_error_iff` where and why the others have none.

The format is stated without the decoder: an opcode, a position and a payload fit together, or do
not. The decoder works the other way. It computes from the first bytes how long a payload is, and
cuts so many bytes off (`payloadSize`). So there are two lemmas for one instruction: a payload that
is accepted has the length that is read off, whatever stands behind it (`payloadSize_append`), and
bytes of the length that is read off are a payload that is accepted (`accepts_of_payloadSize`).

A decoder can be stopped and resumed at the end of any instruction (`decodeFrom_append`), so a
failure is one of the instruction at which it is reported. There are three causes (`DecodeFault`):
no opcode has the byte for its code, the opcode is one of the two that cannot be decoded, or the
code ends inside of the payload. For each cause the error is determined, with its offset.
-/

namespace JvmSource

/-! ### Payloads -/

namespace Opcode

/-- The payloads that an opcode at `offset` may have: those of the catalogue's length, or padding
and a table with as many pairs as its count says, which is not negative. -/
def Accepts (opcode : Opcode) (offset : Nat) (payload : List UInt8) : Prop :=
  match opcode.payload with
  | .fixed kinds => payload.length = OperandKind.totalSize kinds
  | .varying => opcode.operation = .lookupSwitch ∧
    ∃ (padding : List UInt8) (table : SwitchTable), payload = padding ++ table.write ∧
      padding.length = switchPadding offset ∧ table.count.toNat = table.pairs.length ∧
      table.pairs.length < 0x80000000

/-- Whether the bytes behind an opcode at `offset` end too early. A `lookupswitch` may end before
its count, have a negative count, or end before its last pair. -/
def RunsOut (opcode : Opcode) (offset : Nat) (bytes : List UInt8) : Prop :=
  match opcode.payload with
  | .fixed kinds => bytes.length < OperandKind.totalSize kinds
  | .varying => opcode.operation = .lookupSwitch ∧
    let count := Bytes.toNat ((bytes.drop (switchPadding offset + 4)).take 4)
    (bytes.length < switchPadding offset + 8 ∨ Bytes.signed 4 count < 0 ∨
      bytes.length < switchPadding offset + 8 + 8 * count)

/-- The catalogue is in the order of the codes, so no code occurs twice. -/
theorem isChain_code : (catalogue.map (·.code.toNat)).IsChain (· < ·) := by
  decide +kernel

/-- No two opcodes of the catalogue have the same code: each is found under its own. -/
theorem find?_code {opcode : Opcode} (h : opcode ∈ catalogue) :
    find? opcode.code = some opcode := by
  have hnodup : (catalogue.map (·.code.toNat)).Nodup :=
    (List.isChain_iff_pairwise.mp isChain_code).imp Nat.ne_of_lt
  obtain ⟨found, hfound⟩ : ∃ found, find? opcode.code = some found := by
    rw [find?, ← Option.isSome_iff_exists, List.find?_isSome]
    exact ⟨opcode, h, beq_self_eq_true _⟩
  have hcode := congrArg UInt8.toNat (code_of_find? hfound)
  rwa [List.inj_on_of_nodup_map hnodup (mem_catalogue_of_find? hfound) h hcode] at hfound

/-- A byte that no opcode is found for is the code of none. -/
theorem find?_eq_none_iff {b : UInt8} : find? b = none ↔ ∀ opcode ∈ catalogue, opcode.code ≠ b := by
  simp [find?]

/-- Two opcodes with a payload of varying length cannot be decoded. The catalogue is gone
through. -/
private theorem mnemonic_of_varying : ∀ opcode ∈ catalogue, opcode.payload = .varying →
    opcode.operation ≠ .lookupSwitch →
    opcode.mnemonic = "tableswitch" ∨ opcode.mnemonic = "wide" := by
  decide +kernel

/-- The converse of `mnemonic_of_varying`. -/
private theorem varying_of_mnemonic : ∀ opcode ∈ catalogue,
    opcode.mnemonic = "tableswitch" ∨ opcode.mnemonic = "wide" →
    opcode.payload = .varying ∧ opcode.operation ≠ .lookupSwitch := by
  decide +kernel

end Opcode

private theorem signed_neg_iff {n : Nat} :
    Bytes.signed 4 n < 0 ↔ 0x80000000 ≤ n ∧ n < 0x100000000 := by
  have hcapacity : Bytes.capacity 4 = 0x100000000 := rfl
  rw [Bytes.signed, hcapacity]
  split <;> omega

/-- The length that is read off for a payload is right, whatever stands behind it. For a switch it
is computed from the count, which the padding comes before. -/
theorem payloadSize_append {opcode : Opcode} {offset : Nat} {payload : List UInt8}
    (h : opcode.Accepts offset payload) (rest : List UInt8) :
    payloadSize opcode offset (payload ++ rest) = .ok payload.length := by
  rw [Opcode.Accepts] at h
  rw [payloadSize]
  split at h
  · next kinds hkinds =>
    simp only [hkinds, h]
  · next hvarying =>
    obtain ⟨hswitch, padding, table, rfl, hpadding, hcount, hlt⟩ := h
    have hsplit : padding ++ table.write ++ rest = (padding ++ Bytes.i32 table.default) ++
        (Bytes.u32 table.count ++
          ((table.pairs.flatMap fun pair => Bytes.i32 pair.1 ++ Bytes.i32 pair.2) ++ rest)) := by
      simp only [SwitchTable.write, List.append_assoc]
    have hbefore : (padding ++ Bytes.i32 table.default).length = switchPadding offset + 4 := by
      rw [List.length_append, hpadding, Bytes.length_i32]
    have hread : ((padding ++ table.write ++ rest).drop (switchPadding offset + 4)).take 4 =
        Bytes.u32 table.count := by
      rw [hsplit, List.drop_left' hbefore, List.take_left' (Bytes.length_u32 _)]
    simp only [hvarying, hswitch, hread, Bytes.length_u32, Bytes.toNat_u32, hcount, hlt, and_self,
      if_true, List.length_append, SwitchTable.length_write, hpadding, ← Nat.add_assoc]

/-- The payload of a switch as it is cut off the bytes that follow the opcode: the padding, which
may be any bytes, and a table whose count is right. -/
private theorem exists_table_of_take {bytes : List UInt8} {padding : Nat}
    (h : (bytes.take (padding + 8 + 8 * Bytes.toNat ((bytes.drop (padding + 4)).take 4))).length =
      padding + 8 + 8 * Bytes.toNat ((bytes.drop (padding + 4)).take 4)) :
    ∃ (front : List UInt8) (table : SwitchTable),
      bytes.take (padding + 8 + 8 * Bytes.toNat ((bytes.drop (padding + 4)).take 4)) =
        front ++ table.write ∧
      front.length = padding ∧ table.count.toNat = table.pairs.length ∧
      table.pairs.length = Bytes.toNat ((bytes.drop (padding + 4)).take 4) := by
  generalize hpayload : bytes.take _ = payload at h ⊢
  -- the count stands inside of the payload
  have hinside : ((payload.drop padding).drop 4).take 4 = (bytes.drop (padding + 4)).take 4 := by
    rw [← hpayload, List.drop_drop, List.drop_take, List.take_take]
    congr 1
    omega
  rw [← hinside] at h ⊢
  have hlength : (payload.drop padding).length =
      8 + 8 * Bytes.toNat (((payload.drop padding).drop 4).take 4) := by
    rw [List.length_drop, h]
    omega
  obtain ⟨table, hwrite, hcount, hpairs⟩ := SwitchTable.exists_write_eq hlength
  refine ⟨payload.take padding, table, ?_, ?_, hcount, hpairs⟩
  · rw [hwrite, List.take_append_drop]
  · rw [List.length_take, h]
    omega

/-- Bytes of the length that is read off are a payload. -/
theorem accepts_of_payloadSize {opcode : Opcode} {offset size : Nat} {bytes : List UInt8}
    (h : payloadSize opcode offset bytes = .ok size) (hsize : (bytes.take size).length = size) :
    opcode.Accepts offset (bytes.take size) := by
  rw [payloadSize] at h
  rw [Opcode.Accepts]
  split at h
  · next kinds _ hkinds =>
    obtain rfl := Except.ok.inj h
    simp only [hkinds, hsize]
  · next hvarying hswitch =>
    dsimp only at h
    split at h
    · next hcount =>
      obtain rfl := Except.ok.inj h
      obtain ⟨padding, table, htable, hpadding, hown, hpairs⟩ := exists_table_of_take hsize
      simp only [hvarying]
      exact ⟨hswitch, padding, table, htable, hpadding, hown, by rw [hpairs]; exact hcount.2⟩
    · cases h
  · cases h

/-! ### Instructions -/

/-- An instruction that can stand where it does: its opcode accepts its payload there. -/
structure Instruction.WellFormed (a : Instruction) : Prop where
  mem_catalogue : a.opcode ∈ Opcode.catalogue
  accepts : a.opcode.Accepts a.offset a.payload

/-- An instruction is read off its bytes, whatever stands behind them, and decoding goes on behind
it. -/
theorem decodeFrom_encode_append {a : Instruction} (h : a.WellFormed) (rest : List UInt8) :
    decodeFrom a.index a.offset (a.encode ++ rest) =
      (a :: ·) <$> decodeFrom (a.index + 1) (a.offset + a.size) rest := by
  rw [Instruction.encode, List.cons_append, decodeFrom, Opcode.find?_code h.mem_catalogue]
  simp only [payloadSize_append h.accepts, bind, Except.bind, List.take_left, List.drop_left,
    if_true]
  rw [Instruction.size, ← Nat.add_assoc]
  cases decodeFrom (a.index + 1) (a.offset + 1 + a.payload.length) rest <;> rfl

/-- **Which bytes have which instructions.** Both directions go along the recursion of the
decoder. -/
theorem decodeFrom_eq_ok_iff {index offset : Nat} {bytes : List UInt8} {code : List Instruction} :
    decodeFrom index offset bytes = .ok code ↔
      Sequential index offset code ∧ (∀ a ∈ code, a.WellFormed) ∧
        code.flatMap Instruction.encode = bytes := by
  induction code generalizing index offset bytes with
  | nil =>
    cases bytes with
    | nil => simp [decodeFrom, Sequential]
    | cons b bytes =>
      simp only [List.flatMap_nil, reduceCtorEq, and_false, iff_false]
      intro h
      obtain ⟨_, _, _, -, -, -, -, heq⟩ := decodeFrom_cons_eq_ok h
      cases heq
  | cons a code ih =>
    rw [List.forall_mem_cons, List.flatMap_cons]
    constructor
    · intro h
      cases bytes with
      | nil => rw [decodeFrom] at h; cases h
      | cons b bytes =>
        obtain ⟨opcode, size, rest, hfind, hsize, hlength, hrest, heq⟩ := decodeFrom_cons_eq_ok h
        cases heq
        obtain ⟨hseq, hwell, hbytes⟩ := ih.mp hrest
        refine ⟨⟨rfl, rfl, ?_⟩, ⟨⟨Opcode.mem_catalogue_of_find? hfind,
          accepts_of_payloadSize hsize hlength⟩, hwell⟩, ?_⟩
        · rwa [Instruction.size, hlength, ← Nat.add_assoc]
        · rw [Instruction.encode, hbytes, Opcode.code_of_find? hfind, List.cons_append,
            List.take_append_drop]
    · rintro ⟨⟨rfl, rfl, hseq⟩, ⟨hwell, hrest⟩, rfl⟩
      rw [decodeFrom_encode_append hwell, Result.map_eq_ok]
      exact ⟨code, ih.mpr ⟨hseq, hrest, rfl⟩, rfl⟩

/-- The instructions are placed one behind the other exactly if each stands behind the sizes of
those before it. -/
theorem sequential_iff {index offset : Nat} {code : List Instruction} :
    Sequential index offset code ↔ ∀ i a, code[i]? = some a →
      a.index = index + i ∧ a.offset = offset + ((code.take i).map Instruction.size).sum := by
  induction code generalizing index offset with
  | nil => simp [Sequential]
  | cons b code ih =>
    rw [Sequential, ih]
    constructor
    · rintro ⟨hindex, hoffset, hrest⟩ i a ha
      cases i with
      | zero =>
        obtain rfl : b = a := by simpa using ha
        simp [hindex, hoffset]
      | succ i =>
        rw [List.getElem?_cons_succ] at ha
        obtain ⟨hi, ho⟩ := hrest i a ha
        rw [List.take_succ_cons, List.map_cons, List.sum_cons]
        omega
    · intro h
      refine ⟨(h 0 b rfl).1, (h 0 b rfl).2, ?_⟩
      intro i a ha
      obtain ⟨hi, ho⟩ := h (i + 1) a (by rwa [List.getElem?_cons_succ])
      rw [List.take_succ_cons, List.map_cons, List.sum_cons] at ho
      omega

/-! ### Failures -/

/-- **A decoder can be stopped behind an instruction and resumed there**, with the number and the
offset that it has come to. -/
theorem decodeFrom_append {index offset : Nat} {front : List UInt8} {code : List Instruction}
    (h : decodeFrom index offset front = .ok code) (rest : List UInt8) :
    decodeFrom index offset (front ++ rest) =
      (code ++ ·) <$> decodeFrom (index + code.length) (offset + front.length) rest := by
  induction code generalizing index offset front with
  | nil =>
    obtain ⟨-, -, rfl⟩ := decodeFrom_eq_ok_iff.mp h
    simp
  | cons a code ih =>
    obtain ⟨⟨rfl, rfl, hseq⟩, hwell, rfl⟩ := decodeFrom_eq_ok_iff.mp h
    obtain ⟨hwell, hrest⟩ := List.forall_mem_cons.mp hwell
    have hcode := ih (decodeFrom_eq_ok_iff.mpr ⟨hseq, hrest, rfl⟩)
    rw [List.flatMap_cons, List.append_assoc, decodeFrom_encode_append hwell, hcode,
      List.length_cons, List.length_append, Instruction.length_encode, Nat.add_assoc a.index,
      Nat.add_comm 1, Nat.add_assoc a.offset, ← comp_map]
    rfl

/-- Why no instruction can be read off the byte `b` at `offset` and the bytes behind it. -/
inductive DecodeFault (offset : Nat) (b : UInt8) (bytes : List UInt8) : Error → Prop
  | unassigned (h : ∀ opcode ∈ Opcode.catalogue, opcode.code ≠ b) :
    DecodeFault offset b bytes (.unknownOpcode b offset)
  | unsupported {opcode : Opcode} (hmem : opcode ∈ Opcode.catalogue) (hcode : opcode.code = b)
      (h : opcode.mnemonic = "tableswitch" ∨ opcode.mnemonic = "wide") :
    DecodeFault offset b bytes (.unsupportedInstruction opcode.mnemonic offset)
  | truncated {opcode : Opcode} (hmem : opcode ∈ Opcode.catalogue) (hcode : opcode.code = b)
      (h : opcode.RunsOut offset bytes) :
    DecodeFault offset b bytes (.truncatedInstruction opcode.mnemonic offset)

/-- A payload whose length cannot be read off is one that cannot be decoded, or ends too early. -/
theorem decodeFault_of_payloadSize {opcode : Opcode} (hmem : opcode ∈ Opcode.catalogue)
    {offset : Nat} {bytes : List UInt8} {e : Error}
    (h : payloadSize opcode offset bytes = .error e) :
    DecodeFault offset opcode.code bytes e := by
  rw [payloadSize] at h
  split at h
  · cases h
  · next hvarying hswitch =>
    dsimp only at h
    split at h
    · cases h
    · next hcount =>
      cases h
      refine .truncated hmem rfl ?_
      simp only [Opcode.RunsOut, hvarying]
      refine ⟨hswitch, ?_⟩
      -- the count is not there, or it is negative
      by_cases hlength : bytes.length < switchPadding offset + 8
      · exact .inl hlength
      · have hfour : ((bytes.drop (switchPadding offset + 4)).take 4).length = 4 := by simp; omega
        have hlt := Bytes.toNat_lt_capacity ((bytes.drop (switchPadding offset + 4)).take 4)
        rw [hfour] at hlt
        refine .inr (.inl (signed_neg_iff.mpr ⟨?_, hlt⟩))
        exact Nat.le_of_not_lt fun hsmall => hcount ⟨hfour, hsmall⟩
  · next hvarying hother =>
    cases h
    exact .unsupported hmem rfl (Opcode.mnemonic_of_varying _ hmem hvarying hother)

/-- Bytes that are shorter than the length that is read off end too early. -/
theorem runsOut_of_payloadSize {opcode : Opcode} {offset size : Nat} {bytes : List UInt8}
    (h : payloadSize opcode offset bytes = .ok size) (hshort : (bytes.take size).length ≠ size) :
    opcode.RunsOut offset bytes := by
  have hlt : bytes.length < size := by
    rw [List.length_take] at hshort
    omega
  rw [payloadSize] at h
  rw [Opcode.RunsOut]
  split at h
  · next kinds _ hkinds =>
    cases h
    simpa only [hkinds] using hlt
  · next hvarying hswitch =>
    dsimp only at h
    split at h
    · cases h
      simp only [hvarying]
      -- the count is there, so it is the pairs that are cut off
      exact ⟨hswitch, .inr (.inr hlt)⟩
    · cases h
  · cases h

/-- Bytes that end too early are found to be short in one of two ways: the length cannot be read off
them, or they are shorter than the length that is. -/
theorem payloadSize_of_runsOut {opcode : Opcode} {offset : Nat} {bytes : List UInt8}
    (h : opcode.RunsOut offset bytes) :
    payloadSize opcode offset bytes = .error (.truncatedInstruction opcode.mnemonic offset) ∨
      ∃ size, payloadSize opcode offset bytes = .ok size ∧ (bytes.take size).length ≠ size := by
  have hshort : ∀ {n}, bytes.length < n → (bytes.take n).length ≠ n := by
    intro n hlt
    rw [List.length_take]
    omega
  rw [Opcode.RunsOut] at h
  rw [payloadSize]
  split at h
  · next kinds hkinds =>
    simp only [hkinds]
    exact .inr ⟨_, rfl, hshort h⟩
  · next hvarying =>
    obtain ⟨hswitch, hcases⟩ := h
    simp only [hvarying, hswitch]
    split
    · next hcount =>
      have hneg := mt signed_neg_iff.mp (not_and_of_not_left _ (Nat.not_le.mpr hcount.2))
      have hfour := hcount.1
      simp only [List.length_take, List.length_drop] at hfour
      refine .inr ⟨_, rfl, hshort ?_⟩
      exact (hcases.resolve_left (by omega)).resolve_left hneg
    · exact .inl rfl

/-- A fault at an instruction is what decoding from there reports. -/
theorem decodeFrom_cons_eq_error {index offset : Nat} {b : UInt8} {bytes : List UInt8} {e : Error}
    (h : DecodeFault offset b bytes e) : decodeFrom index offset (b :: bytes) = .error e := by
  cases h with
  | unassigned h => rw [decodeFrom, Opcode.find?_eq_none_iff.mpr h]
  | @unsupported opcode hmem hcode h =>
    obtain ⟨hvarying, hother⟩ := Opcode.varying_of_mnemonic _ hmem h
    have hsize : payloadSize opcode offset bytes =
        .error (.unsupportedInstruction opcode.mnemonic offset) := by
      rw [payloadSize]
      split <;> simp_all
    rw [decodeFrom, ← hcode, Opcode.find?_code hmem]
    simp only [hsize, bind, Except.bind]
  | @truncated opcode hmem hcode h =>
    rw [decodeFrom, ← hcode, Opcode.find?_code hmem]
    rcases payloadSize_of_runsOut h with hsize | ⟨size, hsize, hshort⟩
    · simp only [hsize, bind, Except.bind]
    · simp only [hsize, bind, Except.bind, if_neg hshort]

/-- A failure is one of the instruction at which it is reported, and all bytes before that can be
decoded. The recursion of the decoder is followed up to there. -/
theorem exists_decodeFault {index offset : Nat} {bytes : List UInt8} {e : Error}
    (h : decodeFrom index offset bytes = .error e) :
    ∃ front b rest code, bytes = front ++ b :: rest ∧ decodeFrom index offset front = .ok code ∧
      DecodeFault (offset + front.length) b rest e := by
  -- a fault of the first instruction has nothing before it
  have hfirst : ∀ {index offset b bytes}, DecodeFault offset b bytes e →
      ∃ front b' rest code, b :: bytes = front ++ b' :: rest ∧
        decodeFrom index offset front = .ok code ∧
        DecodeFault (offset + front.length) b' rest e := by
    intro index offset b bytes hfault
    exact ⟨[], b, bytes, [], rfl, by rw [decodeFrom], hfault⟩
  induction index, offset, bytes using decodeFrom.induct with
  | case1 index offset => rw [decodeFrom] at h; cases h
  | case2 index offset b bytes hfind =>
    rw [decodeFrom, hfind] at h
    cases h
    exact hfirst (.unassigned (Opcode.find?_eq_none_iff.mp hfind))
  | case3 index offset b bytes opcode hfind ih =>
    have hmem := Opcode.mem_catalogue_of_find? hfind
    have hcode := Opcode.code_of_find? hfind
    rw [decodeFrom, hfind] at h
    rcases Result.bind_eq_error.mp h with hsize | ⟨size, hsize, h⟩
    · exact hfirst (hcode ▸ decodeFault_of_payloadSize hmem hsize)
    · split at h
      · next hlength =>
        rcases Result.bind_eq_error.mp h with h | ⟨_, -, h⟩
        · obtain ⟨front, b', rest, code, hdrop, hfront, hfault⟩ := ih size hlength h
          have hwell : Instruction.WellFormed ⟨offset, index, opcode, bytes.take size⟩ :=
            ⟨hmem, accepts_of_payloadSize hsize hlength⟩
          have hown := decodeFrom_encode_append hwell front
          simp only [Instruction.encode, Instruction.size, hcode, hlength, ← Nat.add_assoc, hfront,
            List.cons_append] at hown
          refine ⟨b :: (bytes.take size ++ front), b', rest, _, ?_, hown, ?_⟩
          · rw [List.cons_append, List.append_assoc, ← hdrop, List.take_append_drop]
          · have hlength' : offset + (b :: (bytes.take size ++ front)).length =
                offset + 1 + size + front.length := by
              rw [List.length_cons, List.length_append, hlength]
              omega
            rwa [hlength']
        · cases h
      · next hlength =>
        cases h
        exact hfirst (.truncated hmem hcode (runsOut_of_payloadSize hsize hlength))

/-- **Where and why bytes have no instructions.** The instruction at fault is the first one that
cannot be read. -/
theorem decodeFrom_eq_error_iff {index offset : Nat} {bytes : List UInt8} {e : Error} :
    decodeFrom index offset bytes = .error e ↔
      ∃ front b rest code, bytes = front ++ b :: rest ∧
        decodeFrom index offset front = .ok code ∧
        DecodeFault (offset + front.length) b rest e := by
  refine ⟨exists_decodeFault, ?_⟩
  rintro ⟨front, b, rest, code, rfl, hfront, hfault⟩
  rw [decodeFrom_append hfront, decodeFrom_cons_eq_error hfault]
  rfl

/-! ### The whole format -/

/-- A payload has the length that the catalogue gives, or that of the padding and the table of a
`lookupswitch`. -/
theorem Opcode.Accepts.length_payload {opcode : Opcode} {offset : Nat} {payload : List UInt8}
    (h : opcode.Accepts offset payload) :
    opcode.payload.size? = some payload.length ∨ opcode.operation = .lookupSwitch ∧
      ∃ table : SwitchTable, table.write = payload.drop (3 - offset % 4) ∧
        payload.length = 3 - offset % 4 + 8 + 8 * table.count.toNat := by
  rw [Accepts] at h
  split at h
  · next kinds hkinds =>
    refine .inl ?_
    rw [hkinds, Payload.size?, h]
  · obtain ⟨hswitch, padding, table, rfl, hpadding, hcount, -⟩ := h
    rw [switchPadding] at hpadding
    refine .inr ⟨hswitch, table, ?_, ?_⟩
    · rw [List.drop_left' hpadding]
    · rw [List.length_append, hpadding, SwitchTable.length_write, hcount, Nat.add_assoc]

/-- **Decoding and encoding are inverse over the whole format.** The instructions of decoded bytes
encode to these bytes; they are numbered in order, each stands where those before it end, and each
has a payload that its opcode accepts there. Conversely, such instructions are decoded from their
own bytes. Bytes that cannot be decoded have a first instruction that is at fault, and the error
names its offset: its opcode is unassigned, cannot be decoded, or is followed by too few bytes. -/
theorem decode_inverse_encode (bytes : List UInt8) :
    (∀ code, decode bytes = .ok code →
      code.flatMap Instruction.encode = bytes ∧ code.Pairwise (·.offset < ·.offset) ∧
      ∀ i a, code[i]? = some a →
        a.index = i ∧ a.offset = ((code.take i).map Instruction.size).sum ∧ a.WellFormed ∧
        (a.opcode.payload.size? = some a.payload.length ∨ a.operation = .lookupSwitch ∧
          ∃ table : SwitchTable, table.write = a.payload.drop (3 - a.offset % 4) ∧
            a.payload.length = 3 - a.offset % 4 + 8 + 8 * table.count.toNat)) ∧
    (∀ code : List Instruction,
      (∀ i a, code[i]? = some a →
        a.index = i ∧ a.offset = ((code.take i).map Instruction.size).sum ∧ a.WellFormed) →
      code.flatMap Instruction.encode = bytes → decode bytes = .ok code) ∧
    ∀ e, decode bytes = .error e ↔
      ∃ front b rest code, bytes = front ++ b :: rest ∧ decode front = .ok code ∧
        DecodeFault front.length b rest e := by
  refine ⟨?_, ?_, ?_⟩
  · intro code h
    obtain ⟨hseq, hwell, hbytes⟩ := decodeFrom_eq_ok_iff.mp h
    refine ⟨hbytes, ?_, ?_⟩
    · rw [List.pairwise_iff_getElem]
      intro i j hi hj hij
      exact hseq.offset_lt hij (List.getElem?_eq_getElem hi) (List.getElem?_eq_getElem hj)
    · intro i a ha
      obtain ⟨hindex, hoffset⟩ := sequential_iff.mp hseq i a ha
      have hown := hwell a (List.mem_of_getElem? ha)
      rw [Nat.zero_add] at hindex hoffset
      exact ⟨hindex, hoffset, hown, hown.accepts.length_payload⟩
  · intro code hcode hbytes
    refine decodeFrom_eq_ok_iff.mpr ⟨sequential_iff.mpr ?_, ?_, hbytes⟩
    · intro i a ha
      obtain ⟨hindex, hoffset, -⟩ := hcode i a ha
      exact ⟨by rw [hindex, Nat.zero_add], by rw [hoffset, Nat.zero_add]⟩
    · intro a ha
      obtain ⟨i, hi⟩ := List.getElem?_of_mem ha
      exact (hcode i a hi).2.2
  · intro e
    rw [decode, decodeFrom_eq_error_iff]
    simp only [Nat.zero_add, decode]

/-- A switch behind another instruction, whole and cut off inside of its only pair. -/
theorem decode_inverse_encode_of_switch :
    (∃ code, decode [0x03, 0xab, 0, 0, 0, 0, 0, 19, 0, 0, 0, 1, 0, 0, 0, 7, 0, 0, 0, 19, 0xb1] =
        .ok code ∧
      code.flatMap Instruction.encode =
        [0x03, 0xab, 0, 0, 0, 0, 0, 19, 0, 0, 0, 1, 0, 0, 0, 7, 0, 0, 0, 19, 0xb1]) ∧
    ∃ front b rest code,
      [0x03, 0xab, 0, 0, 0, 0, 0, 19, 0, 0, 0, 1, 0, 0, 0, 7] = front ++ b :: rest ∧
      decode front = .ok code ∧
      DecodeFault front.length b rest (.truncatedInstruction "lookupswitch" 1) := by
  have hok : (decode [0x03, 0xab, 0, 0, 0, 0, 0, 19, 0, 0, 0, 1, 0, 0, 0, 7, 0, 0, 0, 19,
      0xb1]).isOk = true := by
    decide +kernel
  have hcut : decode [0x03, 0xab, 0, 0, 0, 0, 0, 19, 0, 0, 0, 1, 0, 0, 0, 7] =
      .error (.truncatedInstruction "lookupswitch" 1) := by
    decide +kernel
  obtain ⟨code, hcode⟩ := Result.exists_of_isOk hok
  exact ⟨⟨code, hcode, ((decode_inverse_encode _).1 code hcode).1⟩,
    ((decode_inverse_encode _).2.2 _).mp hcut⟩

end JvmSource
