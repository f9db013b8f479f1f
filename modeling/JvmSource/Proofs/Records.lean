import JvmSource.Member
import JvmSource.Proofs.Bytes

/-!
# Records and their bytes

Every record is stored as its fields one behind the other, and a list behind its count. A reader
*inverts* a writer if what it takes off the front of an input is always the bytes of a value, and
all bytes of values can be taken off so (`Bytes.Reader.Inverts`). This is one equivalence, which
`simp` can take through the fields of a record.

The readers of words, of plain bytes and of lists invert their writers. From them this follows for
each record, where the values are those whose stored counts are the lengths of their lists, on every
level (the predicates `Consistent`). A record with a wrong count can be written, but what is read
from its bytes is another one, or nothing.

An equivalence of that kind gives the three laws of `Bytes.Reader.RoundTrips`: a record is read back
from its bytes whatever is behind them, a record that is read is written as the bytes it was read
from, and bytes that are cut off cannot be read. The third law follows from the first two.
`records_round_trip` states them for all records, and for the code of a method also the way through
the attribute in which it is kept.
-/

namespace JvmSource

namespace Bytes

theorem length_u16 (word : UInt16) : (u16 word).length = 2 :=
  length_ofNat 2 _

/-- An unsigned word of two bytes is the number that its bytes spell. -/
theorem toNat_u16 (word : UInt16) : toNat (u16 word) = word.toNat :=
  toNat_ofNat (UInt16.toNat_lt word)

/-- Two bytes are those of the word that they spell. -/
theorem u16_ofNat_toNat {bytes : List UInt8} (h : bytes.length = 2) :
    u16 (UInt16.ofNat (toNat bytes)) = bytes := by
  have hlt : toNat bytes < UInt16.size := by
    have hcapacity := toNat_lt_capacity bytes
    rwa [h] at hcapacity
  rw [u16, UInt16.toNat_ofNat_of_lt' hlt, ← h, ofNat_toNat]

/-- The two's-complement reading of the bytes of a signed word is its value. -/
theorem signed_toNat_i32 (word : Int32) : signed 4 (toNat (i32 word)) = word.toInt := by
  have htoNat : toNat (i32 word) = word.toBitVec.toNat :=
    toNat_ofNat (UInt32.toNat_lt word.toUInt32)
  rw [htoNat, Int32.toInt, BitVec.toInt_eq_toNat_cond]
  rfl

namespace Reader

variable {α β : Type} {input rest : List UInt8}

/-! ### Readers and writers -/

/-- What the reader takes off the front of an input are the bytes of a value with the property `p`,
and it takes all such bytes off. -/
def Inverts (read : Reader α) (p : α → Prop) (write : α → List UInt8) : Prop :=
  ∀ input a rest, read.run input = some (a, rest) ↔ p a ∧ input = write a ++ rest

/-- A reader and a writer that fit together, on the values with the property `p`. -/
structure RoundTrips (read : Reader α) (p : α → Prop) (write : α → List UInt8) : Prop where
  /-- A value is read back from its bytes, and what is behind them is left. -/
  run_write_append : ∀ a rest, p a → read.run (write a ++ rest) = some (a, rest)
  /-- What is read off an input is written as the bytes that it was read from. -/
  of_run : ∀ input a rest, read.run input = some (a, rest) → p a ∧ write a ++ rest = input
  /-- From a part of the bytes of a value, nothing is read. -/
  run_front : ∀ a front behind, p a → write a = front ++ behind → behind ≠ [] →
    read.run front = none

/-- The third law follows from the first two: a value that could be read from a part of the bytes
would be read from all of them as well, and would leave something behind. -/
theorem Inverts.roundTrips {read : Reader α} {p : α → Prop} {write : α → List UInt8}
    (h : read.Inverts p write) : read.RoundTrips p write where
  run_write_append a rest ha := (h _ a rest).mpr ⟨ha, rfl⟩
  of_run input a rest hrun := by
    obtain ⟨ha, hinput⟩ := (h input a rest).mp hrun
    exact ⟨ha, hinput.symm⟩
  run_front a front behind ha hfront hbehind := by
    cases hrun : read.run front with
    | none => rfl
    | some result =>
      obtain ⟨b, rest⟩ := result
      obtain ⟨hb, rfl⟩ := (h front b rest).mp hrun
      have hwhole : read.run (write a) = some (a, []) :=
        (h _ a []).mpr ⟨ha, (List.append_nil _).symm⟩
      have hagain : read.run (write a) = some (b, rest ++ behind) :=
        (h _ b _).mpr ⟨hb, by rw [hfront, List.append_assoc]⟩
      have hnil : [] = rest ++ behind :=
        congrArg Prod.snd (Option.some.inj (hwhole.symm.trans hagain))
      exact absurd (List.append_eq_nil_iff.mp hnil.symm).2 hbehind

/-! ### Words, bytes and lists -/

/-- Two readers in sequence: the second one goes on where the first one has stopped. -/
theorem run_bind_eq_some {x : Reader α} {f : α → Reader β} {b : β} :
    (x >>= f).run input = some (b, rest) ↔
      ∃ a mid, x.run input = some (a, mid) ∧ (f a).run mid = some (b, rest) := by
  rw [StateT.run_bind]
  constructor
  · intro h
    obtain ⟨⟨a, mid⟩, hx, hf⟩ := Option.bind_eq_some_iff.mp h
    exact ⟨a, mid, hx, hf⟩
  · rintro ⟨a, mid, hx, hf⟩
    exact Option.bind_eq_some_iff.mpr ⟨(a, mid), hx, hf⟩

theorem run_pure_eq_some {a b : α} :
    (pure a : Reader α).run input = some (b, rest) ↔ a = b ∧ input = rest := by
  rw [StateT.run_pure]
  simp [pure]

/-- Plain bytes are taken off as they are, if there are enough. -/
theorem run_bytes_eq_some {n : Nat} {bytes : List UInt8} :
    (Reader.bytes n).run input = some (bytes, rest) ↔ bytes.length = n ∧ input = bytes ++ rest := by
  have hrun : (Reader.bytes n).run input =
      if (input.take n).length = n then some (input.take n, input.drop n) else none := rfl
  rw [hrun]
  constructor
  · intro h
    split at h
    · next hlength =>
      obtain ⟨rfl, rfl⟩ := Prod.mk.inj (Option.some.inj h)
      exact ⟨hlength, (List.take_append_drop n input).symm⟩
    · cases h
  · rintro ⟨rfl, rfl⟩
    simp

/-- Words of a width are read as they are written, if every number of that width is written as the
bytes that spell it. -/
theorem run_word_eq_some {width : Nat} {f : Nat → α} {write : α → List UInt8}
    (hlength : ∀ a, (write a).length = width) (hread : ∀ a, f (toNat (write a)) = a)
    (hwrite : ∀ bytes, bytes.length = width → write (f (toNat bytes)) = bytes) {a : α} :
    (do return f (← Reader.nat width) : Reader α).run input = some (a, rest) ↔
      input = write a ++ rest := by
  simp only [Reader.nat, run_bind_eq_some, run_pure_eq_some, run_bytes_eq_some]
  constructor
  · rintro ⟨_, _, ⟨bytes, _, ⟨hbytes, rfl⟩, rfl, rfl⟩, rfl, rfl⟩
    rw [hwrite bytes hbytes]
  · rintro rfl
    exact ⟨_, _, ⟨write a, _, ⟨hlength a, rfl⟩, rfl, rfl⟩, hread a, rfl⟩

theorem run_u16_eq_some {word : UInt16} :
    Reader.u16.run input = some (word, rest) ↔ input = Bytes.u16 word ++ rest :=
  run_word_eq_some length_u16 (fun word => by rw [toNat_u16, UInt16.ofNat_toNat])
    fun _ => u16_ofNat_toNat

theorem run_u32_eq_some {word : UInt32} :
    Reader.u32.run input = some (word, rest) ↔ input = Bytes.u32 word ++ rest :=
  run_word_eq_some length_u32 (fun word => by rw [toNat_u32, UInt32.ofNat_toNat])
    fun _ => u32_ofNat_toNat

theorem run_i32_eq_some {word : Int32} :
    Reader.i32.run input = some (word, rest) ↔ input = Bytes.i32 word ++ rest := by
  have hread (word : Int32) : Int32.ofInt (signed 4 (toNat (Bytes.i32 word))) = word := by
    rw [signed_toNat_i32, Int32.ofInt_toInt]
  refine run_word_eq_some (f := fun n => Int32.ofInt (signed 4 n)) length_i32 hread ?_
  intro bytes hbytes
  obtain ⟨word, rfl⟩ := exists_i32_eq hbytes
  rw [hread]

/-- **A list** is read as it is written if its elements are. The number of elements is known
before. -/
theorem Inverts.many {item : Reader α} {p : α → Prop} {write : α → List UInt8}
    (h : item.Inverts p write) (n : Nat) :
    (Reader.many item n).Inverts (fun as => as.length = n ∧ ∀ a ∈ as, p a)
      (fun as => as.flatMap write) := by
  induction n with
  | zero =>
    intro input as rest
    rw [Reader.many, run_pure_eq_some]
    constructor
    · rintro ⟨rfl, rfl⟩
      simp
    · rintro ⟨⟨hlength, -⟩, rfl⟩
      obtain rfl := List.length_eq_zero_iff.mp hlength
      exact ⟨rfl, rfl⟩
  | succ n ih =>
    intro input as rest
    simp only [Reader.many, run_bind_eq_some, run_pure_eq_some, h _ _ _, ih _ _ _]
    constructor
    · rintro ⟨a, _, ⟨ha, rfl⟩, as, _, ⟨⟨rfl, has⟩, rfl⟩, rfl, rfl⟩
      refine ⟨⟨rfl, List.forall_mem_cons.mpr ⟨ha, has⟩⟩, ?_⟩
      rw [List.flatMap_cons, List.append_assoc]
    · rintro ⟨⟨hlength, has⟩, rfl⟩
      obtain ⟨a, as, rfl⟩ := List.exists_cons_of_length_eq_add_one hlength
      obtain ⟨ha, has⟩ := List.forall_mem_cons.mp has
      refine ⟨a, _, ⟨ha, ?_⟩, as, _, ⟨⟨Nat.succ.inj hlength, has⟩, rfl⟩, rfl, rfl⟩
      rw [List.flatMap_cons, List.append_assoc]

end Reader

end Bytes

/-! ### Records -/

open Bytes.Reader

/-- The stored length of an attribute is that of its contents, which a word of four bytes can
hold. -/
def Attribute.Consistent (a : Attribute) : Prop :=
  a.info.length = a.length.toNat

/-- The stored count of a table is that of its rows. -/
def LocalVariableTable.Consistent (t : LocalVariableTable) : Prop :=
  t.entries.length = t.count.toNat

/-- The stored count of a switch table is that of its pairs. -/
def SwitchTable.Consistent (t : SwitchTable) : Prop :=
  t.pairs.length = t.count.toNat

/-- The stored counts of a method's code are those of its lists, and those of its attributes are
right as well. -/
structure Code.Consistent (c : Code) : Prop where
  length_code : c.code.length = c.codeLength.toNat
  length_exceptions : c.exceptions.length = c.exceptionCount.toNat
  length_attributes : c.attributes.length = c.attributeCount.toNat
  attributes : ∀ a ∈ c.attributes, a.Consistent

/-- The stored count of a member is that of its attributes, and theirs are right as well. -/
structure Member.Consistent (m : Member) : Prop where
  length_attributes : m.attributes.length = m.attributeCount.toNat
  attributes : ∀ a ∈ m.attributes, a.Consistent

/-- An attribute is read as it is written. -/
theorem Attribute.inverts_read : read.Inverts Consistent write := by
  intro input a rest
  simp only [read, write, List.append_assoc, run_bind_eq_some, run_u16_eq_some, run_u32_eq_some,
    run_bytes_eq_some, run_pure_eq_some]
  constructor
  · rintro ⟨name, _, rfl, length, _, rfl, info, _, ⟨hlength, rfl⟩, rfl, rfl⟩
    exact ⟨hlength, rfl⟩
  · rintro ⟨hlength, rfl⟩
    exact ⟨_, _, rfl, _, _, rfl, _, _, ⟨hlength, rfl⟩, rfl, rfl⟩

/-- An exception entry has no counts. -/
theorem ExceptionEntry.inverts_read : read.Inverts (fun _ => True) write := by
  intro input e rest
  simp only [read, write, List.append_assoc, run_bind_eq_some, run_u16_eq_some, run_pure_eq_some]
  constructor
  · rintro ⟨startPc, _, rfl, endPc, _, rfl, handlerPc, _, rfl, catchType, _, rfl, rfl, rfl⟩
    exact ⟨trivial, rfl⟩
  · rintro ⟨-, rfl⟩
    exact ⟨_, _, rfl, _, _, rfl, _, _, rfl, _, _, rfl, rfl, rfl⟩

/-- A row of a table is read as it is written; it has no counts. -/
theorem LocalVariableEntry.inverts_read : read.Inverts (fun _ => True) write := by
  intro input e rest
  simp only [read, write, List.append_assoc, run_bind_eq_some, run_u16_eq_some, run_pure_eq_some]
  constructor
  · rintro ⟨startPc, _, rfl, length, _, rfl, name, _, rfl, descriptor, _, rfl, slot, _, rfl, rfl,
      rfl⟩
    exact ⟨trivial, rfl⟩
  · rintro ⟨-, rfl⟩
    exact ⟨_, _, rfl, _, _, rfl, _, _, rfl, _, _, rfl, _, _, rfl, rfl, rfl⟩

/-- A pair of a switch is read as it is written. -/
theorem SwitchTable.inverts_readPair :
    readPair.Inverts (fun _ => True) fun pair => Bytes.i32 pair.1 ++ Bytes.i32 pair.2 := by
  intro input pair rest
  simp only [readPair, List.append_assoc, run_bind_eq_some, run_i32_eq_some, run_pure_eq_some]
  constructor
  · rintro ⟨key, _, rfl, jump, _, rfl, rfl, rfl⟩
    exact ⟨trivial, rfl⟩
  · rintro ⟨-, rfl⟩
    exact ⟨_, _, rfl, _, _, rfl, rfl, rfl⟩

/-- A table of local variables is read as it is written. -/
theorem LocalVariableTable.inverts_read : read.Inverts Consistent write := by
  intro input t rest
  simp only [read, write, List.append_assoc, run_bind_eq_some, run_u16_eq_some,
    LocalVariableEntry.inverts_read.many _ _ _ _, run_pure_eq_some]
  constructor
  · rintro ⟨count, _, rfl, entries, _, ⟨⟨hlength, -⟩, rfl⟩, rfl, rfl⟩
    exact ⟨hlength, rfl⟩
  · rintro ⟨hlength, rfl⟩
    exact ⟨_, _, rfl, _, _, ⟨⟨hlength, fun _ _ => trivial⟩, rfl⟩, rfl, rfl⟩

/-- A switch table is read as it is written. -/
theorem SwitchTable.inverts_read : read.Inverts Consistent write := by
  intro input t rest
  simp only [read, write, List.append_assoc, run_bind_eq_some, run_i32_eq_some, run_u32_eq_some,
    inverts_readPair.many _ _ _ _, run_pure_eq_some]
  constructor
  · rintro ⟨default, _, rfl, count, _, rfl, pairs, _, ⟨⟨hlength, -⟩, rfl⟩, rfl, rfl⟩
    exact ⟨hlength, rfl⟩
  · rintro ⟨hlength, rfl⟩
    exact ⟨_, _, rfl, _, _, rfl, _, _, ⟨⟨hlength, fun _ _ => trivial⟩, rfl⟩, rfl, rfl⟩

/-- A method's code is read as it is written. -/
theorem Code.inverts_read : read.Inverts Consistent write := by
  intro input c rest
  simp only [read, write, List.append_assoc, run_bind_eq_some, run_u16_eq_some, run_u32_eq_some,
    run_bytes_eq_some, ExceptionEntry.inverts_read.many _ _ _ _,
    Attribute.inverts_read.many _ _ _ _, run_pure_eq_some]
  constructor
  · rintro ⟨maxStack, _, rfl, maxLocals, _, rfl, codeLength, _, rfl, code, _, ⟨hcode, rfl⟩,
      exceptionCount, _, rfl, exceptions, _, ⟨⟨hexceptions, -⟩, rfl⟩,
      attributeCount, _, rfl, attributes, _, ⟨⟨hattributes, hall⟩, rfl⟩, rfl, rfl⟩
    exact ⟨⟨hcode, hexceptions, hattributes, hall⟩, rfl⟩
  · rintro ⟨h, rfl⟩
    exact ⟨_, _, rfl, _, _, rfl, _, _, rfl, _, _, ⟨h.length_code, rfl⟩,
      _, _, rfl, _, _, ⟨⟨h.length_exceptions, fun _ _ => trivial⟩, rfl⟩,
      _, _, rfl, _, _, ⟨⟨h.length_attributes, h.attributes⟩, rfl⟩, rfl, rfl⟩

/-- A field or a method is read as it is written. -/
theorem Member.inverts_read : read.Inverts Consistent write := by
  intro input m rest
  simp only [read, write, List.append_assoc, run_bind_eq_some, run_u16_eq_some,
    Attribute.inverts_read.many _ _ _ _, run_pure_eq_some]
  constructor
  · rintro ⟨bits, _, rfl, name, _, rfl, descriptor, _, rfl, attributeCount, _, rfl,
      attributes, _, ⟨⟨hattributes, hall⟩, rfl⟩, rfl, rfl⟩
    exact ⟨⟨hattributes, hall⟩, rfl⟩
  · rintro ⟨h, rfl⟩
    exact ⟨_, _, rfl, _, _, rfl, _, _, rfl, _, _, rfl,
      _, _, ⟨⟨h.length_attributes, h.attributes⟩, rfl⟩, rfl, rfl⟩

/-- Code that is put together from lists which are not too long has the right counts. -/
theorem Code.consistent_ofParts {maxStack maxLocals : UInt16} {code : List UInt8}
    {exceptions : List ExceptionEntry} {attributes : List Attribute}
    (hcode : code.length < UInt32.size) (hexceptions : exceptions.length < UInt16.size)
    (hattributes : attributes.length < UInt16.size) (hall : ∀ a ∈ attributes, a.Consistent) :
    (ofParts maxStack maxLocals code exceptions attributes).Consistent where
  length_code := (UInt32.toNat_ofNat_of_lt' hcode).symm
  length_exceptions := (UInt16.toNat_ofNat_of_lt' hexceptions).symm
  length_attributes := (UInt16.toNat_ofNat_of_lt' hattributes).symm
  attributes := hall

/-- Code whose counts are right comes back out of the attribute that holds it. -/
theorem Code.ofAttribute_toAttribute {c : Code} (h : c.Consistent) (name : UInt16) :
    ofAttribute (c.toAttribute name) = .ok c := by
  have hrun : read.run c.write = some (c, []) := by
    rw [inverts_read]
    exact ⟨h, (List.append_nil _).symm⟩
  rw [ofAttribute, toAttribute, Attribute.ofInfo, value?, hrun]
  rfl

/-- **Records survive being written and read**, and the other way round: attributes, tables of local
variables, switch tables, the code of methods, and members, be they fields or methods. So code that
is put together from its parts comes back out of its attribute. -/
theorem records_round_trip :
    Attribute.read.RoundTrips Attribute.Consistent Attribute.write ∧
    LocalVariableTable.read.RoundTrips LocalVariableTable.Consistent LocalVariableTable.write ∧
    SwitchTable.read.RoundTrips SwitchTable.Consistent SwitchTable.write ∧
    Code.read.RoundTrips Code.Consistent Code.write ∧
    Member.read.RoundTrips Member.Consistent Member.write ∧
    ∀ (maxStack maxLocals : UInt16) (code : List UInt8) (exceptions : List ExceptionEntry)
      (attributes : List Attribute) (name : UInt16), code.length < UInt32.size →
      exceptions.length < UInt16.size → attributes.length < UInt16.size →
      (∀ a ∈ attributes, a.Consistent) →
      Code.ofAttribute
          ((Code.ofParts maxStack maxLocals code exceptions attributes).toAttribute name) =
        .ok (Code.ofParts maxStack maxLocals code exceptions attributes) := by
  refine ⟨Attribute.inverts_read.roundTrips, LocalVariableTable.inverts_read.roundTrips,
    SwitchTable.inverts_read.roundTrips, Code.inverts_read.roundTrips,
    Member.inverts_read.roundTrips, ?_⟩
  intro maxStack maxLocals code exceptions attributes name hcode hexceptions hattributes hall
  exact Code.ofAttribute_toAttribute
    (Code.consistent_ofParts hcode hexceptions hattributes hall) name

/-- Code with a handler and a nested attribute: read in front of another byte, cut off, and taken
out of its attribute. -/
theorem records_round_trip_of_nested_attribute :
    ∃ c : Code, c = .ofParts 1 1 [0x2a, 0xbf, 0xbf] [⟨0, 2, 2, 0⟩] [.ofInfo 3 [0, 0]] ∧
      c.Consistent ∧ Code.read.run (c.write ++ [7]) = some (c, [7]) ∧
      Code.read.run c.write.dropLast = none ∧ Code.ofAttribute (c.toAttribute 9) = .ok c := by
  have hall : ∀ a ∈ [Attribute.ofInfo 3 [0, 0]], a.Consistent := by
    rintro a (_ | ⟨_, ⟨⟩⟩)
    rfl
  have hconsistent :
      (Code.ofParts 1 1 [0x2a, 0xbf, 0xbf] [⟨0, 2, 2, 0⟩] [.ofInfo 3 [0, 0]]).Consistent :=
    ⟨rfl, rfl, rfl, hall⟩
  obtain ⟨-, -, -, hcode, -, hparts⟩ := records_round_trip
  refine ⟨_, rfl, hconsistent, hcode.run_write_append _ [7] hconsistent, ?_, ?_⟩
  · exact hcode.run_front _ _ [0] hconsistent (by decide) (by decide)
  · exact hparts 1 1 _ _ _ 9 (by decide) (by decide) (by decide) hall

end JvmSource
