import Mathlib.Data.List.Induction
import JvmSource.Instruction

/-!
# Bytes and what they spell

Every run of bytes spells a number that fits its width, and is spelled by that number
(`Bytes.ofNat_toNat`). So every four bytes are a word, signed or not, and bytes that begin with a
default and a count, and go on with as many pairs as the count says, are a switch table
(`SwitchTable.exists_write_eq`).

The lemmas go from bytes to what they spell, which is the direction that decoding needs: it has
bytes of the right number in its hands, and has to name the word or the table whose bytes they are.
The other direction, that written words are read back, belongs to the readers.
-/

namespace JvmSource

namespace Bytes

/-- The number that some bytes spell is less than the number of values that so many bytes can
take. -/
theorem toNat_lt_capacity (bytes : List UInt8) : toNat bytes < capacity bytes.length := by
  induction bytes using List.reverseRecOn with
  | nil => decide
  | append_singleton bytes b ih =>
    have hb := UInt8.toNat_lt b
    rw [toNat_concat, List.length_append, List.length_singleton, capacity]
    omega

/-- Bytes are spelled by the number that they spell. The induction is from the last byte, which is
the remainder of the number. -/
theorem ofNat_toNat (bytes : List UInt8) : ofNat bytes.length (toNat bytes) = bytes := by
  induction bytes using List.reverseRecOn with
  | nil => rfl
  | append_singleton bytes b ih =>
    have hb := UInt8.toNat_lt b
    have hdiv : (toNat bytes * 256 + b.toNat) / 256 = toNat bytes := by omega
    have hbyte : UInt8.ofNat (toNat bytes * 256 + b.toNat) = b := by
      refine UInt8.toNat_inj.mp ?_
      rw [UInt8.toNat_ofNat']
      omega
    rw [toNat_concat, List.length_append, List.length_singleton, ofNat, hdiv, ih, hbyte]

@[simp] theorem length_u32 (word : UInt32) : (u32 word).length = 4 :=
  length_ofNat 4 _

@[simp] theorem length_i32 (word : Int32) : (i32 word).length = 4 :=
  length_ofNat 4 _

/-- An unsigned word is the number that its bytes spell. -/
theorem toNat_u32 (word : UInt32) : toNat (u32 word) = word.toNat :=
  toNat_ofNat (UInt32.toNat_lt word)

/-- Four bytes are those of the unsigned word that they spell. -/
theorem u32_ofNat_toNat {bytes : List UInt8} (h : bytes.length = 4) :
    u32 (UInt32.ofNat (toNat bytes)) = bytes := by
  have hlt : toNat bytes < UInt32.size := by
    have hcapacity := toNat_lt_capacity bytes
    rwa [h] at hcapacity
  rw [u32, UInt32.toNat_ofNat_of_lt' hlt, ← h, ofNat_toNat]

/-- Any four bytes are those of a signed word. -/
theorem exists_i32_eq {bytes : List UInt8} (h : bytes.length = 4) : ∃ word, i32 word = bytes := by
  refine ⟨(UInt32.ofNat (toNat bytes)).toInt32, ?_⟩
  rw [i32, UInt32.toUInt32_toInt32]
  exact u32_ofNat_toNat h

end Bytes

namespace SwitchTable

/-- The bytes of some pairs: each of the two words of a pair takes four. -/
theorem length_flatMap_pairs (pairs : List (Int32 × Int32)) :
    (pairs.flatMap fun pair => Bytes.i32 pair.1 ++ Bytes.i32 pair.2).length = 8 * pairs.length := by
  induction pairs with
  | nil => rfl
  | cons pair pairs ih =>
    rw [List.flatMap_cons, List.length_append, ih]
    simp only [List.length_append, Bytes.length_i32, List.length_cons]
    omega

/-- The bytes of a table: a default, a count, and eight for each pair. -/
theorem length_write (table : SwitchTable) : table.write.length = 8 + 8 * table.pairs.length := by
  rw [write, List.length_append, length_flatMap_pairs]
  simp

/-- Eight bytes are a pair, so a multiple of eight bytes are so many pairs. -/
theorem exists_pairs_eq {n : Nat} {bytes : List UInt8} (h : bytes.length = 8 * n) :
    ∃ pairs : List (Int32 × Int32), pairs.length = n ∧
      (pairs.flatMap fun pair => Bytes.i32 pair.1 ++ Bytes.i32 pair.2) = bytes := by
  induction n generalizing bytes with
  | zero => exact ⟨[], rfl, (List.eq_nil_of_length_eq_zero h).symm⟩
  | succ n ih =>
    have hfirst : (bytes.take 4).length = 4 := by simp; omega
    have hsecond : ((bytes.drop 4).take 4).length = 4 := by simp; omega
    have hrest : ((bytes.drop 4).drop 4).length = 8 * n := by simp; omega
    obtain ⟨key, hkey⟩ := Bytes.exists_i32_eq hfirst
    obtain ⟨jump, hjump⟩ := Bytes.exists_i32_eq hsecond
    obtain ⟨pairs, hlength, hpairs⟩ := ih hrest
    refine ⟨(key, jump) :: pairs, by rw [List.length_cons, hlength], ?_⟩
    rw [List.flatMap_cons, hpairs, hkey, hjump, List.append_assoc, List.take_append_drop,
      List.take_append_drop]

/-- Bytes that are as long as their own count says are those of a table. The stored count of that
table is the number of its pairs. -/
theorem exists_write_eq {bytes : List UInt8}
    (h : bytes.length = 8 + 8 * Bytes.toNat ((bytes.drop 4).take 4)) :
    ∃ table : SwitchTable, table.write = bytes ∧ table.count.toNat = table.pairs.length ∧
      table.pairs.length = Bytes.toNat ((bytes.drop 4).take 4) := by
  have hfirst : (bytes.take 4).length = 4 := by simp; omega
  have hcount : ((bytes.drop 4).take 4).length = 4 := by simp; omega
  have hrest : ((bytes.drop 4).drop 4).length = 8 * Bytes.toNat ((bytes.drop 4).take 4) := by
    simp only [List.length_drop]
    omega
  obtain ⟨default, hdefault⟩ := Bytes.exists_i32_eq hfirst
  obtain ⟨pairs, hlength, hpairs⟩ := exists_pairs_eq hrest
  refine ⟨⟨default, UInt32.ofNat (Bytes.toNat ((bytes.drop 4).take 4)), pairs⟩, ?_, ?_, hlength⟩
  · rw [write, hdefault, Bytes.u32_ofNat_toNat hcount, hpairs, List.append_assoc,
      List.take_append_drop, List.take_append_drop]
  · rw [hlength, ← Bytes.toNat_u32, Bytes.u32_ofNat_toNat hcount]

end SwitchTable

end JvmSource
