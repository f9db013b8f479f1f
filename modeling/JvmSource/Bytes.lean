/-!
# Big-endian bytes

Words as big-endian bytes, and readers that take a value off the front of a byte list. A reader
returns the value with the bytes that follow it, and fails when the bytes run out.

The code of a method and the records of a class file are sequences of such words: the operands of an
instruction, the table of a switch, the fields of attributes and members. The number of a word is a
`Nat` at first (`Bytes.toNat`); the reading as a two's-complement number of the same width is a
second step (`Bytes.signed`), because which of the two is meant depends on the operand and not on
its width.

A reader says nothing about why it fails. Whoever uses it knows what was read and names the record
or the instruction in the error. Writers cannot fail: their words have the width already.
-/

namespace JvmSource

namespace Bytes

/-- The number that the bytes spell, most significant byte first. The empty list spells zero. -/
def toNat (bytes : List UInt8) : Nat :=
  bytes.foldl (fun n b => n * 256 + b.toNat) 0

/-- The lowest `width` bytes of a number, most significant byte first. What does not fit the width
is cut off at the front. -/
def ofNat : Nat → Nat → List UInt8
  | 0, _ => []
  | width + 1, n => ofNat width (n / 256) ++ [UInt8.ofNat n]

/-- The number of values that `width` bytes can take. Defined by recursion on the width, in the same
steps as `ofNat`. -/
def capacity : Nat → Nat
  | 0 => 1
  | width + 1 => 256 * capacity width

@[simp] theorem toNat_nil : toNat [] = 0 := rfl

/-- The last byte of a list is the least significant one. -/
theorem toNat_concat (bytes : List UInt8) (b : UInt8) :
    toNat (bytes ++ [b]) = toNat bytes * 256 + b.toNat := by
  simp [toNat, List.foldl_append]

/-- A number has as many bytes as its width says, whatever its value. -/
@[simp] theorem length_ofNat (width n : Nat) : (ofNat width n).length = width := by
  induction width generalizing n with
  | zero => rfl
  | succ width ih => simp [ofNat, ih]

/-- A number that fits its width is spelled by its bytes. -/
theorem toNat_ofNat {width n : Nat} (h : n < capacity width) : toNat (ofNat width n) = n := by
  induction width generalizing n with
  | zero =>
    rw [capacity] at h
    rw [ofNat, toNat_nil]
    omega
  | succ width ih =>
    rw [capacity] at h
    have hd : n / 256 < capacity width := Nat.div_lt_of_lt_mul h
    rw [ofNat, toNat_concat, ih hd, UInt8.toNat_ofNat']
    omega

/-- The two's-complement reading of a number of `width` bytes: the upper half of the numbers stands
for the negative ones. -/
def signed (width n : Nat) : Int :=
  if 2 * n < capacity width then (n : Int) else (n : Int) - capacity width

/-! ### Readers -/

/-- A reader of `α` off the front of a byte list. It fails, or gives a value and the bytes behind
it. -/
abbrev Reader (α : Type) : Type := StateT (List UInt8) Option α

/-- Reads `n` bytes as they are, and fails if there are fewer. -/
def Reader.bytes (n : Nat) : Reader (List UInt8) := fun input =>
  if (input.take n).length = n then some (input.take n, input.drop n) else none

/-- Reads a number of `width` bytes. -/
def Reader.nat (width : Nat) : Reader Nat := do
  return toNat (← Reader.bytes width)

/-- Reads a two-byte word. -/
def Reader.u16 : Reader UInt16 := do
  return UInt16.ofNat (← Reader.nat 2)

/-- Reads a four-byte word. -/
def Reader.u32 : Reader UInt32 := do
  return UInt32.ofNat (← Reader.nat 4)

/-- Reads a signed four-byte word, such as a key or a jump of a switch. -/
def Reader.i32 : Reader Int32 := do
  return Int32.ofInt (signed 4 (← Reader.nat 4))

/-- Reads `n` values, one behind the other. -/
def Reader.many {α : Type} (item : Reader α) : Nat → Reader (List α)
  | 0 => return []
  | n + 1 => do
    let first ← item
    let rest ← Reader.many item n
    return first :: rest

/-- The value at the front of `input`, whatever follows it. Bytes that are left over are no
failure. -/
def Reader.value? {α : Type} (reader : Reader α) (input : List UInt8) : Option α :=
  (reader.run input).map Prod.fst

/-! ### Writers -/

/-- The bytes of a two-byte word. -/
def u16 (word : UInt16) : List UInt8 :=
  ofNat 2 word.toNat

/-- The bytes of a four-byte word. -/
def u32 (word : UInt32) : List UInt8 :=
  ofNat 4 word.toNat

/-- The bytes of a signed four-byte word. -/
def i32 (word : Int32) : List UInt8 :=
  ofNat 4 word.toUInt32.toNat

end Bytes

end JvmSource
