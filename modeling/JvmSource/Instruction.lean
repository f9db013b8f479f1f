import JvmSource.Bytes
import JvmSource.Error
import JvmSource.Opcode

/-!
# Instructions

A method's code is a run of instructions, each an opcode and the payload behind it. `decode` cuts
the code into instructions and `Instruction.encode` gives the bytes of one back. The operands are
read off the payload by the catalogue's layout; indices are never negative, all else is in two's
complement. A `lookupswitch` carries a table that starts at a multiple of four bytes.

An instruction keeps its payload as bytes and its operands are computed from it, so that nothing is
lost in decoding: the bytes of the instructions, one behind the other, are the code. It also keeps
its two positions, the offset of its first byte and the number of instructions before it. Jumps are
relative to the former; everything else in a method is counted by the latter.

Decoding fails in three ways, all of them found at the first instruction that is at fault: the code
of an opcode is not assigned, the payload runs past the end of the code, or the length of the
payload is not known because the instruction is not supported. The number of pairs of a
`lookupswitch` is a signed word, so a count of `0x80000000` or more is an instruction that runs past
the end. That the count and the pairs are there is checked here, so that reading the table later
(`Instruction.switchTable`) finds all of it.
-/

namespace JvmSource

/-- One instruction of a method, with its place in the code. -/
structure Instruction where
  /-- The byte position of the opcode in the code. -/
  offset : Nat
  /-- The number of instructions before this one. -/
  index : Nat
  opcode : Opcode
  /-- The bytes behind the opcode. -/
  payload : List UInt8
  deriving DecidableEq

/-- The table of a `lookupswitch`: jumps by key, relative to the instruction. The count is kept as
it is stored. -/
structure SwitchTable where
  default : Int32
  /-- The stored number of pairs. -/
  count : UInt32
  pairs : List (Int32 × Int32)
  deriving DecidableEq

namespace SwitchTable

/-- Reads one key with its jump. -/
def readPair : Bytes.Reader (Int32 × Int32) := do
  let key ← Bytes.Reader.i32
  let jump ← Bytes.Reader.i32
  return (key, jump)

/-- Reads a table: the default jump, the number of pairs, the pairs. As many pairs are read as the
count says. -/
def read : Bytes.Reader SwitchTable := do
  let default ← Bytes.Reader.i32
  let count ← Bytes.Reader.u32
  let pairs ← Bytes.Reader.many readPair count.toNat
  return { default, count, pairs }

/-- The bytes of a table, with the count as it is stored. -/
def write (table : SwitchTable) : List UInt8 :=
  Bytes.i32 table.default ++ Bytes.u32 table.count
    ++ table.pairs.flatMap fun pair => Bytes.i32 pair.1 ++ Bytes.i32 pair.2

end SwitchTable

/-- The number of bytes between a `lookupswitch` opcode at `offset` and its table. The table starts
at a multiple of four bytes from the start of the code. -/
def switchPadding (offset : Nat) : Nat :=
  3 - offset % 4

namespace Instruction

/-- What the instruction does, by its opcode. -/
def operation (instr : Instruction) : Operation :=
  instr.opcode.operation

/-- The name of the instruction's opcode. -/
def mnemonic (instr : Instruction) : String :=
  instr.opcode.mnemonic

/-- The number of bytes the instruction takes, its opcode included. -/
def size (instr : Instruction) : Nat :=
  1 + instr.payload.length

/-- The bytes of the instruction: its opcode and its payload, padding included. -/
def encode (instr : Instruction) : List UInt8 :=
  instr.opcode.code :: instr.payload

/-- The bytes of an instruction are as many as its size says. -/
@[simp] theorem length_encode (instr : Instruction) : instr.encode.length = instr.size := by
  simp [encode, size, Nat.add_comm]

/-! ### Operands -/

/-- The operands that a payload holds, as numbers without sign, cut off the front of the bytes one
after the other. -/
def splitOperands : List OperandKind → List UInt8 → List Nat
  | [], _ => []
  | kind :: kinds, bytes =>
    Bytes.toNat (bytes.take kind.size) :: splitOperands kinds (bytes.drop kind.size)

/-- The value of an operand: an index stands for itself, all else may be negative. -/
def operandValue (kind : OperandKind) (n : Nat) : Int :=
  if kind.isIndex then (n : Int) else Bytes.signed kind.size n

/-- The operands as numbers without sign. -/
def unsignedOperands (instr : Instruction) : List Nat :=
  splitOperands instr.opcode.payload.kinds instr.payload

/-- The values of the operands. There are as many as the catalogue lists for the opcode. -/
def operands (instr : Instruction) : List Int :=
  List.zipWith operandValue instr.opcode.payload.kinds instr.unsignedOperands

/-- The value of the operand at a position, zero when there is none. -/
def operand (instr : Instruction) (position : Nat) : Int :=
  instr.operands.getD position 0

/-- The operand at a position as a number without sign, zero when there is none. -/
def unsignedOperand (instr : Instruction) (position : Nat) : Nat :=
  instr.unsignedOperands.getD position 0

/-- The first operand as an index into the pool or the local variables. -/
def indexOperand (instr : Instruction) : UInt16 :=
  UInt16.ofNat (instr.unsignedOperand 0)

/-- The jump of a branch, relative to its offset. Other instructions have none, whatever their
operands. -/
def branchOffset? (instr : Instruction) : Option Int :=
  if instr.operation.isBranch then instr.operands.head? else none

/-- The offset a branch jumps to, which may lie outside the method or between two instructions. -/
def branchTarget? (instr : Instruction) : Option Int :=
  instr.branchOffset?.map (instr.offset + ·)

/-- The table of a `lookupswitch`, read again from its payload behind the padding. -/
def switchTable (instr : Instruction) : Result SwitchTable :=
  match SwitchTable.read.value? (instr.payload.drop (switchPadding instr.offset)) with
  | some table => .ok table
  | none => .error (.truncatedInstruction instr.mnemonic instr.offset)

end Instruction

/-! ### Decoding -/

/-- The length of the payload of an opcode at `offset`, given the bytes behind the opcode. That of a
`lookupswitch` is measured by the count among these bytes. -/
def payloadSize (opcode : Opcode) (offset : Nat) (bytes : List UInt8) : Result Nat :=
  match opcode.payload, opcode.operation with
  | .fixed kinds, _ => .ok (OperandKind.totalSize kinds)
  | .varying, .lookupSwitch =>
    let padding := switchPadding offset
    let count := (bytes.drop (padding + 4)).take 4
    if count.length = 4 ∧ Bytes.toNat count < 0x80000000 then
      .ok (padding + 8 + 8 * Bytes.toNat count)
    else .error (.truncatedInstruction opcode.mnemonic offset)
  | .varying, _ => .error (.unsupportedInstruction opcode.mnemonic offset)

/-- Decodes the code from `offset` on, where the next instruction has number `index`. The recursion
is on the bytes that are left, of which each instruction takes at least one. -/
def decodeFrom (index offset : Nat) (code : List UInt8) : Result (List Instruction) :=
  match code with
  | [] => .ok []
  | b :: bytes =>
    match Opcode.find? b with
    | none => .error (.unknownOpcode b offset)
    | some opcode => do
      let size ← payloadSize opcode offset bytes
      if (bytes.take size).length = size then
        let rest ← decodeFrom (index + 1) (offset + 1 + size) (bytes.drop size)
        return { offset, index, opcode, payload := bytes.take size } :: rest
      else .error (.truncatedInstruction opcode.mnemonic offset)
termination_by code.length
decreasing_by
  rw [List.length_drop, List.length_cons]
  omega

/-- Cuts the code of a method into instructions. The code must consist of whole instructions; the
empty code consists of none. -/
def decode (code : List UInt8) : Result (List Instruction) :=
  decodeFrom 0 0 code

end JvmSource
