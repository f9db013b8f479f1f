import JvmSource.Operation

/-!
# The opcode catalogue

Every assigned opcode with its mnemonic, the layout of the bytes behind it and what it does.

The catalogue is the only place in which the number of an opcode means anything. Decoding looks an
opcode up once (`Opcode.find?`), and from then on an instruction carries the entry that was found: a
mnemonic for messages, a payload that says how many bytes follow and how they are cut into operands,
and an operation that says what the instruction does.

The payload of all but three opcodes is fixed. That of `lookupswitch` depends on where the opcode
stands and on a count among the bytes behind it; those of `tableswitch` and `wide` are not measured,
because these opcodes have no form here. A code that is not in the catalogue is no instruction.
-/

namespace JvmSource

/-- How one operand of an instruction is encoded: its width, and whether it is an index into the
pool or the local variables or a number that may be negative. -/
inductive OperandKind where
  | byte
  | short
  | int
  | poolIndexByte
  | poolIndexShort
  | localIndex
  deriving DecidableEq

namespace OperandKind

/-- The number of bytes an operand takes. -/
def size : OperandKind → Nat
  | byte | poolIndexByte | localIndex => 1
  | short | poolIndexShort => 2
  | int => 4

/-- The number of bytes that some operands take together. The operands of an instruction stand
behind each other without gaps. -/
def totalSize (kinds : List OperandKind) : Nat :=
  kinds.foldr (fun kind n => kind.size + n) 0

/-- Whether the operand is an index, which is never negative. All other operands are in two's
complement. -/
def isIndex : OperandKind → Bool
  | poolIndexByte | poolIndexShort | localIndex => true
  | _ => false

end OperandKind

/-- The bytes behind an opcode: a sequence of operands, or something that has to be measured. -/
inductive Payload where
  | fixed (kinds : List OperandKind)
  /-- The length depends on the bytes themselves or on where they stand. -/
  | varying
  deriving DecidableEq

namespace Payload

/-- The operands of a fixed payload; a varying one has none. -/
def kinds : Payload → List OperandKind
  | fixed kinds => kinds
  | varying => []

/-- The length in bytes of a fixed payload. -/
def size? : Payload → Option Nat
  | fixed kinds => some (OperandKind.totalSize kinds)
  | varying => none

end Payload

/-- An assigned opcode, as the catalogue describes it. -/
structure Opcode where
  code : UInt8
  mnemonic : String
  payload : Payload
  operation : Operation
  deriving DecidableEq

namespace Opcode

/-- Every assigned opcode, in ascending order. The last three are reserved for debuggers and for the
machine itself. -/
def catalogue : List Opcode := [
  ⟨0x00, "nop", .fixed [], .nop⟩,
  ⟨0x01, "aconst_null", .fixed [], .pushNull⟩,
  ⟨0x02, "iconst_m1", .fixed [], .pushInt (-1)⟩,
  ⟨0x03, "iconst_0", .fixed [], .pushInt 0⟩,
  ⟨0x04, "iconst_1", .fixed [], .pushInt 1⟩,
  ⟨0x05, "iconst_2", .fixed [], .pushInt 2⟩,
  ⟨0x06, "iconst_3", .fixed [], .pushInt 3⟩,
  ⟨0x07, "iconst_4", .fixed [], .pushInt 4⟩,
  ⟨0x08, "iconst_5", .fixed [], .pushInt 5⟩,
  ⟨0x09, "lconst_0", .fixed [], .pushLong 0⟩,
  ⟨0x0a, "lconst_1", .fixed [], .pushLong 1⟩,
  ⟨0x0b, "fconst_0", .fixed [], .pushFloat 0⟩,
  ⟨0x0c, "fconst_1", .fixed [], .pushFloat 0x3f800000⟩,
  ⟨0x0d, "fconst_2", .fixed [], .pushFloat 0x40000000⟩,
  ⟨0x0e, "dconst_0", .fixed [], .pushDouble 0⟩,
  ⟨0x0f, "dconst_1", .fixed [], .pushDouble 0x3ff0000000000000⟩,
  ⟨0x10, "bipush", .fixed [.byte], .pushOperand⟩,
  ⟨0x11, "sipush", .fixed [.short], .pushOperand⟩,
  ⟨0x12, "ldc", .fixed [.poolIndexByte], .pushConstant false⟩,
  ⟨0x13, "ldc_w", .fixed [.poolIndexShort], .pushConstant false⟩,
  ⟨0x14, "ldc2_w", .fixed [.poolIndexShort], .pushConstant true⟩,
  ⟨0x15, "iload", .fixed [.localIndex], .load .int none⟩,
  ⟨0x16, "lload", .fixed [.localIndex], .load .long none⟩,
  ⟨0x17, "fload", .fixed [.localIndex], .load .float none⟩,
  ⟨0x18, "dload", .fixed [.localIndex], .load .double none⟩,
  ⟨0x19, "aload", .fixed [.localIndex], .loadReference none⟩,
  ⟨0x1a, "iload_0", .fixed [], .load .int (some 0)⟩,
  ⟨0x1b, "iload_1", .fixed [], .load .int (some 1)⟩,
  ⟨0x1c, "iload_2", .fixed [], .load .int (some 2)⟩,
  ⟨0x1d, "iload_3", .fixed [], .load .int (some 3)⟩,
  ⟨0x1e, "lload_0", .fixed [], .load .long (some 0)⟩,
  ⟨0x1f, "lload_1", .fixed [], .load .long (some 1)⟩,
  ⟨0x20, "lload_2", .fixed [], .load .long (some 2)⟩,
  ⟨0x21, "lload_3", .fixed [], .load .long (some 3)⟩,
  ⟨0x22, "fload_0", .fixed [], .load .float (some 0)⟩,
  ⟨0x23, "fload_1", .fixed [], .load .float (some 1)⟩,
  ⟨0x24, "fload_2", .fixed [], .load .float (some 2)⟩,
  ⟨0x25, "fload_3", .fixed [], .load .float (some 3)⟩,
  ⟨0x26, "dload_0", .fixed [], .load .double (some 0)⟩,
  ⟨0x27, "dload_1", .fixed [], .load .double (some 1)⟩,
  ⟨0x28, "dload_2", .fixed [], .load .double (some 2)⟩,
  ⟨0x29, "dload_3", .fixed [], .load .double (some 3)⟩,
  ⟨0x2a, "aload_0", .fixed [], .loadReference (some 0)⟩,
  ⟨0x2b, "aload_1", .fixed [], .loadReference (some 1)⟩,
  ⟨0x2c, "aload_2", .fixed [], .loadReference (some 2)⟩,
  ⟨0x2d, "aload_3", .fixed [], .loadReference (some 3)⟩,
  ⟨0x2e, "iaload", .fixed [], .arrayLoad (some .int)⟩,
  ⟨0x2f, "laload", .fixed [], .arrayLoad (some .long)⟩,
  ⟨0x30, "faload", .fixed [], .arrayLoad (some .float)⟩,
  ⟨0x31, "daload", .fixed [], .arrayLoad (some .double)⟩,
  ⟨0x32, "aaload", .fixed [], .arrayLoad none⟩,
  ⟨0x33, "baload", .fixed [], .arrayLoad (some .byte)⟩,
  ⟨0x34, "caload", .fixed [], .arrayLoad (some .char)⟩,
  ⟨0x35, "saload", .fixed [], .arrayLoad (some .short)⟩,
  ⟨0x36, "istore", .fixed [.byte], .store none none⟩,
  ⟨0x37, "lstore", .fixed [.byte], .store none none⟩,
  ⟨0x38, "fstore", .fixed [.byte], .store none none⟩,
  ⟨0x39, "dstore", .fixed [.byte], .store none none⟩,
  ⟨0x3a, "astore", .fixed [.byte], .store none none⟩,
  ⟨0x3b, "istore_0", .fixed [], .store (some .int) (some 0)⟩,
  ⟨0x3c, "istore_1", .fixed [], .store (some .int) (some 1)⟩,
  ⟨0x3d, "istore_2", .fixed [], .store (some .int) (some 2)⟩,
  ⟨0x3e, "istore_3", .fixed [], .store (some .int) (some 3)⟩,
  ⟨0x3f, "lstore_0", .fixed [], .store (some .long) (some 0)⟩,
  ⟨0x40, "lstore_1", .fixed [], .store (some .long) (some 1)⟩,
  ⟨0x41, "lstore_2", .fixed [], .store (some .long) (some 2)⟩,
  ⟨0x42, "lstore_3", .fixed [], .store (some .long) (some 3)⟩,
  ⟨0x43, "fstore_0", .fixed [], .store (some .float) (some 0)⟩,
  ⟨0x44, "fstore_1", .fixed [], .store (some .float) (some 1)⟩,
  ⟨0x45, "fstore_2", .fixed [], .store (some .float) (some 2)⟩,
  ⟨0x46, "fstore_3", .fixed [], .store (some .float) (some 3)⟩,
  ⟨0x47, "dstore_0", .fixed [], .store (some .double) (some 0)⟩,
  ⟨0x48, "dstore_1", .fixed [], .store (some .double) (some 1)⟩,
  ⟨0x49, "dstore_2", .fixed [], .store (some .double) (some 2)⟩,
  ⟨0x4a, "dstore_3", .fixed [], .store (some .double) (some 3)⟩,
  ⟨0x4b, "astore_0", .fixed [], .store none (some 0)⟩,
  ⟨0x4c, "astore_1", .fixed [], .store none (some 1)⟩,
  ⟨0x4d, "astore_2", .fixed [], .store none (some 2)⟩,
  ⟨0x4e, "astore_3", .fixed [], .store none (some 3)⟩,
  ⟨0x4f, "iastore", .fixed [], .arrayStore⟩,
  ⟨0x50, "lastore", .fixed [], .arrayStore⟩,
  ⟨0x51, "fastore", .fixed [], .arrayStore⟩,
  ⟨0x52, "dastore", .fixed [], .arrayStore⟩,
  ⟨0x53, "aastore", .fixed [], .arrayStore⟩,
  ⟨0x54, "bastore", .fixed [], .arrayStore⟩,
  ⟨0x55, "castore", .fixed [], .arrayStore⟩,
  ⟨0x56, "sastore", .fixed [], .arrayStore⟩,
  ⟨0x57, "pop", .fixed [], .pop⟩,
  ⟨0x58, "pop2", .fixed [], .unsupported⟩,
  ⟨0x59, "dup", .fixed [], .dup⟩,
  ⟨0x5a, "dup_x1", .fixed [], .dupX1⟩,
  ⟨0x5b, "dup_x2", .fixed [], .dupX2⟩,
  ⟨0x5c, "dup2", .fixed [], .unsupported⟩,
  ⟨0x5d, "dup2_x1", .fixed [], .unsupported⟩,
  ⟨0x5e, "dup2_x2", .fixed [], .unsupported⟩,
  ⟨0x5f, "swap", .fixed [], .swap⟩,
  ⟨0x60, "iadd", .fixed [], .binary .add .int⟩,
  ⟨0x61, "ladd", .fixed [], .binary .add .long⟩,
  ⟨0x62, "fadd", .fixed [], .binary .add .float⟩,
  ⟨0x63, "dadd", .fixed [], .binary .add .double⟩,
  ⟨0x64, "isub", .fixed [], .binary .sub .int⟩,
  ⟨0x65, "lsub", .fixed [], .binary .sub .long⟩,
  ⟨0x66, "fsub", .fixed [], .binary .sub .float⟩,
  ⟨0x67, "dsub", .fixed [], .binary .sub .double⟩,
  ⟨0x68, "imul", .fixed [], .binary .mul .int⟩,
  ⟨0x69, "lmul", .fixed [], .binary .mul .long⟩,
  ⟨0x6a, "fmul", .fixed [], .binary .mul .float⟩,
  ⟨0x6b, "dmul", .fixed [], .binary .mul .double⟩,
  ⟨0x6c, "idiv", .fixed [], .binary .div .int⟩,
  ⟨0x6d, "ldiv", .fixed [], .binary .div .long⟩,
  ⟨0x6e, "fdiv", .fixed [], .binary .div .float⟩,
  ⟨0x6f, "ddiv", .fixed [], .binary .div .double⟩,
  ⟨0x70, "irem", .fixed [], .binary .rem .int⟩,
  ⟨0x71, "lrem", .fixed [], .binary .rem .long⟩,
  ⟨0x72, "frem", .fixed [], .binary .rem .float⟩,
  ⟨0x73, "drem", .fixed [], .binary .rem .double⟩,
  ⟨0x74, "ineg", .fixed [], .negate .int⟩,
  ⟨0x75, "lneg", .fixed [], .negate .long⟩,
  ⟨0x76, "fneg", .fixed [], .negate .float⟩,
  ⟨0x77, "dneg", .fixed [], .negate .double⟩,
  ⟨0x78, "ishl", .fixed [], .shift .left .int⟩,
  ⟨0x79, "lshl", .fixed [], .shift .left .long⟩,
  ⟨0x7a, "ishr", .fixed [], .shift .right .int⟩,
  ⟨0x7b, "lshr", .fixed [], .shift .right .long⟩,
  ⟨0x7c, "iushr", .fixed [], .shift .unsignedRight .int⟩,
  ⟨0x7d, "lushr", .fixed [], .shift .unsignedRight .long⟩,
  ⟨0x7e, "iand", .fixed [], .binary .and .int⟩,
  ⟨0x7f, "land", .fixed [], .binary .and .long⟩,
  ⟨0x80, "ior", .fixed [], .binary .or .int⟩,
  ⟨0x81, "lor", .fixed [], .binary .or .long⟩,
  ⟨0x82, "ixor", .fixed [], .binary .xor .int⟩,
  ⟨0x83, "lxor", .fixed [], .binary .xor .long⟩,
  ⟨0x84, "iinc", .fixed [.byte, .byte], .increment⟩,
  ⟨0x85, "i2l", .fixed [], .convert .long⟩,
  ⟨0x86, "i2f", .fixed [], .convert .float⟩,
  ⟨0x87, "i2d", .fixed [], .convert .double⟩,
  ⟨0x88, "l2i", .fixed [], .convert .int⟩,
  ⟨0x89, "l2f", .fixed [], .convert .float⟩,
  ⟨0x8a, "l2d", .fixed [], .convert .double⟩,
  ⟨0x8b, "f2i", .fixed [], .convert .int⟩,
  ⟨0x8c, "f2l", .fixed [], .convert .long⟩,
  ⟨0x8d, "f2d", .fixed [], .convert .double⟩,
  ⟨0x8e, "d2i", .fixed [], .convert .int⟩,
  ⟨0x8f, "d2l", .fixed [], .convert .long⟩,
  ⟨0x90, "d2f", .fixed [], .convert .float⟩,
  ⟨0x91, "i2b", .fixed [], .convert .byte⟩,
  ⟨0x92, "i2c", .fixed [], .convert .char⟩,
  ⟨0x93, "i2s", .fixed [], .convert .short⟩,
  ⟨0x94, "lcmp", .fixed [], .compare "Long"⟩,
  ⟨0x95, "fcmpl", .fixed [], .compare "Float"⟩,
  ⟨0x96, "fcmpg", .fixed [], .compare "Float"⟩,
  ⟨0x97, "dcmpl", .fixed [], .compare "Double"⟩,
  ⟨0x98, "dcmpg", .fixed [], .compare "Double"⟩,
  ⟨0x99, "ifeq", .fixed [.short], .branch .eq .zero⟩,
  ⟨0x9a, "ifne", .fixed [.short], .branch .ne .zero⟩,
  ⟨0x9b, "iflt", .fixed [.short], .branch .lt .zero⟩,
  ⟨0x9c, "ifge", .fixed [.short], .branch .ge .zero⟩,
  ⟨0x9d, "ifgt", .fixed [.short], .branch .gt .zero⟩,
  ⟨0x9e, "ifle", .fixed [.short], .branch .le .zero⟩,
  ⟨0x9f, "if_icmpeq", .fixed [.short], .branch .eq .popped⟩,
  ⟨0xa0, "if_icmpne", .fixed [.short], .branch .ne .popped⟩,
  ⟨0xa1, "if_icmplt", .fixed [.short], .branch .lt .popped⟩,
  ⟨0xa2, "if_icmpge", .fixed [.short], .branch .ge .popped⟩,
  ⟨0xa3, "if_icmpgt", .fixed [.short], .branch .gt .popped⟩,
  ⟨0xa4, "if_icmple", .fixed [.short], .branch .le .popped⟩,
  ⟨0xa5, "if_acmpeq", .fixed [.short], .branch .eq .popped⟩,
  ⟨0xa6, "if_acmpne", .fixed [.short], .branch .ne .popped⟩,
  ⟨0xa7, "goto", .fixed [.short], .jump⟩,
  ⟨0xa8, "jsr", .fixed [.short], .subroutine⟩,
  ⟨0xa9, "ret", .fixed [.localIndex], .unsupported⟩,
  ⟨0xaa, "tableswitch", .varying, .unsupported⟩,
  ⟨0xab, "lookupswitch", .varying, .lookupSwitch⟩,
  ⟨0xac, "ireturn", .fixed [], .returnValue⟩,
  ⟨0xad, "lreturn", .fixed [], .returnValue⟩,
  ⟨0xae, "freturn", .fixed [], .returnValue⟩,
  ⟨0xaf, "dreturn", .fixed [], .returnValue⟩,
  ⟨0xb0, "areturn", .fixed [], .returnValue⟩,
  ⟨0xb1, "return", .fixed [], .returnVoid⟩,
  ⟨0xb2, "getstatic", .fixed [.poolIndexShort], .getStatic⟩,
  ⟨0xb3, "putstatic", .fixed [.poolIndexShort], .putStatic⟩,
  ⟨0xb4, "getfield", .fixed [.poolIndexShort], .getField⟩,
  ⟨0xb5, "putfield", .fixed [.poolIndexShort], .putField⟩,
  ⟨0xb6, "invokevirtual", .fixed [.poolIndexShort], .invoke .virtual⟩,
  ⟨0xb7, "invokespecial", .fixed [.poolIndexShort], .invoke .special⟩,
  ⟨0xb8, "invokestatic", .fixed [.poolIndexShort], .invoke .static⟩,
  ⟨0xb9, "invokeinterface", .fixed [.poolIndexShort, .byte, .byte], .invoke .interface⟩,
  ⟨0xba, "invokedynamic", .fixed [.poolIndexShort, .byte, .byte], .invoke .dynamic⟩,
  ⟨0xbb, "new", .fixed [.poolIndexShort], .newObject⟩,
  ⟨0xbc, "newarray", .fixed [.byte], .newArray⟩,
  ⟨0xbd, "anewarray", .fixed [.poolIndexShort], .newReferenceArray⟩,
  ⟨0xbe, "arraylength", .fixed [], .arrayLength⟩,
  ⟨0xbf, "athrow", .fixed [], .throw⟩,
  ⟨0xc0, "checkcast", .fixed [.poolIndexShort], .checkCast⟩,
  ⟨0xc1, "instanceof", .fixed [.poolIndexShort], .instanceOf⟩,
  ⟨0xc2, "monitorenter", .fixed [], .unsupported⟩,
  ⟨0xc3, "monitorexit", .fixed [], .unsupported⟩,
  ⟨0xc4, "wide", .varying, .unsupported⟩,
  ⟨0xc5, "multianewarray", .fixed [.poolIndexShort, .byte], .newNestedArray⟩,
  ⟨0xc6, "ifnull", .fixed [.short], .branch .eq .null⟩,
  ⟨0xc7, "ifnonnull", .fixed [.short], .branch .ne .null⟩,
  ⟨0xc8, "goto_w", .fixed [.int], .jump⟩,
  ⟨0xc9, "jsr_w", .fixed [.int], .subroutine⟩,
  ⟨0xca, "breakpoint", .fixed [], .unsupported⟩,
  ⟨0xfe, "impdep1", .fixed [], .unsupported⟩,
  ⟨0xff, "impdep2", .fixed [], .unsupported⟩]

/-- The opcode with the given code, if it is assigned. No two entries have the same code. -/
def find? (code : UInt8) : Option Opcode :=
  catalogue.find? fun opcode => opcode.code == code

/-- The opcode that is found has the code that was looked for. -/
theorem code_of_find? {code : UInt8} {opcode : Opcode} (h : find? code = some opcode) :
    opcode.code = code := by
  simpa using List.find?_some h

/-- The opcode that is found is an entry of the catalogue. -/
theorem mem_catalogue_of_find? {code : UInt8} {opcode : Opcode} (h : find? code = some opcode) :
    opcode ∈ catalogue :=
  List.mem_of_find?_eq_some h

end Opcode

end JvmSource
