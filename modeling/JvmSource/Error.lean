import JvmSource.Text.Escaped
import JvmSource.Text.Number

/-!
# Errors

Everything that can stop a method or a class from being shown as source. Each constructor is a
cause; `Error.message` holds the wording of all of them, and `Error.root` looks through the method
context that a class puts around a failing method.

The constructors follow the way of a method through the program. The first ones come from reading
the code and from resolving constants, descriptors and slots. Targets, handlers, unreachable code
and entries of the exception table belong to the flow of a method; loop starts, exits, conditions
and branches that cannot be structured belong to its structure. What remains is about the values
that single instructions work on, and about the attributes in which the code is kept.

An error carries the data that its text shows, and no more: an offset is a byte position in the
code, an index counts instructions, and a constant is cited by its number in the pool. The text is
shown to a caller, and in a class it stands in the comment for a method that fails.
-/

namespace JvmSource

/-- What an instruction asks for that has no source form. The instruction itself is known and
decoded; its operands are at fault. -/
inductive Misuse where
  /-- A primitive array whose element code is unassigned. -/
  | elementCode (code : Nat)
  /-- A nested array with more sized dimensions than its type has, or with none. -/
  | dimensionCount (count : Nat) (type : String)
  /-- A boolean compared with zero by an order. -/
  | booleanOrder (operator : String)
  /-- A constructor call whose receiver is neither newly made nor the current object. -/
  | strayConstructor
  deriving DecidableEq

/-- How normal flow gets into an exception handler: at the start of the method, from the instruction
before the handler, or by a branch. A handler may only be entered by an exception. -/
inductive HandlerEntry where
  | methodEntry
  | fallThrough (mnemonic : String) (index : Nat)
  | branch (index : Nat)
  deriving DecidableEq

/-- What is wrong with an entry of an exception table. The faults are looked for in this order, and
the first one is reported. -/
inductive RegionFault where
  | startNotFound
  | endNotFound
  | handlerNotFound
  | emptyRange
  | handlerTooEarly
  deriving DecidableEq

/-- The cause of a failure. Offsets are byte positions in the code, indices count instructions;
`inMethod` is the only constructor that wraps another error. -/
inductive Error where
  | unknownOpcode (code : UInt8) (offset : Nat)
  | unsupportedInstruction (mnemonic : String) (offset : Nat)
  | unsupportedUse (mnemonic : String) (offset : Nat) (misuse : Misuse)
  | truncatedInstruction (mnemonic : String) (offset : Nat)
  | wrongConstant (index : UInt16) (expected found : String)
  | constantNotFound (index : UInt16) (size : Nat)
  | malformedDescriptor (text : String)
  | unassignedLocal (slot : Nat)
  | branchTargetNotFound (index : Nat) (target : Int)
  | unreachableCode (index : Nat)
  | handlerEntered (handler : Nat) (entry : HandlerEntry)
  | invalidRegion (startPc endPc handlerPc : UInt16) (fault : RegionFault)
  | missingTerminator (index : Nat)
  | duplicateLoopStart (start last : Nat)
  | loopExitNotFound (start last : Nat)
  | ambiguousCondition (index target : Nat)
  | unstructuredBranch (index target : Nat)
  | expectedArray (mnemonic : String) (offset : Nat) (found : String)
  | invalidBoolean (value : Int)
  | stackUnderflow (offset : Nat)
  | duplicateAttribute (name : String)
  | missingAttribute (name : String)
  | malformedAttribute (name : String)
  | methodNotFound (name : String)
  /-- A failure inside the method that `method` names. -/
  | inMethod (method : String) (cause : Error)
  deriving DecidableEq

/-- The results of computations that may fail: a value, or the one error that stopped the
computation. -/
abbrev Result (α : Type) : Type := Except Error α

open Text in
/-- The reason given for an unsupported use. It follows the mnemonic and the offset of the
instruction. -/
def Misuse.message : Misuse → String
  | elementCode code => "unknown primitive array type " ++ decimal code
  | dimensionCount count type => decimal count ++ " dimensions requested for " ++ type
  | booleanOrder operator => "operator " ++ operator ++ " applied to a boolean"
  | strayConstructor => "<init> invoked without a preceding new or aload_0"

open Text in
/-- The words for how a handler is entered. -/
def HandlerEntry.message : HandlerEntry → String
  | methodEntry => "method entry"
  | fallThrough mnemonic index =>
    "fall-through from " ++ mnemonic ++ " at instruction " ++ decimal index
  | branch index => "branch at instruction " ++ decimal index

/-- The words for a fault of an exception table entry. They follow the three positions of the
entry. -/
def RegionFault.message : RegionFault → String
  | startNotFound => "start_pc starts no instruction"
  | endNotFound => "end_pc starts no instruction"
  | handlerNotFound => "handler_pc starts no instruction"
  | emptyRange => "empty protected range"
  | handlerTooEarly => "handler precedes the end of its protected range"

namespace Error

open Text in
/-- The one-line text of an error. That of a failing method names the method only; the cause is
shown by whoever looks through it. -/
def message : Error → String
  | unknownOpcode code offset =>
    "unknown opcode 0x" ++ String.ofList (hexDigits 2 code.toNat) ++ " at offset " ++ decimal offset
  | unsupportedInstruction mnemonic offset =>
    "unsupported instruction " ++ mnemonic ++ " at offset " ++ decimal offset
  | unsupportedUse mnemonic offset misuse =>
    "unsupported use of " ++ mnemonic ++ " at offset " ++ decimal offset ++ ": " ++ misuse.message
  | truncatedInstruction mnemonic offset =>
    "instruction " ++ mnemonic ++ " at offset " ++ decimal offset
      ++ " runs past the end of the code"
  | wrongConstant index expected found =>
    "constant pool entry " ++ decimal index.toNat ++ " is a " ++ found ++ ", expected " ++ expected
  | constantNotFound index size =>
    "constant pool index " ++ decimal index.toNat ++ " out of range (pool has " ++ decimal size
      ++ " entries)"
  | malformedDescriptor text => "malformed descriptor " ++ cited text
  | unassignedLocal slot => "local variable " ++ decimal slot ++ " used before it was assigned"
  | branchTargetNotFound index target =>
    "branch at instruction " ++ decimal index ++ " targets offset " ++ integer target
      ++ ", which starts no instruction"
  | unreachableCode index => "unreachable code after instruction " ++ decimal index
  | handlerEntered handler entry =>
    "exception handler at instruction " ++ decimal handler ++ " is entered by " ++ entry.message
  | invalidRegion startPc endPc handlerPc fault =>
    "invalid exception table entry [" ++ decimal startPc.toNat ++ ", " ++ decimal endPc.toNat
      ++ ") -> " ++ decimal handlerPc.toNat ++ ": " ++ fault.message
  | missingTerminator index =>
    "block ending at instruction " ++ decimal index ++ " has no terminator"
  | duplicateLoopStart start last =>
    "loop start " ++ decimal start ++ " is branched to by more than one loop (end " ++ decimal last
      ++ ")"
  | loopExitNotFound start last =>
    "no break target for loop [" ++ decimal start ++ ", " ++ decimal last ++ "]"
  | ambiguousCondition index target =>
    "branch at instruction " ++ decimal index ++ " jumps into the middle of a loop condition at "
      ++ decimal target
  | unstructuredBranch index target =>
    "branch at instruction " ++ decimal index ++ " to instruction " ++ decimal target
      ++ " cannot be structured"
  | expectedArray mnemonic offset found =>
    mnemonic ++ " at offset " ++ decimal offset ++ " expects an array, found " ++ found
  | invalidBoolean value =>
    "integer constant " ++ integer value ++ " cannot be used as a boolean"
  | stackUnderflow offset => "operand stack underflow at offset " ++ decimal offset
  | duplicateAttribute name => "duplicate " ++ name ++ " attribute"
  | missingAttribute name => "missing " ++ name ++ " attribute"
  | malformedAttribute name => "malformed " ++ name ++ " attribute"
  | methodNotFound name => "method " ++ name ++ " not found"
  | inMethod method _ => "failed to decompile method " ++ method

/-- The innermost cause, below any method context. It is the error itself if that blames no
method. -/
def root : Error → Error
  | inMethod _ cause => cause.root
  | e => e

/-- Whether the operand stack ran dry. This is the one error that placeholders can repair. -/
def isUnderflow : Error → Bool
  | stackUnderflow _ => true
  | _ => false

end Error

end JvmSource
