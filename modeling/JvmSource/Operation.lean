import JvmSource.Ty.Basic

/-!
# Operations

What an opcode makes the machine do, with the variants of one idea gathered under one constructor:
the four loads of an `int` with a slot of their own and the load that names its slot are all
`Operation.load`. The classes of instructions that end a block are read off the operation.

The opcodes of the catalogue map to far fewer operations. What is fixed by an opcode is an argument
of its operation (the constant that it pushes, the type that it works on, the slot of its own), so
that nothing behind this module looks at the number of an opcode again. What an instruction reads
from its payload is not part of the operation: a jump does not know its target, a call does not know
its method.

The flow of a method needs five questions only. Does the instruction jump to the offset in its
operand (`isBranch`)? Does it always do so (`isJump`)? Does it leave the method (`isExit`), and
normally so (`isReturn`)? Can the next instruction follow at all (`endsFlow`)? The last is a matter
of the others: `endsFlow_eq`.
-/

namespace JvmSource

/-- An operator written between its two operands. All of them are taken to be of one precedence: an
operand that is itself an expression stands in parentheses. -/
inductive BinaryOperator where
  | add
  | sub
  | mul
  | div
  | rem
  | and
  | or
  | xor
  deriving DecidableEq

/-- The source token of a binary operator. -/
def BinaryOperator.symbol : BinaryOperator → String
  | add => "+"
  | sub => "-"
  | mul => "*"
  | div => "/"
  | rem => "%"
  | and => "&"
  | or => "|"
  | xor => "^"

/-- A shift of an integer. Its right operand is an `int` whatever the type of the left one. -/
inductive ShiftOperator where
  | left
  | right
  | unsignedRight
  deriving DecidableEq

/-- The source token of a shift. -/
def ShiftOperator.symbol : ShiftOperator → String
  | left => "<<"
  | right => ">>"
  | unsignedRight => ">>>"

/-- The comparison that a conditional branch makes. The branch is taken if it holds. -/
inductive Comparison where
  | eq
  | ne
  | lt
  | ge
  | gt
  | le
  deriving DecidableEq

/-- The source token of a comparison. -/
def Comparison.symbol : Comparison → String
  | eq => "=="
  | ne => "!="
  | lt => "<"
  | ge => ">="
  | gt => ">"
  | le => "<="

/-- What a conditional branch compares its operand with. A comparison with zero or with null has one
operand, that of two values has two. -/
inductive Comparand where
  | zero
  | null
  /-- A second operand, on top of the first. -/
  | popped
  deriving DecidableEq

/-- How a call finds its method. It decides which constants the call may name, whether there is a
receiver, and how the call is written. -/
inductive Invocation where
  | virtual
  | special
  | static
  | interface
  | dynamic
  deriving DecidableEq

/-- What an instruction does. A slot of `none` is named by the instruction's operand. Types are
those of the values that the operation pushes or expects. -/
inductive Operation where
  | nop
  | pushNull
  | pushInt (value : Int)
  | pushLong (value : Int)
  | pushFloat (bits : UInt32)
  | pushDouble (bits : UInt64)
  /-- Pushes the operand as an `int`. -/
  | pushOperand
  /-- Pushes a constant of the pool; a wide one is a `long` or a `double`. -/
  | pushConstant (wide : Bool)
  | load (type : Ty) (slot : Option Nat)
  | loadReference (slot : Option Nat)
  /-- Reads an array element; without a type, that of the array's elements. -/
  | arrayLoad (element : Option Ty)
  /-- Assigns a local variable; without a type, a new variable takes the value's. -/
  | store (type : Option Ty) (slot : Option Nat)
  | arrayStore
  | pop
  | dup
  | dupX1
  | dupX2
  | swap
  | binary (operator : BinaryOperator) (type : Ty)
  | negate (type : Ty)
  | shift (operator : ShiftOperator) (type : Ty)
  | increment
  | convert (target : Ty)
  /-- Three-way comparison by the class that wraps the operands' type. -/
  | compare (owner : String)
  | branch (test : Comparison) (against : Comparand)
  | jump
  /-- Jumps with a return address on the stack. -/
  | subroutine
  | lookupSwitch
  | returnValue
  | returnVoid
  | throw
  | getStatic
  | putStatic
  | getField
  | putField
  | invoke (kind : Invocation)
  | newObject
  | newArray
  | newReferenceArray
  | newNestedArray
  | arrayLength
  | checkCast
  | instanceOf
  /-- Known to the machine, but without a source form here. -/
  | unsupported
  deriving DecidableEq

namespace Operation

/-- Whether the operation may jump to the offset that its operand names. A switch is no branch here:
it is shown as a whole, and its jumps do not become edges. -/
def isBranch : Operation → Bool
  | branch .. | jump | subroutine => true
  | _ => false

/-- Whether the operation leaves the method normally, with a value or without one. -/
def isReturn : Operation → Bool
  | returnValue | returnVoid => true
  | _ => false

/-- Whether the operation always jumps. -/
def isJump : Operation → Bool
  | jump => true
  | _ => false

/-- Whether control never goes on to the next instruction: the operation leaves the method or always
jumps. -/
def endsFlow : Operation → Bool
  | returnValue | returnVoid | jump | throw => true
  | _ => false

/-- Whether the operation leaves the method, normally or not. What is still on the stack then is
written in front of it. -/
def isExit : Operation → Bool
  | returnValue | returnVoid | throw => true
  | _ => false

/-- Whether the operation makes an array. -/
def makesArray : Operation → Bool
  | newArray | newReferenceArray | newNestedArray => true
  | _ => false

/-- Flow ends where the method is left and where control always jumps, and nowhere else. -/
theorem endsFlow_eq (op : Operation) : op.endsFlow = (op.isExit || op.isJump) := by
  cases op <;> rfl

/-- An operation that always jumps is a branch. -/
theorem isBranch_of_isJump {op : Operation} (h : op.isJump = true) : op.isBranch = true := by
  cases op <;> simp_all [isJump, isBranch]

end Operation

end JvmSource
