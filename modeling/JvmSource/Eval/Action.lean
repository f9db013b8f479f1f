import JvmSource.Instruction
import JvmSource.Reference
import JvmSource.Value

/-!
# Actions

An action is an instruction with its slot, its constants and its references worked out, sorted by
the number of operands it takes from the stack. `Action.resolve` fails when a reference cannot be
followed or the instruction has no source form; no operand is looked at before that.

Sorting by the number of operands says at once what an action needs: `Action.wants` lists its
operands, and `Action.perform` gets exactly as many. Only calls and nested arrays have a number that
depends on what they refer to. An argument of a call is wanted with its declared type, because a
constant that is passed as a `boolean` must be 0 or 1; all other operands may be any value.

Accesses to local variables without an operand stand apart from the other actions without operands,
and assignments apart from the other actions with one: they alone read or change the variables.
-/

namespace JvmSource

namespace Action

/-- An access to a local variable that takes no operand. Loading a reference needs a variable that
is bound; the other two bind a new one where there is none. -/
inductive Access where
  | load (type : Ty) (slot : Nat)
  | loadReference (slot : Nat)
  | increment (slot : Nat) (delta : Int)
  deriving DecidableEq

/-- An action without operands, and without a local variable. -/
inductive Nullary where
  | nothing
  | push (form : Value.Form)
  | jump
  | returnVoid
  | newObject (type : String)
  deriving DecidableEq

/-- An action on the top of the stack, other than an assignment of a local variable. -/
inductive Unary where
  | discard
  | dup
  | negate (type : Ty)
  | convert (target : Ty)
  | testZero (test : Comparison)
  | testNull (test : Comparison)
  | lookupSwitch
  | returnValue
  | throw
  | putStatic (field : FieldRef)
  | getField (field : FieldRef)
  | newArray (code : Nat)
  | newReferenceArray (element : ClassRef)
  | arrayLength
  | checkCast (target : ClassRef)
  | instanceOf (target : ClassRef)
  deriving DecidableEq

/-- An action on the two topmost values, of which the second was pushed first. -/
inductive Binary where
  | arrayLoad (element : Option Ty)
  | dupX1
  | swap
  | operator (operator : BinaryOperator) (type : Ty)
  | shift (operator : ShiftOperator) (type : Ty)
  | compare (owner : String)
  | test (test : Comparison)
  | putField (field : FieldRef)
  deriving DecidableEq

/-- An action on the three topmost values. -/
inductive Ternary where
  | arrayStore
  | dupX2
  deriving DecidableEq

/-- An action whose number of operands depends on what it refers to. A call takes one for each
argument, and one for the receiver if there is one. -/
inductive Variadic where
  /-- A call on an object, which lies below the arguments. -/
  | callOn (method : MethodRef)
  /-- A call of a method of a class. -/
  | callStatic (method : MethodRef)
  /-- A call of a dynamic call site. -/
  | callDynamic (method : MethodRef)
  /-- An array whose first `sized` dimensions have a length. -/
  | newNestedArray (type : ClassRef) (sized : Nat)
  deriving DecidableEq

end Action

/-- What an instruction does once its references are known. There is one constructor for each number
of operands. -/
inductive Action where
  | access (access : Action.Access)
  /-- Assigns a local variable; without a type, a new variable takes the value's. -/
  | assign (type : Option Ty) (slot : Nat)
  | nullary (action : Action.Nullary)
  | unary (action : Action.Unary)
  | binary (action : Action.Binary)
  | ternary (action : Action.Ternary)
  | variadic (action : Action.Variadic)
  deriving DecidableEq

/-- The value that loading the constant at an index pushes. Whether a wide constant is wanted
depends on the opcode. -/
def Pool.loadable (pool : Pool) (index : UInt16) (wide : Bool) : Result Value.Form := do
  match ← pool.get index, wide with
  | .string text, false => return .literal (.string (← pool.utf8 text))
  | .integer value, false => return .literal (.int value.toInt)
  | .float bits, false => return .literal (.float bits)
  | .classRef _, false => return .code ((← pool.classRef index).typeName ++ ".class") "Class"
  | .long value, true => return .literal (.long value.toInt)
  | .double bits, true => return .literal (.double bits)
  | other, false => mismatch index "String, Integer, Float or Class" other
  | other, true => mismatch index "Long or Double" other

namespace Action

/-- The slot of an instruction: its own, or the one that its operand names. -/
def slotOf (instr : Instruction) (slot : Option Nat) : Nat :=
  slot.getD instr.indexOperand.toNat

/-- The call that an invocation makes. Only a call of an interface method insists on one. -/
def resolveCall (pool : Pool) (index : UInt16) : Invocation → Result Variadic
  | .virtual | .special => do return .callOn (← pool.methodRef index)
  | .interface => do return .callOn (← pool.interfaceMethodRef index)
  | .static => do return .callStatic (← pool.methodRef index)
  | .dynamic => do return .callDynamic (← pool.callSite index)

/-- The allocation of a nested array. At least one dimension has a length, and at most as many as
the type has. -/
def resolveNestedArray (pool : Pool) (instr : Instruction) : Result Variadic := do
  let type ← pool.classRef instr.indexOperand
  let sized := instr.unsignedOperand 1
  if sized = 0 ∨ type.dimensions < sized then
    .error (.unsupportedUse instr.mnemonic instr.offset (.dimensionCount sized type.typeName))
  else return .newNestedArray type sized

/-- The action of an instruction. References to the pool are followed here and nowhere else, but for
the table of a switch and the targets of branches, which are part of the code. -/
def resolve (pool : Pool) (instr : Instruction) : Result Action :=
  let index := instr.indexOperand
  match instr.operation with
  | .nop => .ok (nullary .nothing)
  | .pushNull => .ok (nullary (.push .null))
  | .pushInt value => .ok (nullary (.push (.literal (.int value))))
  | .pushLong value => .ok (nullary (.push (.literal (.long value))))
  | .pushFloat bits => .ok (nullary (.push (.literal (.float bits))))
  | .pushDouble bits => .ok (nullary (.push (.literal (.double bits))))
  | .pushOperand => .ok (nullary (.push (.literal (.int (instr.operand 0)))))
  | .pushConstant wide => do return nullary (.push (← pool.loadable index wide))
  | .load type slot => .ok (access (.load type (slotOf instr slot)))
  | .loadReference slot => .ok (access (.loadReference (slotOf instr slot)))
  | .increment => .ok (access (.increment index.toNat (instr.operand 1)))
  | .store type slot => .ok (assign type (slotOf instr slot))
  | .arrayLoad element => .ok (binary (.arrayLoad element))
  | .arrayStore => .ok (ternary .arrayStore)
  | .pop => .ok (unary .discard)
  | .dup => .ok (unary .dup)
  | .dupX1 => .ok (binary .dupX1)
  | .dupX2 => .ok (ternary .dupX2)
  | .swap => .ok (binary .swap)
  | .binary operator type => .ok (binary (.operator operator type))
  | .negate type => .ok (unary (.negate type))
  | .shift operator type => .ok (binary (.shift operator type))
  | .convert target => .ok (unary (.convert target))
  | .compare owner => .ok (binary (.compare owner))
  | .branch test .zero => .ok (unary (.testZero test))
  | .branch test .null => .ok (unary (.testNull test))
  | .branch test .popped => .ok (binary (.test test))
  | .jump => .ok (nullary .jump)
  | .lookupSwitch => .ok (unary .lookupSwitch)
  | .returnValue => .ok (unary .returnValue)
  | .returnVoid => .ok (nullary .returnVoid)
  | .throw => .ok (unary .throw)
  | .getStatic => do
    let field ← pool.fieldRef index
    let type := field.type.display
    return nullary (.push (.code ("(" ++ type ++ ") " ++ field.owner ++ "." ++ field.name) type))
  | .putStatic => do return unary (.putStatic (← pool.fieldRef index))
  | .getField => do return unary (.getField (← pool.fieldRef index))
  | .putField => do return binary (.putField (← pool.fieldRef index))
  | .invoke kind => do return variadic (← resolveCall pool index kind)
  | .newObject => do return nullary (.newObject (← pool.classRef index).typeName)
  | .newArray => .ok (unary (.newArray (instr.unsignedOperand 0)))
  | .newReferenceArray => do return unary (.newReferenceArray (← pool.classRef index))
  | .newNestedArray => do return variadic (← resolveNestedArray pool instr)
  | .arrayLength => .ok (unary .arrayLength)
  | .checkCast => do return unary (.checkCast (← pool.classRef index))
  | .instanceOf => do return unary (.instanceOf (← pool.classRef index))
  | .subroutine | .unsupported =>
    .error (.unsupportedInstruction instr.mnemonic instr.offset)

/-- What an action wants on the stack, the top first: for an argument its declared type, otherwise
any value. -/
def wants : Action → List (Option String)
  | access _ | nullary _ => []
  | assign .. | unary _ => [none]
  | binary _ => [none, none]
  | ternary _ => [none, none, none]
  | variadic (.callOn method) =>
    method.type.arguments.reverse.map (fun t => some t.display) ++ [none]
  | variadic (.callStatic method) | variadic (.callDynamic method) =>
    method.type.arguments.reverse.map fun t => some t.display
  | variadic (.newNestedArray _ sized) => List.replicate sized none

/-- The number of operands an action takes, before its results are pushed. -/
def demand (action : Action) : Nat :=
  action.wants.length

end Action

end JvmSource
