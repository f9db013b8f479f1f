import JvmSource.Error

/-!
# The constant pool

A pool is a sequence of constants that the rest of a class file refers to by index, counted from 1.
A wide constant, a `long` or a `double`, takes two places; the second is unusable. The pool only
grows: `push` adds a constant at the end, and the `add` operations add a constant with all the
constants it refers to. Texts are shared, all other constants are added anew.

Looking a constant up can fail in two ways. There may be none at the index, which is the case for
index 0 and for every index behind the last place; or there is one, but of another kind than the use
asks for. The unusable place behind a wide constant is a constant of a kind that no use asks for. An
index that a constant holds is followed only when it is used, so a pool may hold indices that lead
nowhere.

An index is a word of two bytes. Adding to a pool computes the place of the new constant as such a
word, and so returns the index of another place once the pool has more than 65535 of them.
-/

namespace JvmSource

/-- An entry of the constant pool. References to other entries are indices, and floating-point
numbers are kept as their bits. -/
inductive Constant where
  | utf8 (text : String)
  | integer (value : Int32)
  | float (bits : UInt32)
  | long (value : Int64)
  | double (bits : UInt64)
  | classRef (name : UInt16)
  | string (text : UInt16)
  | fieldRef (owner nameAndType : UInt16)
  | methodRef (owner nameAndType : UInt16)
  | interfaceMethodRef (owner nameAndType : UInt16)
  | nameAndType (name descriptor : UInt16)
  | methodHandle (kind : UInt8) (reference : UInt16)
  | methodType (descriptor : UInt16)
  | invokeDynamic (bootstrap nameAndType : UInt16)
  /-- The second place of a wide constant. -/
  | unusable
  deriving DecidableEq, Inhabited

namespace Constant

/-- The kind of a constant, as messages name it. It also names the kind that a use asked for. -/
def kind : Constant → String
  | utf8 _ => "Utf8"
  | integer _ => "Integer"
  | float _ => "Float"
  | long _ => "Long"
  | double _ => "Double"
  | classRef _ => "Class"
  | string _ => "String"
  | fieldRef .. => "FieldRef"
  | methodRef .. => "MethodRef"
  | interfaceMethodRef .. => "InterfaceMethodRef"
  | nameAndType .. => "NameAndType"
  | methodHandle .. => "MethodHandle"
  | methodType _ => "MethodType"
  | invokeDynamic .. => "InvokeDynamic"
  | unusable => "Unusable"

/-- Whether the constant takes two places, of which the second is unusable. -/
def isWide : Constant → Bool
  | long _ | double _ => true
  | _ => false

end Constant

/-- The constants of a class, the one with index 1 first. Any sequence of constants is a pool. -/
structure Pool where
  entries : Array Constant
  deriving DecidableEq, Inhabited

namespace Pool

/-- The number of places, unusable ones included. -/
def size (pool : Pool) : Nat :=
  pool.entries.size

/-- The constant at an index. There is none at 0, and none behind the last place. -/
def get? (pool : Pool) (index : UInt16) : Option Constant :=
  if index = 0 then none else pool.entries[index.toNat - 1]?

/-- The constant at an index, which must be in the pool. The error tells how many places there
are. -/
def get (pool : Pool) (index : UInt16) : Result Constant :=
  match pool.get? index with
  | some constant => .ok constant
  | none => .error (.constantNotFound index pool.size)

/-- The error for a constant at `index` of another kind than expected. It names both kinds. -/
def mismatch {α : Type} (index : UInt16) (expected : String) (found : Constant) : Result α :=
  .error (.wrongConstant index expected found.kind)

/-- The text at an index. -/
def utf8 (pool : Pool) (index : UInt16) : Result String := do
  match ← pool.get index with
  | .utf8 text => return text
  | other => mismatch index "Utf8" other

/-- The internal name of the class at an index. For an array class this is a descriptor. -/
def className (pool : Pool) (index : UInt16) : Result String := do
  match ← pool.get index with
  | .classRef name => pool.utf8 name
  | other => mismatch index "Class" other

/-- The name and the descriptor of the pair at an index. Neither is looked into here. -/
def nameAndType (pool : Pool) (index : UInt16) : Result (String × String) := do
  match ← pool.get index with
  | .nameAndType name descriptor => return (← pool.utf8 name, ← pool.utf8 descriptor)
  | other => mismatch index "NameAndType" other

/-! ### Growing a pool

Each operation returns the index of the constant it added, as a two-byte word. -/

/-- Adds a constant at the end, with an unusable place behind it if it is wide. The index is that of
the constant, not of the place behind it. -/
def push (constant : Constant) : StateM Pool UInt16 := fun pool =>
  let entries := pool.entries.push constant
  let index := UInt16.ofNat entries.size
  (index, { entries := if constant.isWide then entries.push .unusable else entries })

/-- The index of a text, which is added only if it is not there yet. The first place that has it is
taken. -/
def addUtf8 (text : String) : StateM Pool UInt16 := fun pool =>
  match pool.entries.findIdx? (· == .utf8 text) with
  | some position => (UInt16.ofNat (position + 1), pool)
  | none => push (.utf8 text) pool

/-- Adds a class with its internal name, which is shared if the pool has it as a text. -/
def addClass (name : String) : StateM Pool UInt16 := do
  push (.classRef (← addUtf8 name))

/-- Adds a string constant with its text. -/
def addString (text : String) : StateM Pool UInt16 := do
  push (.string (← addUtf8 text))

/-- Adds a pair of a name and a descriptor. -/
def addNameAndType (name descriptor : String) : StateM Pool UInt16 := do
  let name ← addUtf8 name
  let descriptor ← addUtf8 descriptor
  push (.nameAndType name descriptor)

/-- Adds a member of a class: the class, the name with its descriptor, and what `reference` makes of
the two. The constants are added in this order. -/
def addMember (reference : UInt16 → UInt16 → Constant) (owner name descriptor : String) :
    StateM Pool UInt16 := do
  let owner ← addClass owner
  let nameAndType ← addNameAndType name descriptor
  push (reference owner nameAndType)

/-- Adds a field of a class. -/
def addFieldRef (owner name descriptor : String) : StateM Pool UInt16 :=
  addMember .fieldRef owner name descriptor

/-- Adds a method of a class. -/
def addMethodRef (owner name descriptor : String) : StateM Pool UInt16 :=
  addMember .methodRef owner name descriptor

/-- Adds a method of an interface. -/
def addInterfaceMethodRef (owner name descriptor : String) : StateM Pool UInt16 :=
  addMember .interfaceMethodRef owner name descriptor

/-- Adds a dynamic call site. The index of its bootstrap method is not one of the pool. -/
def addInvokeDynamic (bootstrap : UInt16) (name descriptor : String) : StateM Pool UInt16 := do
  push (.invokeDynamic bootstrap (← addNameAndType name descriptor))

end Pool

end JvmSource
