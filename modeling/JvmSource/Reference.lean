import JvmSource.Pool
import JvmSource.Ty.Descriptor

/-!
# References

The classes, fields, methods and call sites that pool entries stand for, with all indices followed
and all descriptors read.

An instruction names them by the index of one constant. From there two or three more constants are
followed: the class of the member, the pair of its name and descriptor, and the texts of these. What
can fail on the way is a constant that is missing or of the wrong kind, or a descriptor that cannot
be read; the first failure in the order of these definitions is the one that is reported.

The classes of fields and methods are kept as text in the form that they are shown in, which is the
displayed name for a field and the dotted name for a method. A class that an instruction works on
itself, as in a cast, is kept as a type, because it may be an array class.
-/

namespace JvmSource

/-- A class as an instruction names it; it may be an array class, also of a primitive type. -/
structure ClassRef where
  type : Ty
  deriving DecidableEq

namespace ClassRef

/-- The displayed name of the innermost element type, which a new array of the class is written
with. -/
def name (c : ClassRef) : String :=
  c.type.base.display

/-- The number of array dimensions. -/
def dimensions (c : ClassRef) : Nat :=
  c.type.dimensions

/-- The displayed name with all dimensions, as casts and tests show it. -/
def typeName (c : ClassRef) : String :=
  c.type.display

end ClassRef

/-- A field of a class. Its class is shown in front of a static field. -/
structure FieldRef where
  /-- The displayed name of the class. -/
  owner : String
  name : String
  type : Ty
  deriving DecidableEq

/-- A method of a class or an interface, or a dynamic call site. Which of these it is shows in the
owner only. -/
structure MethodRef where
  /-- The dotted name of the class, empty for a dynamic call site. -/
  owner : String
  name : String
  descriptor : String
  type : MethodTy
  deriving DecidableEq

namespace MethodRef

/-- Whether a call leaves no value. Such a call is a statement, any other one an expression. -/
def isVoid (m : MethodRef) : Bool :=
  m.type.result == .void

end MethodRef

namespace Pool

/-- The class at an index. -/
def classRef (pool : Pool) (index : UInt16) : Result ClassRef := do
  return { type := ← Ty.ofClassName (← pool.className index) }

/-- The field at an index. -/
def fieldRef (pool : Pool) (index : UInt16) : Result FieldRef := do
  match ← pool.get index with
  | .fieldRef owner nameAndType => do
    let (name, descriptor) ← pool.nameAndType nameAndType
    let owner ← pool.className owner
    let type ← Ty.ofDescriptor descriptor
    return { owner := Name.display owner, name, type }
  | other => mismatch index "FieldRef" other

/-- The method with the given owner, name and descriptor, which are indices. The descriptor is read
before the owner is looked up. -/
def methodOf (pool : Pool) (owner nameAndType : UInt16) : Result MethodRef := do
  let (name, descriptor) ← pool.nameAndType nameAndType
  let type ← MethodTy.ofDescriptor descriptor
  let owner ← pool.className owner
  return { owner := Name.dotted owner, name, descriptor, type }

/-- The method at an index, of a class or of an interface. Calls that need an interface use
`interfaceMethodRef`. -/
def methodRef (pool : Pool) (index : UInt16) : Result MethodRef := do
  match ← pool.get index with
  | .methodRef owner nameAndType => pool.methodOf owner nameAndType
  | .interfaceMethodRef owner nameAndType => pool.methodOf owner nameAndType
  | other => mismatch index "MethodRef" other

/-- The method of an interface at an index. -/
def interfaceMethodRef (pool : Pool) (index : UInt16) : Result MethodRef := do
  match ← pool.get index with
  | .interfaceMethodRef owner nameAndType => pool.methodOf owner nameAndType
  | other => mismatch index "InterfaceMethodRef" other

/-- The dynamic call site at an index. What it is bound to is not looked up. -/
def callSite (pool : Pool) (index : UInt16) : Result MethodRef := do
  match ← pool.get index with
  | .invokeDynamic _ nameAndType => do
    let (name, descriptor) ← pool.nameAndType nameAndType
    let type ← MethodTy.ofDescriptor descriptor
    return { owner := "", name, descriptor, type }
  | other => mismatch index "InvokeDynamic" other

end Pool

end JvmSource
