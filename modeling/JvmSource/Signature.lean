import JvmSource.Locals
import JvmSource.Member
import JvmSource.Ty.Descriptor

/-!
# Method signatures

What a method's text needs to know about its declaration, and the header that declares it. The
parameters are shown with the names that the body uses for their slots.

That header and body agree on the parameters is not arranged by hand: both start from the local
variables on entry (`Signature.locals`), the header by asking for the slot of each argument, the
body by running on them. A method without code has a header too, whose parameters are named by their
slots.

Two names are special. The initialiser of a class is shown as `static` alone, and its descriptor is
not read for the header. A constructor is shown by the simple name of its class and without a result
type.
-/

namespace JvmSource

/-- The declaration of a method: the class that it belongs to, its flags, and its name and
descriptor as they stand in the pool. -/
structure Signature where
  /-- The internal name of the class. -/
  owner : String
  flags : Flags
  name : String
  descriptor : String
  deriving DecidableEq

namespace Signature

/-- The local variables on entry to the method. Header and body both start from these. -/
def locals (sig : Signature) (table : Option LocalVariableTable) (pool : Pool) :
    Result Locals := do
  let type ← MethodTy.ofDescriptor sig.descriptor
  Locals.forMethod sig.owner sig.flags.isStatic type.arguments table pool

/-- The parameters of a method with the given types, each with its type and name. The slots are the
same ones that the arguments were bound to. -/
def parameters (sig : Signature) (locals : Locals) (types : List Ty) : Result (List String) :=
  (Locals.argumentSlots (Locals.firstSlot sig.flags.isStatic) types).mapM fun argument => do
    let v ← locals.require argument.1
    return v.type ++ " " ++ v.name

/-- The header of the method: its keywords, its result type, its name and its parameters. A
constructor is named after its class and has no result type; a class initialiser is `static`. -/
def header (sig : Signature) (table : Option LocalVariableTable) (pool : Pool) :
    Result String := do
  if sig.name = "<clinit>" then return "static"
  let type ← MethodTy.ofDescriptor sig.descriptor
  let locals ← sig.locals table pool
  let parameters ← sig.parameters locals type.arguments
  let named :=
    if sig.name = "<init>" then Name.simple sig.owner
    else type.result.display ++ " " ++ sig.name
  let declaration := named ++ "(" ++ ", ".intercalate parameters ++ ")"
  return " ".intercalate (sig.flags.methodKeywords ++ [declaration])

end Signature

end JvmSource
