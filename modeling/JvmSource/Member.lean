import JvmSource.Attribute

/-!
# Members of a class

Fields and methods are stored in the same form: access flags, a name, a descriptor and attributes.
The flags of the two differ in which keywords they stand for.

The order of the keywords is that of the lists here, not that of the bits: `abstract` stands before
`synchronized`, and `transient` before `volatile`. Bits that have no keyword are ignored, those for
generated members among them. Whether a method has a body is a matter of its flags alone: an
abstract or native method has none, even if it has code.

The attributes of a method are searched for its code. There may be only one such attribute, and all
of them are looked at, so a second one is an error although the first could be read.
-/

namespace JvmSource

open Bytes

/-- The access flags of a class or of one of its members. What a bit means depends on which of
them. -/
structure Flags where
  bits : UInt16
  deriving DecidableEq

namespace Flags

/-- Whether all bits of `mask` are set. A mask may have several bits, though none here has. -/
def has (flags : Flags) (mask : UInt16) : Bool :=
  flags.bits &&& mask == mask

/-- The keywords of the masks that are set, in the order of the list. No keyword is left out because
of another one. -/
def select (flags : Flags) (keywords : List (UInt16 × String)) : List String :=
  (keywords.filter fun k => flags.has k.1).map Prod.snd

/-- The keywords of a method. -/
def methodKeywords (flags : Flags) : List String :=
  flags.select
    [(0x0001, "public"), (0x0002, "private"), (0x0004, "protected"), (0x0008, "static"),
     (0x0010, "final"), (0x0400, "abstract"), (0x0020, "synchronized"), (0x0100, "native")]

/-- The keywords of a field. -/
def fieldKeywords (flags : Flags) : List String :=
  flags.select
    [(0x0001, "public"), (0x0002, "private"), (0x0004, "protected"), (0x0008, "static"),
     (0x0010, "final"), (0x0080, "transient"), (0x0040, "volatile")]

/-- Whether a member belongs to the class rather than to its objects. A method that does has no slot
for the current object. -/
def isStatic (flags : Flags) : Bool :=
  flags.has 0x0008

/-- Whether a method is declared without a body: abstract or native. Its header then ends in a
semicolon. -/
def isBodyless (flags : Flags) : Bool :=
  flags.has 0x0400 || flags.has 0x0100

end Flags

/-- A field or a method as it is stored. The count of the attributes is kept as it was read. -/
structure Member where
  flags : Flags
  /-- The pool index of the name. -/
  name : UInt16
  /-- The pool index of the descriptor. -/
  descriptor : UInt16
  /-- The stored number of attributes. -/
  attributeCount : UInt16
  attributes : List Attribute
  deriving DecidableEq

namespace Member

/-- The member whose count is that of its attributes, as far as it fits its word. -/
def ofParts (flags : Flags) (name descriptor : UInt16) (attributes : List Attribute) : Member :=
  { flags, name, descriptor, attributeCount := UInt16.ofNat attributes.length, attributes }

/-- Reads a member. -/
def read : Reader Member := do
  let bits ← Reader.u16
  let name ← Reader.u16
  let descriptor ← Reader.u16
  let attributeCount ← Reader.u16
  let attributes ← Reader.many Attribute.read attributeCount.toNat
  return { flags := { bits }, name, descriptor, attributeCount, attributes }

/-- The bytes of a member. -/
def write (m : Member) : List UInt8 :=
  u16 m.flags.bits ++ u16 m.name ++ u16 m.descriptor ++ u16 m.attributeCount
    ++ m.attributes.flatMap Attribute.write

/-- Looks for a method's code among some attributes, `found` being that of the attributes before.
There may be only one, and all names must be in the pool. -/
def findCode (pool : Pool) (found : Option Code) : List Attribute → Result (Option Code)
  | [] => .ok found
  | a :: rest => do
    if (← pool.utf8 a.name) = "Code" then
      if found.isSome then .error (.duplicateAttribute "Code")
      else findCode pool (some (← Code.ofAttribute a)) rest
    else findCode pool found rest

/-- The code of a method, if it has any. A method without code is no error here. -/
def code? (m : Member) (pool : Pool) : Result (Option Code) :=
  findCode pool none m.attributes

end Member

end JvmSource
