import JvmSource.Bytes
import JvmSource.Pool

/-!
# Attributes

The binary records that hold a method's code. Every record has a reader and a writer. A list is
stored behind its count; the counts are kept as they are stored, and writing puts out the stored
count and then the whole list.

So a record may be written that does not say how long its own lists are. A record that has been read
never is of that kind, and one that is made from its parts (`ofInfo`, `ofEntries`, `ofParts`) is
only if a list is too long for the word that counts it.

An attribute is a name and uninterpreted bytes. What the bytes mean is known from the name: those of
a `Code` attribute are a `Code` record, which has attributes of its own, and among these may be a
`LocalVariableTable`. Interpreting the bytes of an attribute needs a record at their front; bytes
that are left behind it are ignored. The error names the attribute and not the byte that is missing.
-/

namespace JvmSource

open Bytes

/-- A named attribute with uninterpreted contents. -/
structure Attribute where
  /-- The pool index of the name. -/
  name : UInt16
  /-- The stored number of bytes. -/
  length : UInt32
  info : List UInt8
  deriving DecidableEq

namespace Attribute

/-- The attribute with the given contents. The stored length is a word of four bytes. -/
def ofInfo (name : UInt16) (info : List UInt8) : Attribute :=
  { name, length := UInt32.ofNat info.length, info }

/-- Reads an attribute: its name, its length, and as many bytes as the length says. -/
def read : Reader Attribute := do
  let name ← Reader.u16
  let length ← Reader.u32
  let info ← Reader.bytes length.toNat
  return { name, length, info }

/-- The bytes of an attribute, with the length as it is stored. -/
def write (a : Attribute) : List UInt8 :=
  u16 a.name ++ u32 a.length ++ a.info

end Attribute

/-- An entry of an exception table: the byte range it protects, its handler and what it catches. All
positions are offsets into the code. -/
structure ExceptionEntry where
  startPc : UInt16
  /-- The first offset behind the range. -/
  endPc : UInt16
  handlerPc : UInt16
  /-- The pool index of the class it catches, 0 for everything. -/
  catchType : UInt16
  deriving DecidableEq

namespace ExceptionEntry

/-- Reads an entry. -/
def read : Reader ExceptionEntry := do
  let startPc ← Reader.u16
  let endPc ← Reader.u16
  let handlerPc ← Reader.u16
  let catchType ← Reader.u16
  return { startPc, endPc, handlerPc, catchType }

/-- The bytes of an entry. -/
def write (e : ExceptionEntry) : List UInt8 :=
  u16 e.startPc ++ u16 e.endPc ++ u16 e.handlerPc ++ u16 e.catchType

end ExceptionEntry

/-- A row of a local variable table: the range of offsets in which a slot has a name. The range
starts at `startPc` and is `length` bytes long. -/
structure LocalVariableEntry where
  startPc : UInt16
  length : UInt16
  /-- The pool index of the name. -/
  name : UInt16
  /-- The pool index of the descriptor. -/
  descriptor : UInt16
  slot : UInt16
  deriving DecidableEq

namespace LocalVariableEntry

/-- Reads a row. -/
def read : Reader LocalVariableEntry := do
  let startPc ← Reader.u16
  let length ← Reader.u16
  let name ← Reader.u16
  let descriptor ← Reader.u16
  let slot ← Reader.u16
  return { startPc, length, name, descriptor, slot }

/-- The bytes of a row. -/
def write (e : LocalVariableEntry) : List UInt8 :=
  u16 e.startPc ++ u16 e.length ++ u16 e.name ++ u16 e.descriptor ++ u16 e.slot

/-- Whether the row names `slot` at the offset `pc`: whether it is a row for the slot, and `pc` lies
in its range. -/
def covers (e : LocalVariableEntry) (slot pc : Nat) : Bool :=
  e.slot.toNat == slot && decide (e.startPc.toNat ≤ pc)
    && decide (pc < e.startPc.toNat + e.length.toNat)

end LocalVariableEntry

/-- The table that names a method's local variables. A slot may have several rows, and their ranges
may overlap. -/
structure LocalVariableTable where
  /-- The stored number of rows. -/
  count : UInt16
  entries : List LocalVariableEntry
  deriving DecidableEq

namespace LocalVariableTable

/-- The table with the given rows. -/
def ofEntries (entries : List LocalVariableEntry) : LocalVariableTable :=
  { count := UInt16.ofNat entries.length, entries }

/-- Reads a table. -/
def read : Reader LocalVariableTable := do
  let count ← Reader.u16
  let entries ← Reader.many LocalVariableEntry.read count.toNat
  return { count, entries }

/-- The bytes of a table. -/
def write (t : LocalVariableTable) : List UInt8 :=
  u16 t.count ++ t.entries.flatMap LocalVariableEntry.write

/-- The attribute that holds a table. -/
def toAttribute (t : LocalVariableTable) (name : UInt16) : Attribute :=
  Attribute.ofInfo name t.write

/-- The table that an attribute holds. Bytes behind the table are ignored. -/
def ofAttribute (a : Attribute) : Result LocalVariableTable :=
  match read.value? a.info with
  | some table => .ok table
  | none => .error (.malformedAttribute "LocalVariableTable")

/-- The first row that names `slot` at the offset `pc`, in the order of the table. -/
def find? (t : LocalVariableTable) (slot pc : Nat) : Option LocalVariableEntry :=
  t.entries.find? (·.covers slot pc)

end LocalVariableTable

/-- The code of a method, with the limits it promises to keep, its exception table and its
attributes. -/
structure Code where
  maxStack : UInt16
  maxLocals : UInt16
  /-- The stored number of code bytes. -/
  codeLength : UInt32
  code : List UInt8
  /-- The stored number of exception entries. -/
  exceptionCount : UInt16
  exceptions : List ExceptionEntry
  /-- The stored number of attributes. -/
  attributeCount : UInt16
  attributes : List Attribute
  deriving DecidableEq, Inhabited

namespace Code

/-- The record whose counts are those of its lists, as far as these fit their words. -/
def ofParts (maxStack maxLocals : UInt16) (code : List UInt8) (exceptions : List ExceptionEntry)
    (attributes : List Attribute) : Code :=
  { maxStack, maxLocals
    codeLength := UInt32.ofNat code.length, code
    exceptionCount := UInt16.ofNat exceptions.length, exceptions
    attributeCount := UInt16.ofNat attributes.length, attributes }

/-- Reads a method's code: its limits, the code, the exception table and the attributes, each of the
three lists behind its count. -/
def read : Reader Code := do
  let maxStack ← Reader.u16
  let maxLocals ← Reader.u16
  let codeLength ← Reader.u32
  let code ← Reader.bytes codeLength.toNat
  let exceptionCount ← Reader.u16
  let exceptions ← Reader.many ExceptionEntry.read exceptionCount.toNat
  let attributeCount ← Reader.u16
  let attributes ← Reader.many Attribute.read attributeCount.toNat
  return { maxStack, maxLocals, codeLength, code, exceptionCount, exceptions, attributeCount,
           attributes }

/-- The bytes of a method's code. -/
def write (c : Code) : List UInt8 :=
  u16 c.maxStack ++ u16 c.maxLocals ++ u32 c.codeLength ++ c.code
    ++ u16 c.exceptionCount ++ c.exceptions.flatMap ExceptionEntry.write
    ++ u16 c.attributeCount ++ c.attributes.flatMap Attribute.write

/-- The attribute that holds a method's code. -/
def toAttribute (c : Code) (name : UInt16) : Attribute :=
  Attribute.ofInfo name c.write

/-- The code that an attribute holds. Bytes behind the code are ignored. -/
def ofAttribute (a : Attribute) : Result Code :=
  match read.value? a.info with
  | some code => .ok code
  | none => .error (.malformedAttribute "Code")

/-- The first local variable table among some attributes. The name of every attribute before it must
be in the pool. -/
def findTable (pool : Pool) : List Attribute → Result (Option LocalVariableTable)
  | [] => .ok none
  | a :: rest => do
    if (← pool.utf8 a.name) = "LocalVariableTable" then
      return some (← LocalVariableTable.ofAttribute a)
    else findTable pool rest

/-- The first local variable table of a method's code. A code may have several; the others are not
used. -/
def localVariableTable (c : Code) (pool : Pool) : Result (Option LocalVariableTable) :=
  findTable pool c.attributes

end Code

end JvmSource
