import JvmSource.Attribute
import JvmSource.Instruction
import JvmSource.Reference

/-!
# Protected regions

The exception table of a method in terms of instructions instead of bytes: a region protects the
instructions from `start` up to, but not including, `stop`, and `handler` is where its exceptions
go. A handler never stands before the end of its region.

The three positions of an entry must be offsets at which an instruction starts; only the end of the
range may also be the end of the code. An empty range and a handler in front of the end of its range
are refused, so the order start, stop, handler holds in every region. A caught class is shown as its
displayed type, and an entry without a class catches everything that can be thrown. The class is
looked up last, when the positions have been found to be sound.

Regions come in the order of the table. That order matters in one place only: a handler that several
entries share names the types it catches in the order of the entries.
-/

namespace JvmSource

/-- The number of the instruction at a byte offset. There is none at an offset inside of an
instruction, behind the code, or below zero. -/
def indexAt? (code : List Instruction) (offset : Int) : Option Nat :=
  if offset < 0 then none else code.findIdx? fun instr => instr.offset == offset.toNat

/-- A run of instructions with the handler of their exceptions; positions count instructions. -/
structure Region where
  start : Nat
  stop : Nat
  handler : Nat
  /-- The displayed name of the caught type. -/
  type : String
  deriving DecidableEq

namespace Region

/-- The caught type of an entry: everything throwable if the entry names no class. -/
def caughtType (pool : Pool) (entry : ExceptionEntry) : Result String :=
  if entry.catchType = 0 then .ok "Throwable"
  else do return (← pool.classRef entry.catchType).typeName

/-- The region of an entry, in a method of `size` bytes. The first fault found is reported, with the
three offsets of the entry. -/
def ofEntry (code : List Instruction) (size : Nat) (pool : Pool) (entry : ExceptionEntry) :
    Result Region := do
  let invalid {α : Type} (fault : RegionFault) : Result α :=
    .error (.invalidRegion entry.startPc entry.endPc entry.handlerPc fault)
  let find (pc : UInt16) (fault : RegionFault) : Result Nat :=
    match indexAt? code pc.toNat with
    | some index => .ok index
    | none => invalid fault
  let start ← find entry.startPc .startNotFound
  let stop ← if entry.endPc.toNat = size then pure code.length
    else find entry.endPc .endNotFound
  let handler ← find entry.handlerPc .handlerNotFound
  if stop ≤ start then invalid .emptyRange
  else if handler < stop then invalid .handlerTooEarly
  else return { start, stop, handler, type := ← caughtType pool entry }

end Region

/-- The regions of a method's exception table, in table order. One faulty entry fails all of
them. -/
def Code.regions (c : Code) (code : List Instruction) (pool : Pool) : Result (List Region) :=
  c.exceptions.mapM (Region.ofEntry code c.code.length pool)

end JvmSource
