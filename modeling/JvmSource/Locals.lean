import JvmSource.Attribute
import JvmSource.Ty.Basic

/-!
# Local variables

The named slots of one method. On entry the slots of the current object and of the arguments are
bound; others are bound when they are first used, and their bindings are never changed. Names come
from the local variable table, if there is one, and are made up from the slot number otherwise.

The name of a slot is looked up at the moment at which the slot is bound, and for the offset at
which that happens: the row that covers the offset is taken, or else the first row that the table
has for the slot (`Locals.tableName?`). A compiler may give one slot to several variables, one after
the other. All of them then have the name and the type of the first one that is used, since a bound
slot is not bound again.

The arguments lie in the slots from 0 on, behind the slot of the current object if there is one, and
a wide argument takes two slots. A slot is a number of two bytes, so the slots of very many
arguments begin again at 0 (`Locals.argumentSlots`); a later argument then hides an earlier one.
With no more than 65535 slots this does not happen.
-/

namespace JvmSource

/-- A named slot, with the displayed name of its type. -/
structure LocalVariable where
  name : String
  type : String
  deriving DecidableEq

/-- A row of the local variable table with its name looked up and its range as a pair of offsets. -/
structure TableName where
  slot : Nat
  startPc : Nat
  /-- The first offset behind the range. -/
  endPc : Nat
  name : String
  deriving DecidableEq

/-- The local variables of a method: the bindings, the latest one first, and the rows that names
come from. -/
structure Locals where
  slots : List (Nat × LocalVariable)
  table : List TableName
  deriving DecidableEq

namespace Locals

/-- The rows of a local variable table with their names. All names must be in the pool, also those
of rows that are never used. -/
def tableNames (pool : Pool) (entries : List LocalVariableEntry) : Result (List TableName) :=
  entries.mapM fun e => do
    return { slot := e.slot.toNat
             startPc := e.startPc.toNat
             endPc := e.startPc.toNat + e.length.toNat
             name := ← pool.utf8 e.name }

/-- The name the table gives a slot: that of the first row in whose range `pc` lies, or else of the
first row for the slot. -/
def tableName? (table : List TableName) (slot pc : Nat) : Option String :=
  let rows := table.filter (·.slot == slot)
  ((rows.find? fun row => decide (row.startPc ≤ pc) && decide (pc < row.endPc)).or
    rows.head?).map (·.name)

/-- The variable bound to a slot: its latest binding. -/
def get? (locals : Locals) (slot : Nat) : Option LocalVariable :=
  locals.slots.lookup slot

/-- The variable of a slot that must be bound, since the instruction does not say of which type it
is. -/
def require (locals : Locals) (slot : Nat) : Result LocalVariable :=
  match locals.get? slot with
  | some v => .ok v
  | none => .error (.unassignedLocal slot)

/-- Binds a slot. A later binding hides an earlier one of the same slot. -/
def bind (locals : Locals) (slot : Nat) (v : LocalVariable) : Locals :=
  { locals with slots := (slot, v) :: locals.slots }

/-- The variable of a slot, bound with the given type on first use; `pc` selects its name. A slot
that is bound keeps its type, whatever the use asks for. -/
def getOrBind (locals : Locals) (slot : Nat) (type : String) (pc : Nat) :
    LocalVariable × Locals :=
  match locals.get? slot with
  | some v => (v, locals)
  | none =>
    let name := (tableName? locals.table slot pc).getD ("var" ++ Text.decimal slot)
    let v := { name, type }
    (v, locals.bind slot v)

@[simp] theorem get?_bind_self (locals : Locals) (slot : Nat) (v : LocalVariable) :
    (locals.bind slot v).get? slot = some v := by
  simp [bind, get?]

/-- Binding a slot changes no other one. -/
theorem get?_bind_of_ne (locals : Locals) {slot other : Nat} (v : LocalVariable)
    (h : other ≠ slot) : (locals.bind slot v).get? other = locals.get? other := by
  simp [bind, get?, List.lookup_cons, beq_eq_false_iff_ne.2 h]

/-- A slot is bound to the variable that its use returns. -/
theorem get?_getOrBind (locals : Locals) (slot : Nat) (type : String) (pc : Nat) :
    (locals.getOrBind slot type pc).2.get? slot = some (locals.getOrBind slot type pc).1 := by
  unfold getOrBind
  split
  · assumption
  · exact get?_bind_self ..

/-- A use of a slot changes no binding. -/
theorem get?_getOrBind_of_eq_some {locals : Locals} {other : Nat} {v : LocalVariable}
    (h : locals.get? other = some v) (slot : Nat) (type : String) (pc : Nat) :
    (locals.getOrBind slot type pc).2.get? other = some v := by
  unfold getOrBind
  split
  · exact h
  · next hs =>
    have hne : other ≠ slot := fun he => by simp [← he, h] at hs
    rw [get?_bind_of_ne _ _ hne, h]

/-- The slots that values of the given types take, one behind the other from `slot` on. A slot is a
number of two bytes, so behind the last slot the numbers begin again at 0. -/
def argumentSlots (slot : Nat) : List Ty → List (Nat × Ty)
  | [] => []
  | t :: types => (slot, t) :: argumentSlots ((slot + t.width) % UInt16.size) types

/-- The first argument slot: slot 0 of a method that is not static holds the current object. -/
def firstSlot (isStatic : Bool) : Nat :=
  if isStatic then 0 else 1

/-- Binds the slot of an argument. Its name is that at the start of the code, or made up from its
slot. -/
def bindArgument (locals : Locals) (argument : Nat × Ty) : Locals :=
  let (slot, t) := argument
  let name := (tableName? locals.table slot 0).getD ("arg" ++ Text.decimal slot)
  locals.bind slot { name, type := t.display }

/-- The local variables on entry to a method of the class with the given internal name: the current
object, if there is one, and the arguments. -/
def onEntry (owner : String) (isStatic : Bool) (arguments : List Ty) (table : List TableName) :
    Locals :=
  let this : List (Nat × LocalVariable) :=
    if isStatic then [] else [(0, { name := "this", type := Name.display owner })]
  (argumentSlots (firstSlot isStatic) arguments).foldl bindArgument { slots := this, table }

/-- The local variables on entry, named by a local variable table if there is one. Only the names in
the table can fail. -/
def forMethod (owner : String) (isStatic : Bool) (arguments : List Ty)
    (table : Option LocalVariableTable) (pool : Pool) : Result Locals := do
  let names ← match table with
    | some table => tableNames pool table.entries
    | none => pure []
  return onEntry owner isStatic arguments names

end Locals

end JvmSource
