import JvmSource.Name

/-!
# Types

The types of the virtual machine with their displayed names. A value of type `long` or `double`
takes two local variable slots, and any other value one.

A type comes from a descriptor or a class constant, or it is fixed by an opcode. It is used in two
ways. Its displayed name is the text that stands in headers, declarations and casts, and is also the
type that a value on the symbolic stack carries. Its width decides which slots the arguments of a
method take.

Array types nest: the dimensions of a type count its array constructors, and its base is what is
left behind the last one. The displayed name of an array type is that of its elements and a pair of
brackets, so a type has as many pairs of brackets as dimensions.
-/

namespace JvmSource

/-- A type of the virtual machine; `void` is a type only as a result. Nothing keeps an array of
`void` from being written down, but no descriptor stands for it. -/
inductive Ty where
  | int
  | long
  | float
  | double
  | byte
  | char
  | short
  | boolean
  | void
  /-- A class, by its internal name. -/
  | reference (name : String)
  | array (element : Ty)
  deriving DecidableEq, Inhabited

namespace Ty

/-- Whether a value of the type takes two local variable slots. A wide value is still one cell of
the symbolic operand stack. -/
def isWide : Ty → Bool
  | long | double => true
  | _ => false

/-- The number of slots a value of the type takes; `void` counts as one, but is the type of no
argument. -/
def width (t : Ty) : Nat :=
  if t.isWide then 2 else 1

/-- The number of array dimensions; zero for a type that is no array. -/
def dimensions : Ty → Nat
  | array element => element.dimensions + 1
  | _ => 0

/-- The innermost type that is not an array; the type itself if it is none. -/
def base : Ty → Ty
  | array element => element.base
  | t => t

/-- The displayed name: primitives by keyword, classes by their displayed name, and one pair of
brackets per dimension. -/
def display : Ty → String
  | int => "int"
  | long => "long"
  | float => "float"
  | double => "double"
  | byte => "byte"
  | char => "char"
  | short => "short"
  | boolean => "boolean"
  | void => "void"
  | reference name => Name.display name
  | array element => element.display ++ "[]"

@[simp] theorem dimensions_array (t : Ty) : (array t).dimensions = t.dimensions + 1 := rfl

@[simp] theorem base_array (t : Ty) : (array t).base = t.base := rfl

@[simp] theorem display_array (t : Ty) : (array t).display = t.display ++ "[]" := rfl

/-- The element type that the operand of a primitive array allocation stands for. Other codes are
unassigned. -/
def ofArrayCode? : Nat → Option Ty
  | 4 => some boolean
  | 5 => some char
  | 6 => some float
  | 7 => some double
  | 8 => some byte
  | 9 => some short
  | 10 => some int
  | 11 => some long
  | _ => none

end Ty

/-- The argument types and the result type of a method. The current object is no argument. -/
structure MethodTy where
  arguments : List Ty
  result : Ty
  deriving DecidableEq, Inhabited

end JvmSource
