import JvmSource.Decimal.Layout
import JvmSource.Name
import JvmSource.Text.Quoted
import JvmSource.Text.Replace

/-!
# Literals and values

A literal is a constant of the source text. A value is one cell of the symbolic operand stack: a
literal, a variable, the text of an expression, or `null`, together with its type and the
instruction of the block that pushed it.

A value is text from the moment on at which it is pushed. Its text is what is written where the
value is used as a whole. Where it is used as an operand its text stands in parentheses if it holds
a space (`Value.operandText`); so an expression with an operator gets parentheses, and so does a
string literal that holds a space.

A wide value, a `long` or a `double`, is one cell like any other. The type of a value is also text.
It is looked at where the text of an instruction depends on it: an array is told from other values
by its brackets, a comparison with zero is written differently for a `boolean`, and a variable may
take its type from the value that is first assigned to it.
-/

namespace JvmSource

/-- A constant of the source text; floating-point numbers are kept as their bits. -/
inductive Literal where
  | int (value : Int)
  | long (value : Int)
  | float (bits : UInt32)
  | double (bits : UInt64)
  | string (text : String)
  deriving DecidableEq

namespace Literal

/-- The type of a literal. Literals of the narrow integer types do not exist. -/
def type : Literal → String
  | int _ => "int"
  | long _ => "long"
  | float _ => "float"
  | double _ => "double"
  | string _ => "String"

/-- Numbers from `1e-4` up to, but not including, `1e16` are written without an exponent. -/
def layout : Decimal.Layout :=
  { least := -4, greatest := 15 }

/-- A literal as source text. A suffix tells a `long` from an `int` and a `float` from a
`double`. -/
def text : Literal → String
  | int value => Text.integer value
  | long value => Text.integer value ++ "L"
  | float bits => layout.writeReading (.ofSingle bits) ++ "f"
  | double bits => layout.writeReading (.ofDouble bits)
  | string s => Text.quote s

end Literal

/-- What a value is made of. The type of a variable and of an expression stands beside its text. -/
inductive Value.Form where
  | literal (literal : Literal)
  | named (name type : String)
  | code (text type : String)
  | null
  deriving DecidableEq

/-- One cell of the symbolic operand stack: what it is made of, and where it comes from. -/
structure Value where
  /-- The position in its block of the instruction that pushed the value. -/
  origin : Nat
  form : Value.Form
  deriving DecidableEq

namespace Value

/-- The value of a literal. -/
def ofLiteral (origin : Nat) (literal : Literal) : Value :=
  { origin, form := .literal literal }

/-- The value of a named variable. -/
def ofVariable (origin : Nat) (name type : String) : Value :=
  { origin, form := .named name type }

/-- The value of an expression. -/
def ofCode (origin : Nat) (text type : String) : Value :=
  { origin, form := .code text type }

/-- The value `null`. -/
def ofNull (origin : Nat) : Value :=
  { origin, form := .null }

/-- The type of a value, such as `int` or `a.b.C[]`. -/
def type (value : Value) : String :=
  match value.form with
  | .literal literal => literal.type
  | .named _ type => type
  | .code _ type => type
  | .null => "null"

/-- The source text of a value, without parentheses around it. -/
def text (value : Value) : String :=
  match value.form with
  | .literal literal => literal.text
  | .named name _ => name
  | .code text _ => text
  | .null => "null"

/-- The text of a value as an operand: in parentheses when it holds a space, as every text with a
binary operator in it does. -/
def operandText (value : Value) : String :=
  if Text.holds ' ' value.text then "(" ++ value.text ++ ")" else value.text

/-- Whether the value's type is an array type: whether its displayed name ends in a pair of
brackets. -/
def isArray (value : Value) : Bool :=
  (Name.element? value.type).isSome

/-- The number of an `int` literal. Other values have none, also when their text is a number. -/
def intConstant? (value : Value) : Option Int :=
  match value.form with
  | .literal (.int n) => some n
  | _ => none

end Value

end JvmSource
