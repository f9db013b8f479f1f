import JvmSource.Eval.Action
import JvmSource.Eval.Frame
import JvmSource.Locals

/-!
# Effects of actions

What an action does with its operands: the values it pushes, the lines it writes, the object names
it uses up, and whether it flushes the stack. An effect is worked out from the operands alone; the
values below them are not looked at. Only an access to a local variable can change the variables.

There are two kinds of actions. An expression pushes its text and writes nothing; a statement writes
the line of its instruction. Some do both: a new object is declared on its line and pushed under its
name, and a `throw` leaves the exception on the stack. The text of an expression has its operands in
parentheses where they need some, so that the text can be read again; a call or an index stands
between parentheses or brackets of its own.

The texts of branches are written with `goto`. What becomes of the `goto` is decided when all blocks
have been evaluated, since it depends on the scopes of the whole method.
-/

namespace JvmSource

/-! ### Booleans

The machine has no booleans of its own: where one is wanted, the constants 0 and 1 stand for
`false` and `true`, and no other constant will do. -/

/-- The keyword for a constant where `type` is wanted, if that is `boolean`. Other values are passed
on as they are. -/
def booleanText? (type : String) (value : Value) : Result (Option String) :=
  if type = "boolean" then
    match value.intConstant? with
    | none => .ok none
    | some n =>
      if n = 0 then .ok (some "false")
      else if n = 1 then .ok (some "true")
      else .error (.invalidBoolean n)
  else .ok none

/-- The text of a value that is assigned to something of the given type. No cast is written. -/
def assignedText (type : String) (value : Value) : Result String := do
  return (← booleanText? type value).getD value.text

/-- The text of a value that is passed as an argument of the given type: a keyword, or a cast to the
type. -/
def argumentText (type : String) (value : Value) : Result String := do
  return (← booleanText? type value).getD ("(" ++ type ++ ") " ++ value.operandText)

/-- The texts of the arguments of a call, given its operands, the last argument first. -/
def argumentTexts (types : List Ty) (operands : List Value) : Result String := do
  let texts ← (types.reverse.zip operands).mapM fun (t, v) => argumentText t.display v
  return ", ".intercalate texts.reverse

namespace Action

/-! ### Local variables -/

/-- The type of a loaded variable: a narrow type that takes the place of `int` is kept. -/
def loadedType (type : Ty) (v : LocalVariable) : String :=
  if type = .int ∧ v.type ∈ ["boolean", "byte", "char", "short"] then v.type else type.display

/-- The statement that adds `delta` to a variable. -/
def incrementText (name : String) (delta : Int) : String :=
  if delta = 1 then name ++ "++;"
  else if delta = -1 then name ++ "--;"
  else if delta < 0 then name ++ " -= " ++ Text.integer (-delta) ++ ";"
  else name ++ " += " ++ Text.integer delta ++ ";"

/-- The effect of an access, and the variables after it. -/
def Access.effect (site : Site) (locals : Locals) : Access → Locals × Result Effect
  | load type slot =>
    let (v, locals) := locals.getOrBind slot type.display site.instr.offset
    (locals, .ok { results := [Value.ofVariable site.position v.name (loadedType type v)] })
  | loadReference slot =>
    (locals, do
      let v ← locals.require slot
      return { results := [Value.ofVariable site.position v.name v.type] })
  | increment slot delta =>
    let (v, locals) := locals.getOrBind slot Ty.int.display site.instr.offset
    (locals, .ok (site.write (incrementText v.name delta)))

/-- The effect of an assignment, and the variables after it. A variable is named by the offset
behind the instruction, where its range begins. -/
def assignEffect (site : Site) (locals : Locals) (type : Option Ty) (slot : Nat) (value : Value) :
    Locals × Result Effect :=
  let type := (type.map Ty.display).getD value.type
  let (v, locals) := locals.getOrBind slot type (site.instr.offset + site.instr.size)
  (locals, do return site.write (v.name ++ " = " ++ (← assignedText v.type value) ++ ";"))

/-! ### Branches -/

/-- A conditional branch: the statement that jumps if the condition holds. -/
def branchText (condition : String) (label : Label) : String :=
  "if(" ++ condition ++ ") \x7b goto " ++ label.text ++ "; \x7d"

/-- The comparison of a value with a text. -/
def comparisonText (left : Value) (test : Comparison) (right : String) : String :=
  left.operandText ++ " " ++ test.symbol ++ " " ++ right

/-- The condition that compares a value with zero. A boolean is tested as it is, and cannot be
ordered. -/
def zeroTestText (site : Site) (value : Value) (test : Comparison) : Result String :=
  if value.type = "boolean" then
    match test with
    | .eq => .ok ("!" ++ value.operandText)
    | .ne => .ok value.text
    | other => site.misuse (.booleanOrder other.symbol)
  else .ok (comparisonText value test "0")

/-- The text of a `lookupswitch`: one line for the default and one for each pair. Jumps are written
as they are stored, relative to the instruction. -/
def switchText (key : Value) (table : SwitchTable) : String :=
  "lookupswitch(" ++ key.text ++ "):\n\tdefault: " ++ Text.signedInteger table.default.toInt
    ++ String.join (table.pairs.map fun pair =>
      "\n\t" ++ Text.integer pair.1.toInt ++ ": " ++ Text.signedInteger pair.2.toInt)

/-! ### Effects by the number of operands -/

/-- The effect of an action without operands. A new object gets the next name, and its declaration
is completed by the call of its constructor. -/
def Nullary.effect (site : Site) (frame : Frame) : Nullary → Result Effect
  | nothing => .ok {}
  | push form => .ok { results := [{ origin := site.position, form }] }
  | jump => do return site.write ("goto " ++ (← site.targetLabel).text ++ ";")
  | returnVoid => .ok { site.write "return;" with flushes := true }
  | newObject type =>
    let name := frame.objectName
    .ok { site.write (type ++ " " ++ name ++ " = new " ++ type) with
          results := [Value.ofVariable site.position name type]
          objects := 1 }

/-- The effect of duplicating the top. A newly made array gets a name first, so that its elements
can be assigned. -/
def dupEffect (site : Site) (frame : Frame) (top : Value) : Effect :=
  let made := (site.operationAt? top.origin).any (·.makesArray)
  if top.isArray && made && frame.lines[top.origin]? == some none then
    let name := frame.objectName
    let named := Value.ofVariable top.origin name top.type
    { results := [named, named]
      writes := [(top.origin, some (top.type ++ " " ++ name ++ " = " ++ top.text ++ ";"))]
      objects := 1 }
  else { results := [top, top] }

/-- The effect of an action on the top of the stack. The label of a branch is looked up before its
operand is. -/
def Unary.effect (site : Site) (frame : Frame) (value : Value) : Unary → Result Effect
  | discard => .ok (site.write (value.text ++ ";"))
  | dup => .ok (dupEffect site frame value)
  | negate type => .ok (site.push ("- " ++ value.operandText) type.display)
  | convert target =>
    .ok (site.push ("(" ++ target.display ++ ") (" ++ value.text ++ ")") target.display)
  | testZero test => do
    let label ← site.targetLabel
    return site.write (branchText (← zeroTestText site value test) label)
  | testNull test => do
    let label ← site.targetLabel
    return site.write (branchText (comparisonText value test "null") label)
  | lookupSwitch => do return site.write (switchText value (← site.instr.switchTable))
  | returnValue => .ok { site.write ("return " ++ value.text ++ ";") with flushes := true }
  | throw =>
    .ok { site.write ("throw " ++ value.text ++ ";") with results := [value], flushes := true }
  | putStatic field => do
    let text ← assignedText field.type.display value
    return site.write (field.owner ++ "." ++ field.name ++ " = " ++ text ++ ";")
  | getField field =>
    let type := field.type.display
    .ok (site.push ("(" ++ type ++ ") (" ++ value.text ++ ")." ++ field.name) type)
  | newArray code =>
    match Ty.ofArrayCode? code with
    | some element =>
      .ok (site.push ("new " ++ element.display ++ "[" ++ value.text ++ "]")
        (Ty.array element).display)
    | none => site.misuse (.elementCode code)
  | newReferenceArray element =>
    .ok (site.push
      ("new " ++ element.name ++ "[" ++ value.text ++ "]" ++ Text.repeated element.dimensions "[]")
      (element.typeName ++ "[]"))
  | arrayLength => .ok (site.push ("(" ++ value.text ++ ").length") "int")
  | checkCast target =>
    .ok (site.push ("(" ++ target.typeName ++ ") " ++ value.operandText) target.typeName)
  | instanceOf target =>
    .ok (site.push (value.operandText ++ " instanceof " ++ target.typeName) "boolean")

/-- The effect of an action on the two topmost values, of which `second` is the left operand. -/
def Binary.effect (site : Site) (top second : Value) : Binary → Result Effect
  | arrayLoad element => do
    let type ← match element, Name.element? second.type with
      | some element, _ => pure element.display
      | none, some type => pure type
      | none, none =>
        .error (.expectedArray site.instr.mnemonic site.instr.offset second.type)
    return site.push (second.operandText ++ "[" ++ top.text ++ "]") type
  | dupX1 => .ok { results := [top, second, top] }
  | swap => .ok { results := [second, top] }
  | operator op type =>
    .ok (site.push (second.operandText ++ " " ++ op.symbol ++ " " ++ top.operandText) type.display)
  | shift op type =>
    .ok (site.push ("(" ++ second.text ++ ") " ++ op.symbol ++ " (" ++ top.text ++ ")")
      type.display)
  | compare owner =>
    .ok (site.push (owner ++ ".compare(" ++ second.text ++ ", " ++ top.text ++ ")") "int")
  | test comparison => do
    let label ← site.targetLabel
    return site.write (branchText (comparisonText second comparison top.operandText) label)
  | putField field => do
    let text ← assignedText field.type.display top
    return site.write (second.operandText ++ "." ++ field.name ++ " = " ++ text ++ ";")

/-- The effect of an action on the three topmost values; for an array store these are the value, the
index and the array. -/
def Ternary.effect (site : Site) (top second third : Value) : Ternary → Result Effect
  | arrayStore => do
    let text ← assignedText ((Name.element? third.type).getD "") top
    return site.write (third.operandText ++ "[" ++ second.text ++ "] = " ++ text ++ ";")
  | dupX2 => .ok { results := [top, second, third, top] }

/-! ### Calls -/

/-- The effect of a finished call: a statement, or an expression of its result type. -/
def callEffect (site : Site) (method : MethodRef) (call : String) : Effect :=
  if method.isVoid then site.write (call ++ ";")
  else site.push call method.type.result.display

/-- The effect of a constructor call. If the line of the receiver declares a new object, the
arguments complete it and it moves to the line of the call. If the receiver is the current object,
the call is one of another constructor of the class or of its superclass; the latter is left out
when it has no arguments. -/
def constructorEffect (site : Site) (frame : Frame) (method : MethodRef) (receiver : Value)
    (arguments : String) : Result Effect :=
  match (frame.lines[receiver.origin]?).join with
  | some declaration =>
    .ok { writes := [(receiver.origin, none),
            (site.position, some (declaration ++ "(" ++ arguments ++ ");"))] }
  | none =>
    if site.operationAt? receiver.origin = some (.loadReference (some 0)) then
      if method.owner = site.context.owner then .ok (site.write ("this(" ++ arguments ++ ");"))
      else if arguments = "" then .ok {}
      else .ok (site.write ("super(" ++ arguments ++ ");"))
    else site.misuse .strayConstructor

/-- The effect of an action whose operands are given as a list, the top first. A call has its
arguments there, and the receiver behind them. -/
def Variadic.effect (site : Site) (frame : Frame) (operands : List Value) :
    Variadic → Result Effect
  | callOn method => do
    let arguments ← argumentTexts method.type.arguments operands
    match operands[method.type.arguments.length]? with
    | none => .ok {}
    | some receiver =>
      if method.name = "<init>" then constructorEffect site frame method receiver arguments
      else
        return callEffect site method
          (receiver.operandText ++ "." ++ method.name ++ "(" ++ arguments ++ ")")
  | callStatic method => do
    let arguments ← argumentTexts method.type.arguments operands
    return callEffect site method
      (method.owner ++ "." ++ method.name ++ "(" ++ arguments ++ ")")
  | callDynamic method => do
    let arguments ← argumentTexts method.type.arguments operands
    return callEffect site method (method.name ++ "(" ++ arguments ++ ")")
  | newNestedArray type sized =>
    let sizes := String.join (operands.reverse.map fun v => "[" ++ v.text ++ "]")
    .ok (site.push
      ("new " ++ type.name ++ sizes ++ Text.repeated (type.dimensions - sized) "[]")
      type.typeName)

/-- The effect of an action on its operands, the top first, and the variables after it. An action
gets as many operands as it wants, so the last case does not occur. -/
def perform (site : Site) (frame : Frame) (locals : Locals) :
    Action → List Value → Locals × Result Effect
  | access a, [] => a.effect site locals
  | assign type slot, [value] => assignEffect site locals type slot value
  | nullary a, [] => (locals, a.effect site frame)
  | unary a, [value] => (locals, a.effect site frame value)
  | binary a, [top, second] => (locals, a.effect site top second)
  | ternary a, [top, second, third] => (locals, a.effect site top second third)
  | variadic a, operands => (locals, a.effect site frame operands)
  | _, _ => (locals, .ok {})

end Action

end JvmSource
