import JvmSource.Method
import JvmSource.Text.Lines

/-!
# Classes

The text of a whole class: its package, its header, its fields and its methods. A method that fails
is shown as a comment, or fails the class, as the options say.

The text has two parts. The front holds the package, the header and one line for each field; nothing
in it can be left out, so a name or a type that cannot be read fails the class. Behind it stands one
section for each method in order, an empty line and the indented lines of the method. A section
depends on the method, the name of the class, the pool and the options, and not on the other
methods.

A comment for a failing method names the method and the innermost cause. If the method itself has no
readable name or descriptor, the comment has only the error. Classes are named by pool indices; the
root of all classes is never shown as a superclass, and the superinterfaces of an interface stand
behind `extends`.
-/

namespace JvmSource

/-- The parts of a class file that its text is made of. Classes are pool indices. -/
structure ClassFile where
  pool : Pool
  flags : Flags
  thisClass : UInt16
  /-- 0 for a class without a superclass. -/
  superClass : UInt16
  interfaces : List UInt16
  fields : List Member
  methods : List Member
  deriving DecidableEq

namespace ClassFile

/-- The internal name of the class. -/
def name (c : ClassFile) : Result String :=
  c.pool.className c.thisClass

/-- The internal name of the superclass, if there is one. -/
def superName (c : ClassFile) : Result (Option String) :=
  if c.superClass = 0 then .ok none
  else do return some (← c.pool.className c.superClass)

/-- The first method with the given name. Methods whose names are not in the pool are passed
over. -/
def method? (c : ClassFile) (name : String) : Option Member :=
  c.methods.find? fun method =>
    match c.pool.utf8 method.name with
    | .ok found => found == name
    | .error _ => false

/-! ### The header -/

/-- Whether the class is an interface. -/
def isInterface (c : ClassFile) : Bool :=
  c.flags.has 0x0200

/-- The keyword for the kind of the class. An annotation is an interface as well, so it is looked
for first. -/
def kindKeyword (c : ClassFile) : String :=
  if c.flags.has 0x2000 then "@interface"
  else if c.isInterface then "interface"
  else if c.flags.has 0x4000 then "enum"
  else "class"

/-- The keywords of the class. An interface is not called abstract, although its flags say so. -/
def keywords (c : ClassFile) : List String :=
  c.flags.select [(0x0001, "public"), (0x0010, "final")]
    ++ (if c.flags.has 0x0400 && !c.isInterface then ["abstract"] else [])
    ++ [c.kindKeyword]

/-- The clause for the superclass; the root of all classes is not named, and neither is a superclass
that a class does not have. -/
def superClause (c : ClassFile) : Result (List String) := do
  match ← c.superName with
  | some name => return if name = "java/lang/Object" then [] else ["extends " ++ Name.display name]
  | none => return []

/-- The clause for the interfaces, if there are any. An interface extends them, a class implements
them. -/
def interfaceClause (c : ClassFile) : Result (List String) := do
  let names ← c.interfaces.mapM fun index => do return Name.display (← c.pool.className index)
  let keyword := if c.isInterface then "extends " else "implements "
  return if names.isEmpty then [] else [keyword ++ ", ".intercalate names]

/-- The header of the class: its keywords, its simple name and the two clauses. -/
def header (c : ClassFile) : Result String := do
  let name ← c.name
  let superclass ← c.superClause
  let interfaces ← c.interfaceClause
  return " ".intercalate (c.keywords ++ [Name.simple name] ++ superclass ++ interfaces)

/-! ### The members -/

/-- The line that declares a field. The type is read before the name is looked up. -/
def fieldText (c : ClassFile) (options : Options) (f : Member) : Result String := do
  let type ← Ty.ofDescriptor (← c.pool.utf8 f.descriptor)
  let name ← c.pool.utf8 f.name
  let declaration := type.display ++ " " ++ name ++ ";"
  return options.indent ++ " ".intercalate (f.flags.fieldKeywords ++ [declaration]) ++ "\n"

/-- One result for each method, in order; a single failure if the class has no name. -/
def methodTexts (c : ClassFile) (options : Options) : List (Result String) :=
  match c.name with
  | .ok name => c.methods.map fun method => method.methodText name c.pool options
  | .error e => [.error e]

/-- The text of the first method with the given name. Other methods of that name are not reached. -/
def methodNamed (c : ClassFile) (options : Options) (name : String) : Result String :=
  match c.method? name with
  | none => .error (.methodNotFound name)
  | some method => do method.methodText (← c.name) c.pool options

/-- The comment that stands for a method that fails: the method, if it is known, and the innermost
cause. -/
def failureComment : Error → String
  | .inMethod method cause =>
    "// Failed to decompile method: " ++ method ++ ": " ++ cause.root.message
  | e => "// Failed to decompile method: " ++ e.message

/-- The section of a method: an empty line, then its lines indented, each with a line feed behind
it. -/
def indentedSection (options : Options) (text : String) : String :=
  "\n" ++ String.join ((Text.lines text).map fun line => options.indent ++ line ++ "\n")

/-- The section of a method, shown or failed. If failing methods are not skipped, it fails as the
method does. -/
def methodSection (options : Options) : Result String → Result String
  | .ok text => .ok (indentedSection options text)
  | .error e =>
    if options.skipFailedMethods then .ok (indentedSection options (failureComment e)) else .error e

/-- The package, the header and the fields of the class. -/
def frontText (c : ClassFile) (options : Options) : Result String := do
  let name ← c.name
  let package := match Name.package? name with
    | some package => "package " ++ Name.dotted package ++ ";\n\n"
    | none => ""
  let header ← c.header
  let fields ← c.fields.mapM (c.fieldText options)
  return package ++ header ++ " \x7b\n" ++ String.join fields

/-- The text of the class. The front comes first, so its failure comes before that of any method. -/
def text (c : ClassFile) (options : Options) : Result String := do
  let front ← c.frontText options
  let sections ← (c.methodTexts options).mapM (methodSection options)
  return front ++ String.join sections ++ "\x7d\n"

end ClassFile

end JvmSource
