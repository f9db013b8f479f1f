/-!
# Class names

A class file spells a class by its internal name, the parts divided by slashes. These are the forms
in which such a name is shown: dotted, displayed (direct members of `java.lang` lose their package),
simple, and the package alone. Displayed array types end in one pair of brackets per dimension.

A displayed name is the text of a type everywhere in a method: in headers, in declarations and in
casts. It is text from then on, so the element type of an array is found by taking a pair of
brackets off its displayed type (`Name.element?`), not by looking at a type. The package and the
simple name appear only at the front of a class.
-/

namespace JvmSource

namespace Name

/-- The internal name with dots between its parts. Nothing else changes: a dollar sign between an
outer and an inner class stays. -/
def dotted (name : String) : String :=
  String.ofList (name.toList.map fun c => if c = '/' then '.' else c)

/-- The dotted name, except that a direct member of `java.lang` is shown by its simple name. A class
in a package below `java.lang` keeps the whole name. -/
def display (name : String) : String :=
  match "java/lang/".toList.isPrefixOf? name.toList with
  | some rest => if rest.contains '/' then dotted name else String.ofList rest
  | none => dotted name

/-- The part after the last slash; the whole name if there is no slash. -/
def simple (name : String) : String :=
  String.ofList (name.toList.reverse.takeWhile (· ≠ '/')).reverse

/-- The part before the last slash, if there is a slash. A class without one is in no package. -/
def package? (name : String) : Option String :=
  match name.toList.reverse.dropWhile (· ≠ '/') with
  | [] => none
  | _ :: front => some (String.ofList front.reverse)

/-- The element type of a displayed array type: `int[][]` gives `int[]`. A type that does not end in
a pair of brackets is no array type. -/
def element? (type : String) : Option String :=
  ("[]".toList.isSuffixOf? type.toList).map String.ofList

end Name

end JvmSource
