/-!
# Options

The choices a caller has about the text of methods and classes.

None of them decides what the instructions of a method mean. `indent` and `showIndices` are about
the look of a line. `useVariableTable` decides where the names of local variables come from: the
table that the compiler left, or the number of the slot. The other two decide what becomes of a
failure. With `recoverUnderflow` an instruction that finds too few values on the stack works on
placeholders instead; with `skipFailedMethods` a class is shown although one of its methods cannot
be, and a comment stands in the place of that method.

Every option has a default, the one that shows as much as possible.
-/

namespace JvmSource

/-- How methods and classes are shown. The defaults show as much as possible: indices, names, and
something for code that is not well formed. -/
structure Options where
  /-- The text of one level of indentation. -/
  indent : String := "\t"
  /-- Whether each line starts with the index of its instruction. -/
  showIndices : Bool := true
  /-- Whether an instruction that finds too few operands gets placeholders. -/
  recoverUnderflow : Bool := true
  /-- Whether names come from the local variable table. -/
  useVariableTable : Bool := true
  /-- Whether a class shows a method that fails as a comment. -/
  skipFailedMethods : Bool := true
  deriving DecidableEq

end JvmSource
