import JvmSource.Error
import JvmSource.Ty.Basic

/-!
# Descriptors

The spelling of types in a class file. A descriptor is one letter for a primitive type or void, `L`
name `;` for a class, and `[` before the descriptor of the elements for an array; an array of void
does not exist. A method descriptor holds the argument types between parentheses and the result type
after them.

Each form is here twice: `Ty.descriptor` and `MethodTy.descriptor` write it, and the functions that
end in a question mark read it. One descriptor is read off the front of a text (`Ty.parseFront?`),
and everything else is built on that: a whole text is a descriptor with nothing behind it
(`Ty.parse?`), a run of arguments is one descriptor after the other (`Ty.parseArguments?`), and
reading at a byte position skips the bytes in front of it (`Ty.parseAt?`).

Two of these have limits that the spelling does not show. The name of a class ends at the first
semicolon and must not be empty. The arguments of a method end at the first closing parenthesis,
also where that stands inside of a class name; such a method descriptor cannot be read, although
each of its types could be.

An unreadable text is reported as it is. The names of classes are not looked into: any characters
but a semicolon may stand in them.
-/

namespace JvmSource

namespace Ty

/-- The descriptor of a type. No two types that can be read have the same one. -/
def descriptor : Ty → List Char
  | int => ['I']
  | long => ['J']
  | float => ['F']
  | double => ['D']
  | byte => ['B']
  | char => ['C']
  | short => ['S']
  | boolean => ['Z']
  | void => ['V']
  | reference name => 'L' :: (name.toList ++ [';'])
  | array element => '[' :: element.descriptor

/-- The type that a single letter stands for, void included. Letters that are not in the list stand
for nothing. -/
def ofLetter? : Char → Option Ty
  | 'B' => some byte
  | 'C' => some char
  | 'D' => some double
  | 'F' => some float
  | 'I' => some int
  | 'J' => some long
  | 'S' => some short
  | 'Z' => some boolean
  | 'V' => some void
  | _ => none

/-- Reads one descriptor off the front of a text and returns what follows it. An array of void is
refused at every depth. -/
def parseFront? : List Char → Option (Ty × List Char)
  | [] => none
  | c :: cs =>
    if c = 'L' then
      match cs.takeWhile (· ≠ ';'), cs.dropWhile (· ≠ ';') with
      | n :: name, _ :: rest => some (reference (String.ofList (n :: name)), rest)
      | _, _ => none
    else if c = '[' then
      match parseFront? cs with
      | some (void, _) => none
      | some (element, rest) => some (array element, rest)
      | none => none
    else (ofLetter? c).map fun t => (t, cs)

/-- Reading a descriptor uses up at least one character. The recursion of `parseArguments?` rests on
this. -/
theorem length_lt_of_parseFront? {cs rest : List Char} {t : Ty}
    (h : parseFront? cs = some (t, rest)) : rest.length < cs.length := by
  induction cs generalizing t rest with
  | nil => simp [parseFront?] at h
  | cons c cs ih =>
    rw [parseFront?] at h
    split at h
    · split at h
      · next hd =>
        have hle : (cs.dropWhile (· ≠ ';')).length ≤ cs.length :=
          (List.dropWhile_sublist _).length_le
        simp only [Option.some.injEq, Prod.mk.injEq] at h
        simp only [hd, List.length_cons] at hle
        rw [← h.2, List.length_cons]
        omega
      · simp at h
    · split at h
      · split at h
        · simp at h
        · next hp =>
          simp only [Option.some.injEq, Prod.mk.injEq] at h
          rw [← h.2, List.length_cons]
          exact Nat.lt_succ_of_lt (ih hp)
        · simp at h
      · simp only [Option.map_eq_some_iff, Prod.mk.injEq] at h
        obtain ⟨_, _, _, rfl⟩ := h
        simp

/-- Reads a text that is one descriptor from end to end. `V` alone is one. -/
def parse? (cs : List Char) : Option Ty :=
  match parseFront? cs with
  | some (t, []) => some t
  | _ => none

/-- Reads a text that is a run of descriptors, none of them void. The empty text is the run of
none. -/
def parseArguments? (cs : List Char) : Option (List Ty) :=
  match cs with
  | [] => some []
  | c :: cs =>
    match _h : parseFront? (c :: cs) with
    | some (t, rest) => if t = void then none else (parseArguments? rest).map (t :: ·)
    | none => none
termination_by cs.length
decreasing_by exact length_lt_of_parseFront? ‹_›

/-- The type named by a field descriptor. The error cites the whole text. -/
def ofDescriptor (text : String) : Result Ty :=
  match parse? text.toList with
  | some t => .ok t
  | none => .error (.malformedDescriptor text)

/-- The type named by a class constant: array classes are spelled as descriptors, all others by
their internal name. The empty name is refused. -/
def ofClassName (name : String) : Result Ty :=
  match name.toList with
  | [] => .error (.malformedDescriptor name)
  | c :: _ => if c = '[' then ofDescriptor name else .ok (reference name)

/-! ### Descriptors at byte positions -/

/-- The number of bytes a text takes when it is encoded. A character takes one to four of them. -/
def byteLength (cs : List Char) : Nat :=
  cs.foldr (fun c n => c.utf8Size + n) 0

/-- What is left of a text behind its first `n` bytes, if a character ends there. -/
def dropBytes? (n : Nat) : List Char → Option (List Char)
  | [] => if n = 0 then some [] else none
  | c :: cs =>
    if n = 0 then some (c :: cs)
    else if c.utf8Size ≤ n then dropBytes? (n - c.utf8Size) cs
    else none

/-- Reads one descriptor at a byte position and returns the byte position behind it. The position
must be one at which a character starts, or the end of the text. -/
def parseAt? (text : String) (position : Nat) : Option (Ty × Nat) := do
  let cs ← dropBytes? position text.toList
  let (t, rest) ← parseFront? cs
  return (t, byteLength text.toList - byteLength rest)

end Ty

namespace MethodTy

/-- The descriptor of a method type: the arguments in parentheses without anything between them, and
the result. -/
def descriptor (t : MethodTy) : List Char :=
  '(' :: (t.arguments.flatMap Ty.descriptor ++ ')' :: t.result.descriptor)

/-- Reads a method descriptor. The first closing parenthesis ends the arguments, wherever it
stands. -/
def parse? : List Char → Option MethodTy
  | '(' :: cs =>
    match cs.dropWhile (· ≠ ')') with
    | [] => none
    | _ :: result => do
      let arguments ← Ty.parseArguments? (cs.takeWhile (· ≠ ')'))
      let result ← Ty.parse? result
      return { arguments, result }
  | _ => none

/-- The type named by a method descriptor. The error cites the whole text. -/
def ofDescriptor (text : String) : Result MethodTy :=
  match parse? text.toList with
  | some t => .ok t
  | none => .error (.malformedDescriptor text)

end MethodTy

end JvmSource
