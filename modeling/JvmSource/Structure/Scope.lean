import JvmSource.Structure.Order
import JvmSource.Text.Replace

/-!
# Scopes

Every jump of a method's text is a `break` out of a scope or a `continue` of a loop. A jump to an
item further on breaks out of a labelled scope that ends right before that item; a jump back must go
to the head of a loop it is in.

The items are visited in order with the scopes that are open, the innermost first. A scope knows
where it ends, so the list is ascending in where its scopes end. A new labelled scope goes outside
of all scopes that end before it, and then opens where the outermost of those opens.

The visit gives the labelled scopes and one jump for each item that has one. What a jump does to the
line it stands on is a matter of `Jump.rewrite` alone.

Loops are scopes as well. Their place is given by their items, so the visit has only to check it: a
loop must end before the scope that it opens in, and must be the innermost scope when it closes. A
labelled scope never fails to find its place, because its opening can be moved to the front.

The visit resolves the target of a block's last instruction once more (`Outline.visitBlock`), and
then asks for the label and the item of the target (`Outline.visitJump`, `Outline.structuredJump`).
Each of these has its error: a target that no instruction starts at or that has no label, and a jump
that cannot be structured. The jump that enters a `while` loop from above is not written at all,
since the loop begins with its condition anyway.
-/

namespace JvmSource

/-- What a scope is for: it is the target of some jumps ahead, or the body of a loop. -/
inductive ScopeKind where
  | label (label : Label)
  | loop (number : Nat) (loop : Loop)
  deriving DecidableEq

/-- A scope, by the items at which it opens and closes. A labelled scope closes before its last
item, a loop is closed by it. -/
structure Scope where
  kind : ScopeKind
  openAt : Nat
  closeAt : Nat
  deriving DecidableEq

namespace Scope

/-- Scopes that end later have larger keys. A labelled scope that ends where a loop does, ends
outside of the loop. -/
def key (scope : Scope) : Nat :=
  match scope.kind with
  | .label _ => 2 * scope.closeAt + 1
  | .loop .. => 2 * scope.closeAt

/-- The loop of a scope whose turns begin at an index. Only such a loop can be continued by a jump
there. -/
def loopWithHead? (index : Nat) (scope : Scope) : Option Loop :=
  match scope.kind with
  | .loop _ loop => if loop.head = index then some loop else none
  | .label _ => none

end Scope

/-- Opens a labelled scope for a jump from item `k` to item `q`, unless it is open already. The
scopes that end before it come to lie inside of it. -/
def openLabel (scopes : List Scope) (label : Label) (k q : Nat) : List Scope :=
  let scope : Scope := { kind := .label label, openAt := k, closeAt := q }
  let inner := scopes.takeWhile fun s => decide (s.key < scope.key)
  let outer := scopes.dropWhile fun s => decide (s.key < scope.key)
  if outer.head?.any (·.key == scope.key) then scopes
  else
    let openAt := (inner.getLast?.map (·.openAt)).getD k
    inner ++ { scope with openAt } :: outer

/-- How the jump at the end of a block is written. The condition of a branch stays as it is where
the line is kept. -/
inductive Jump where
  /-- Not at all: the jump leads to what stands behind it anyway. -/
  | omitted
  /-- As a `break` out of the scope with this label. -/
  | breakOut (label : Label)
  /-- As a `continue` of the loop with the label `loop`, for a jump to the label `target`. -/
  | continueLoop (target loop : Label)
  deriving DecidableEq

/-- The line of a jump in its final form; nothing if the jump is left out. The first `goto` to the
label in the line is replaced, wherever it stands. -/
def Jump.rewrite (text : String) : Jump → Option String
  | omitted => none
  | breakOut label => some (Text.replaceFirst text ("goto " ++ label.text) ("break " ++ label.text))
  | continueLoop target loop =>
    some (Text.replaceFirst text ("goto " ++ target.text) ("continue " ++ loop.text))

/-- The scopes of a method while its items are visited, and the jumps of the items. -/
structure Nesting where
  /-- The open scopes, the innermost first. -/
  opened : List Scope
  /-- The labelled scopes that have been closed. -/
  closed : List Scope
  /-- What the jump of each visited item becomes, if it has one. -/
  jumps : List (Option Jump)
  deriving DecidableEq

namespace Nesting

/-- Closes the labelled scopes that end before item `k`. They are the innermost ones. -/
def closeBefore (n : Nesting) (k : Nat) : Nesting :=
  let ends (s : Scope) : Bool := s.key == 2 * k + 1
  { n with opened := n.opened.dropWhile ends, closed := n.closed ++ n.opened.takeWhile ends }

/-- The lines of each block with its jump in its final form. Only the line of the last instruction
of a block is changed. -/
def rewriteLines (n : Nesting) (items : List Item) (lines : List (List (Option String))) :
    List (List (Option String)) :=
  (items.zip n.jumps).foldl (fun lines => fun
    | (.block number block, some jump) =>
      lines.modify number fun ls =>
        ls.modify (block.last - block.start) (·.bind fun text => jump.rewrite text)
    | _ => lines) lines

end Nesting

namespace Outline

/-- The label of a loop: that of its start, as the name of a loop. -/
def loopLabel (o : Outline) (loop : Loop) : Result Label :=
  match o.graph.label? loop.start with
  | some label => .ok label.asLoop
  | none => loop.unstructured

/-- Whether the instruction at an index is the jump that enters a `while` loop from above. Such a
jump is not shown: the loop begins with its condition anyway. -/
def isLoopEntry (o : Outline) (index : Nat) : Bool :=
  o.loops.any fun loop => loop.kind == .whileLoop && loop.start == index + 1

/-- The position of the block that starts at an index among some items; blocks that are not kept
have none. -/
def itemAt? (items : List Item) (index : Nat) : Option Nat :=
  lastPosition? (fun
    | .block _ block => block.start == index
    | _ => false) items

/-- The position at which a loop is closed. -/
def closeOf (items : List Item) (number : Nat) : Nat :=
  (lastPosition? (fun
    | .loopClose n _ => n == number
    | _ => false) items).getD 0

/-- What a jump from item `k` to the block at `target` becomes, and the open scopes after it. It
depends only on whether the block comes later or has been visited. -/
def structuredJump (o : Outline) (items : List Item) (scopes : List Scope) (k source target : Nat)
    (label : Label) : Result (List Scope × Jump) :=
  match itemAt? items target with
  | none => .error (.unstructuredBranch source target)
  | some q =>
    if k < q then .ok (openLabel scopes label k q, .breakOut label)
    else
      match scopes.findSome? (Scope.loopWithHead? target) with
      | none => .error (.unstructuredBranch source target)
      | some loop => do return (scopes, .continueLoop label (← o.loopLabel loop))

/-- What the jump from the block at item `k` to the instruction `target` becomes, and the open
scopes after it. A target without a label is an error. -/
def visitJump (o : Outline) (items : List Item) (scopes : List Scope) (k source target : Nat) :
    Result (List Scope × Option Jump) :=
  match o.graph.label? target with
  | none => .error (.branchTargetNotFound source target)
  | some label => do
    let (scopes, jump) ← o.structuredJump items scopes k source target label
    return (scopes, some jump)

/-- Visits the block at item `k`, given the open scopes: its jump becomes a `break` or a `continue`,
unless it enters a loop. A block that does not end in a branch has no jump. -/
def visitBlock (o : Outline) (items : List Item) (k : Nat) (block : Block) (scopes : List Scope) :
    Result (List Scope × Option Jump) :=
  if o.isLoopEntry block.last then .ok (scopes, some .omitted)
  else do
    match ← o.graph.resolve block.last with
    | none => return (scopes, none)
    | some target => o.visitJump items scopes k block.last target

/-- Visits item `k`, given the open scopes. A loop must end before the innermost open scope does,
and must be that scope when it is closed. -/
def visit (o : Outline) (items : List Item) (k : Nat) (item : Item) (scopes : List Scope) :
    Result (List Scope × Option Jump) :=
  match item with
  | .block _ block => o.visitBlock items k block scopes
  | .loopOpen number loop =>
    let scope : Scope :=
      { kind := .loop number loop, openAt := k, closeAt := closeOf items number }
    if scopes.head?.any fun top => decide (top.key < scope.key) then loop.unstructured
    else .ok (scope :: scopes, none)
  | .loopClose number loop =>
    match scopes with
    | { kind := .loop m _, .. } :: outer =>
      if m = number then .ok (outer, none) else loop.unstructured
    | _ => loop.unstructured
  | .loopExit .. => .ok (scopes, none)

/-- Visits some items, the first of which is item `k`. In front of each item the labelled scopes
that end there are closed. -/
def visitFrom (o : Outline) (items : List Item) : (k : Nat) → List Item → Nesting → Result Nesting
  | _, [], n => .ok n
  | k, item :: rest, n => do
    let n := n.closeBefore k
    let (opened, jump) ← o.visit items k item n.opened
    visitFrom o items (k + 1) rest { n with opened, jumps := n.jumps ++ [jump] }

/-- The scopes and the jumps of a method with the given items. Nothing is open in front of the first
one. -/
def nest (o : Outline) (items : List Item) : Result Nesting :=
  o.visitFrom items 0 items { opened := [], closed := [], jumps := [] }

end Outline

end JvmSource
