import DocTree.Containment
import DocTree.Notice
import DocTree.Order

/-!
The audit of a whole tree, however it was assembled. Nodes are visited in document order with an
explicit stack. At each node the tests are: whether it was met before, whether its position is in
order, and whether each child may stand under it.
-/
namespace DocTree

namespace Record

def contents (r : Record) : List Value :=
  if r.isBranch then (r.get .children).elements?.getD [] else []

/-- Checks the children of a branch, which have to be such that one can go through them from either
end. -/
def checkContents (r : Record) : Except Violation Unit :=
  if r.isBranch then do
    let children ← (Value.record r).attribute .children
    if children.elements?.isNone then throw (.breakdown (.notIterable children))
    else do
      checkChildren r.form r.contents
      if children.items?.isNone then throw (.breakdown (.notReversible children))
  else .ok ()

def checkPosition (r : Record) : Except Violation Unit :=
  if r.hasPosition then checkOrder (r.get .position) else .ok ()

/-- All the tests at one node, given the identities met before. -/
def inspect (seen : List Ident) (r : Record) : Except Violation Unit :=
  if r.id ∈ seen then do
    let kind ← (Value.record r).attribute .kind
    throw (.sharedNode kind)
  else do
    r.checkPosition
    r.checkContents

/-- Visits the nodes of a stack, given the identities met so far, and counts the nodes met. -/
def auditFrom (seen : List Ident) : List Record → Except Violation Nat
  | [] => .ok seen.length
  | r :: stack =>
    match r.inspect seen with
    | .error v => .error v
    | .ok () => auditFrom (r.id :: seen) (r.childNodes ++ stack)
termination_by stack => (stack.flatMap preorder).length
decreasing_by exact length_preorder_childNodes_lt r stack

def audit (r : Record) : Except Violation Nat :=
  auditFrom [] [r]

def auditReport (r : Record) : Except Violation (Nat × List Notice) :=
  r.audit.map fun n => (n, [.audited r.form.family n])

end Record

end DocTree
