import DocTree.Tree.Audit
import DocTree.WellFormed

/-!
What is wrong at a single node of a tree, given the nodes that stand before it in document order,
and what is wrong first in a tree. Nothing here goes through the audit: faults are said of the
edge, of the places of a position, and of the identities met before.
-/
namespace DocTree

def Value.BarredBy (v part : Value) : Prop :=
  (∀ members, v ≠ .set members) ∧ v.unhashable? = some part

/-- `EdgeFault holder child v` when `v` is why the child may not stand under the holder. The kind
of an unchecked node can be missing, or be such that it cannot be looked up. -/
inductive EdgeFault (holder : Form) : Value → Violation → Prop
  | notNode {child : Value} : child.node? = none →
    EdgeFault holder child (.childNotNode holder child)
  | nameless {r : Record} : r.form.isNode → r.get? .kind = none →
    EdgeFault holder (.record r) (.breakdown (.noAttribute (.record r) "kind"))
  | foreign {r : Record} {kind : Value} : r.form.isNode → r.get? .kind = some kind →
    r.form.family ≠ holder.family →
    EdgeFault holder (.record r) (.foreignChild holder r.form.family kind)
  | barred {r : Record} {kind part : Value} : r.form.isNode → r.get? .kind = some kind →
    r.form.family = holder.family → kind.BarredBy part →
    EdgeFault holder (.record r) (.breakdown (.notHashable part))
  | forbidden {r : Record} {kind : Value} : r.form.isNode → r.get? .kind = some kind →
    r.form.family = holder.family → (∀ part, ¬ kind.BarredBy part) →
    (∀ allowed ∈ holder.allowedChildren, kind ≠ .str allowed) →
    EdgeFault holder (.record r) (.forbiddenChild holder kind)

/-- The value is a position that leads from one point to another, which denote places. -/
def Value.Spans (v : Value) (start stop : Record) (p q : Place) : Prop :=
  ∃ r, v = .record r ∧ r.get .start = .record start ∧ r.get .stop = .record stop ∧
    Place.ofValue? (.record start) = some p ∧ Place.ofValue? (.record stop) = some q

def Value.InOrder (v : Value) : Prop :=
  v = .null ∨ ∃ start stop p q, v.Spans start stop p q ∧ p.Ordered q

/-- `OrderFault position v` when `v` is how the position runs backwards; lines and columns count
before offsets. -/
inductive OrderFault : Value → Violation → Prop
  | place {v : Value} {start stop : Record} {p q : Place} : v.Spans start stop p q →
    (q.line < p.line ∨ q.line = p.line ∧ q.column < p.column) →
    OrderFault v (.placeOrder (.int p.line, .int p.column) (.int q.line, .int q.column))
  | offset {v : Value} {start stop : Record} {p q : Place} {s e : Int} : v.Spans start stop p q →
    (p.line < q.line ∨ p.line = q.line ∧ p.column ≤ q.column) →
    p.offset? = some s → q.offset? = some e → e < s →
    OrderFault v (.offsetOrder (.int s) (.int e))

namespace Record

/-- `r.Offends before v` when `v` is the first thing wrong at `r`: that it was met before, then
its position, then its children from left to right. -/
inductive Offends (before : List Record) (r : Record) : Violation → Prop
  | shared {kind : Value} : (∃ x ∈ before, x.id = r.id) → r.get? .kind = some kind →
    Offends before r (.sharedNode kind)
  | sharedNameless : (∃ x ∈ before, x.id = r.id) → r.get? .kind = none →
    Offends before r (.breakdown (.noAttribute (.record r) "kind"))
  | order {v : Violation} : (∀ x ∈ before, x.id ≠ r.id) → OrderFault (r.get .position) v →
    Offends before r v
  | child {v : Violation} {good rest : List Value} {bad : Value} :
    (∀ x ∈ before, x.id ≠ r.id) → (r.get .position).InOrder → r.children = good ++ bad :: rest →
    (∀ c ∈ good, FitsUnder r.form c) → EdgeFault r.form bad v → Offends before r v

end Record

def Unoffending (nodes : List Record) : Prop :=
  ∀ before n after, nodes = before ++ n :: after → ∀ v, ¬ n.Offends before v

/-- `v` is what is wrong at the first of the nodes where anything is wrong. -/
def FirstOffence (nodes : List Record) (v : Violation) : Prop :=
  ∃ before n after, nodes = before ++ n :: after ∧ n.Offends before v ∧ Unoffending before

namespace Record

/-- A branch holds its children in a list or a tuple, and a position leads from one point to
another, with whole numbers. All else, such as kind, family, identity and what the children are, is
left open. -/
structure Inspectable (r : Record) : Prop where
  sequence : r.isBranch → ∃ xs, r.get .children = .list xs ∨ r.get .children = .tuple xs
  position : r.get .position = .null ∨ ∃ start stop p q, (r.get .position).Spans start stop p q

/-- The node stores a kind that can be looked up, such as a text. -/
def Named (r : Record) : Prop :=
  ∃ kind, r.get? .kind = some kind ∧ ∀ part, ¬ kind.BarredBy part

/-- Every child is a node that may stand where it stands, no position runs backwards, and no node
stands at two places. -/
structure Lawful (r : Record) : Prop where
  edges : ∀ n ∈ r.walk, ∀ v ∈ n.children, FitsUnder n.form v
  positions : ∀ n ∈ r.walk, (n.get .position).InOrder
  distinct : (r.walk.map id).Nodup

end Record

end DocTree
