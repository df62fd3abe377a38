import DocTree.Containment
import DocTree.Order
import DocTree.Schema
import DocTree.Tree.Ancestry

/-!
Well-formed trees, said of the finished tree: every node's fields hold what the schema allows in
stored form, every edge joins a parent with a child of its family whose kind it may contain, and
no node stands at two places.
-/
namespace DocTree

def Place.InSource (p : Place) : Prop :=
  1 ≤ p.line ∧ 1 ≤ p.column ∧ ∀ o ∈ p.offset?, 0 ≤ o

namespace Value

/-- A stored point has a line, a column and an offset, and nothing else. -/
def IsPointAt (v : Value) (p : Place) : Prop :=
  (∃ id, v = record ⟨id, .point,
    [(.line, .int p.line), (.column, .int p.column), (.offset, p.offsetValue)]⟩) ∧ p.InSource

def IsPosition (v : Value) : Prop :=
  ∃ id first last start stop, v = record ⟨id, .position, [(.start, first), (.stop, last)]⟩ ∧
    first.IsPointAt start ∧ last.IsPointAt stop ∧ start.Ordered stop

inductive IsProperty : Value → Prop
  | null : IsProperty null
  | bool (b : Bool) : IsProperty (bool b)
  | int (n : Int) : IsProperty (int n)
  | float (x : Binary64) : IsProperty (float x)
  | str (s : String) : IsProperty (str s)
  | list {xs : List Value} :
    (∀ x ∈ xs, (∃ n, x = int n) ∨ (∃ y, x = float y) ∨ ∃ s, x = str s) → IsProperty (list xs)

end Value

/-- What a rule allows a field of a form to store. The edges to children are looked at apart. -/
def Rule.Stores (form : Form) : Rule → Value → Prop
  | .kind, v => ∃ kind, form.kind? = some kind ∧ v = .str kind
  | .text nonempty, v => ∃ s, v = .str s ∧ (nonempty → s ≠ "")
  | .integer least greatest, v =>
    ∃ n, v = .int n ∧ (∀ b ∈ least, b ≤ n) ∧ ∀ b ∈ greatest, n ≤ b
  | .flag, v => ∃ b, v = .bool b
  | .metadata, v => ∃ es, v = .map es ∧ ∀ e ∈ es, ∃ s, e.1 = .str s
  | .place .position, v => v.IsPosition
  | .place _, v => ∃ p, v.IsPointAt p
  | .children, v => ∃ xs, v = .tuple xs
  | .properties, v => ∃ es, v = .map es ∧ ∀ e ∈ es, (∃ s, e.1 = .str s) ∧ e.2.IsProperty

def FieldSpec.Stores (form : Form) (s : FieldSpec) (v : Value) : Prop :=
  s.nullable ∧ v = .null ∨ s.rule.Stores form v

namespace Record

/-- The node has exactly the fields of its schema, each with a value that it may store, and an
ordered list starts at no negative number. -/
structure Sound (r : Record) : Prop where
  fields : r.fields.map Prod.fst = r.form.specs.map FieldSpec.field
  stores : ∀ s ∈ r.form.specs, s.Stores r.form (r.get s.field)
  start : r.form = .list → r.get .ordered = .bool true → ∀ n, r.get .start = .int n → 0 ≤ n

/-- A value that may stand under a node of the given form. -/
def FitsUnder (holder : Form) (v : Value) : Prop :=
  ∃ child kind, v = .record child ∧ child.form.isNode ∧ child.form.family = holder.family ∧
    child.kind = .str kind ∧ kind ∈ holder.allowedChildren

structure WellFormed (r : Record) : Prop where
  isNode : r.form.isNode
  sound : ∀ n ∈ r.preorder, n.Sound
  edges : ∀ n ∈ r.preorder, ∀ v ∈ n.children, FitsUnder n.form v
  distinct : (r.preorder.map id).Nodup

end Record

end DocTree
