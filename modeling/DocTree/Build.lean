import DocTree.Check

/-!
Building records with identities of their own. The state of a build is the next unused identity;
a build that fails leaves no trace.
-/
namespace DocTree

abbrev Build := StateT Ident (Except Violation)

/-- Checks a value for a form, with a new identity at hand. -/
def create (form : Form) (v : Value) : Build Record :=
  fun next => (check form next v).map fun r => (r, next + 1)

def Form.new (form : Form) (es : Entries) : Build Record :=
  create form (.map es)

def Form.newUnchecked (form : Form) (es : Entries) : Build Record :=
  fun next => .ok (uncheckedRecord form next es, next + 1)

end DocTree
