import DocTree.Value.Literal

/-!
What the library reports besides its results.
-/
namespace DocTree

inductive Notice
  | audited (family : Family) (count : Nat)
  | dropped (markup : String) (holder : Value)

def Notice.text : Notice → String
  | audited family count => s!"Validated {family.name} tree with {count} nodes"
  | dropped markup holder => s!"Dropping {markup} node under <{holder.display}>"

end DocTree
