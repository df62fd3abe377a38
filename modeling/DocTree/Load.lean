import DocTree.Build

/-!
Building trees from nested mappings. The type of a mapping is resolved first, then the entries of
its children are loaded in order, and then the node itself is checked. Entries that already are
nodes are kept.
-/
namespace DocTree

abbrev Registry := List Form

namespace Registry

/-- The last form of a kind stands for it. -/
def find? (forms : Registry) (kind : String) : Option Form :=
  forms.reverse.find? fun f => f.kind? = some kind

theorem mem_of_find? {forms : Registry} {kind : String} {f : Form}
    (h : forms.find? kind = some f) : f ∈ forms := by
  simpa using List.mem_of_find?_eq_some h

theorem kind_of_find? {forms : Registry} {kind : String} {f : Form}
    (h : forms.find? kind = some f) : f.kind? = some kind := by
  simpa using List.find?_some h

def resolve? (forms : Registry) (type : Value) : Option Form :=
  type.text?.bind forms.find?

def hast : Registry :=
  [.hastRoot, .element, .hastText, .comment, .doctype]

def mdast : Registry :=
  [.mdastRoot, .paragraph, .heading, .thematicBreak, .blockquote, .list, .listItem, .code,
    .mdastText, .emphasis, .strong, .inlineCode, .lineBreak, .link, .image]

def kinds (forms : Registry) : List (String × Form) :=
  ((forms.filterMap Form.kind?).eraseDups).filterMap fun kind => (forms.find? kind).map (kind, ·)

end Registry

mutual

/-- Builds a node and its subtree; `family` names the tree family in error texts. -/
def load (forms : Registry) (family : String) : Value → Build Record
  | .map es =>
    match forms.resolve? ((Entries.get? es "type").getD .null) with
    | none => throw (.unknownType family ((Entries.get? es "type").getD .null))
    | some form => do
      let loaded ← if form.shape = .branch then loadChildren forms family es else pure es
      create form (.map loaded)
  | v => throw (.notMapping family v)

/-- Loads what the entry for the children holds, if that is a list or a tuple. -/
def loadChildren (forms : Registry) (family : String) :
    List (Value × Value) → Build (List (Value × Value))
  | [] => pure []
  | (.str "children", .list xs) :: rest
  | (.str "children", .tuple xs) :: rest => do
    let nodes ← loadItems forms family xs
    return (.str "children", .list nodes) :: rest
  | e :: rest => do
    let loaded ← loadChildren forms family rest
    return e :: loaded

def loadItems (forms : Registry) (family : String) : List Value → Build (List Value)
  | [] => pure []
  | x :: rest => do
    let node ← match x.node? with
      | some r => pure r
      | none => load forms family x
    let nodes ← loadItems forms family rest
    return .record node :: nodes

end

def Family.registry : Family → Registry
  | .unist => []
  | .hast => .hast
  | .mdast => .mdast

def Family.decode (family : Family) (v : Value) : Build Record :=
  load family.registry family.name v

end DocTree
