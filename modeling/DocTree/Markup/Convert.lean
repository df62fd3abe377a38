import DocTree.Build
import DocTree.Markup.Doctype
import DocTree.Markup.Item
import DocTree.Notice

/-!
Markup as a tree of hast nodes. Tags become elements, comments become comments and other strings
texts; a document type declaration is kept directly under the document. Every other preformatted
string is dropped with a notice, and blank texts are dropped if they are not to be kept.
-/
namespace DocTree.Markup

abbrev Converted := List Value × List Notice

def optionalText : Option String → Value
  | some s => .str s
  | none => .null

def newDoctype (d : Doctype) : Build Record :=
  Form.doctype.new [(.str "name", .str d.name), (.str "public", optionalText d.publicId?),
    (.str "system", optionalText d.systemId?)]

def newLeaf (form : Form) (content : String) : Build Record :=
  form.new [(.str "value", .str content)]

def newElement (name : Value) (attributes : Entries) (children : List Value) : Build Record :=
  Form.element.new [(.str "tag_name", name), (.str "properties", .map attributes),
    (.str "children", .list children)]

def convertString (keepBlank : Bool) (holder : Holder) (cls : StringClass) (content : String) :
    Build Converted :=
  match cls, holder with
  | .doctype, .document => do
    let node ← newDoctype (Doctype.read content)
    return ([.record node], [])
  | .comment, _ => do
    let node ← newLeaf .comment content
    return ([.record node], [])
  | cls, holder =>
    if cls.isPreformatted then return ([], [.dropped cls.name holder.name])
    else if keepBlank || !Text.isBlankText content then do
      let node ← newLeaf .hastText content
      return ([.record node], [])
    else return ([], [])

mutual

/-- The children of a tag are converted before its element is built. -/
def convertItem (keepBlank : Bool) (holder : Holder) : Item → Build Converted
  | .tag name attributes children => do
    let inner ← convertItems keepBlank (.tag name) children
    let node ← newElement name attributes inner.1
    return ([.record node], inner.2)
  | .string cls content => convertString keepBlank holder cls content

def convertItems (keepBlank : Bool) (holder : Holder) : List Item → Build Converted
  | [] => return ([], [])
  | item :: rest => do
    let first ← convertItem keepBlank holder item
    let others ← convertItems keepBlank holder rest
    return (first.1 ++ others.1, first.2 ++ others.2)

end

def Source.convert (keepBlank : Bool) : Source → Build (Record × List Notice)
  | .document children => do
    let inner ← convertItems keepBlank .document children
    let root ← Form.hastRoot.new [(.str "children", .list inner.1)]
    return (root, inner.2)
  | .tag name attributes children => do
    let inner ← convertItems keepBlank (.tag name) children
    let element ← newElement name attributes inner.1
    return (element, inner.2)

end DocTree.Markup
