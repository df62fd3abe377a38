/-!
The forms a record of a document tree can take: places in a source text, the capability forms
that only group other forms, and the concrete node forms of the two tree families. A node form
fixes the family, the shape, the kind discriminant and the kinds its children may have.
-/
namespace DocTree

/-- The families of trees; `unist` holds what the other two share. -/
inductive Family
  | unist | hast | mdast
  deriving DecidableEq, Repr

namespace Family

def name : Family → String
  | unist => "unist"
  | hast => "hast"
  | mdast => "mdast"

end Family

/-- A branch owns children, a leaf holds one string, a bare node has neither. -/
inductive Shape
  | branch | leaf | bare
  deriving DecidableEq, Repr

inductive Form
  | point | position
  | node | parent | literal
  | hastNode | hastRoot | element | hastText | comment | doctype
  | mdastNode | blockContainer | phrasingContainer
  | mdastRoot | paragraph | heading | thematicBreak | blockquote | list | listItem | code
  | mdastText | emphasis | strong | inlineCode | lineBreak | link | image
  deriving DecidableEq, Repr

namespace Form

def all : List Form :=
  [point, position, node, parent, literal,
    hastNode, hastRoot, element, hastText, comment, doctype,
    mdastNode, blockContainer, phrasingContainer,
    mdastRoot, paragraph, heading, thematicBreak, blockquote, list, listItem, code,
    mdastText, emphasis, strong, inlineCode, lineBreak, link, image]

theorem mem_all (f : Form) : f ∈ all := by cases f <;> decide

def isNode : Form → Bool
  | point | position => false
  | _ => true

def family : Form → Family
  | hastNode | hastRoot | element | hastText | comment | doctype => .hast
  | mdastNode | blockContainer | phrasingContainer | mdastRoot | paragraph | heading
  | thematicBreak | blockquote | list | listItem | code | mdastText | emphasis | strong
  | inlineCode | lineBreak | link | image => .mdast
  | _ => .unist

def shape : Form → Shape
  | parent | hastRoot | element | blockContainer | phrasingContainer | mdastRoot | paragraph
  | heading | blockquote | list | listItem | emphasis | strong | link => .branch
  | literal | hastText | comment | code | mdastText | inlineCode => .leaf
  | _ => .bare

/-- The discriminant written as a node's type; capability forms and places have none. -/
def kind? : Form → Option String
  | hastRoot | mdastRoot => some "root"
  | element => some "element"
  | hastText | mdastText => some "text"
  | comment => some "comment"
  | doctype => some "doctype"
  | paragraph => some "paragraph"
  | heading => some "heading"
  | thematicBreak => some "thematicBreak"
  | blockquote => some "blockquote"
  | list => some "list"
  | listItem => some "listItem"
  | code => some "code"
  | emphasis => some "emphasis"
  | strong => some "strong"
  | inlineCode => some "inlineCode"
  | lineBreak => some "break"
  | link => some "link"
  | image => some "image"
  | _ => none

def kindText (f : Form) : String :=
  f.kind?.getD "PydanticUndefined"

def name : Form → String
  | point => "Point"
  | position => "Position"
  | node => "Node"
  | parent => "Parent"
  | literal => "Literal"
  | hastNode => "HastNode"
  | hastRoot | mdastRoot => "Root"
  | element => "Element"
  | hastText | mdastText => "Text"
  | comment => "Comment"
  | doctype => "Doctype"
  | mdastNode => "MdastNode"
  | blockContainer => "_BlockContainer"
  | phrasingContainer => "_PhrasingContainer"
  | paragraph => "Paragraph"
  | heading => "Heading"
  | thematicBreak => "ThematicBreak"
  | blockquote => "Blockquote"
  | list => "List"
  | listItem => "ListItem"
  | code => "Code"
  | emphasis => "Emphasis"
  | strong => "Strong"
  | inlineCode => "InlineCode"
  | lineBreak => "Break"
  | link => "Link"
  | image => "Image"

def qualifiedName (f : Form) : String :=
  if f.isNode then f.family.name ++ "." ++ f.name else f.name

def ofQualifiedName? (s : String) : Option Form :=
  all.find? fun f => f.qualifiedName = s

@[simp] theorem ofQualifiedName?_qualifiedName (f : Form) :
    ofQualifiedName? f.qualifiedName = some f := by
  cases f <;> rfl

/-- `f.isA g` when every record of form `f` also counts as a `g`. -/
def isA (f : Form) : Form → Bool
  | node => f.isNode
  | parent => f.shape = .branch
  | literal => f.shape = .leaf
  | hastNode => f.family = .hast
  | mdastNode => f.family = .mdast
  | blockContainer =>
    f = blockContainer || f = mdastRoot || f = blockquote || f = listItem
  | phrasingContainer =>
    f = phrasingContainer || f = paragraph || f = heading || f = emphasis || f = strong || f = link
  | g => f = g

theorem isA_refl (f : Form) : f.isA f := by cases f <;> decide

/-- The mdast content that stands on lines of its own, by kind in alphabetical order. -/
def blockKinds : List String :=
  ["blockquote", "code", "heading", "list", "paragraph", "thematicBreak"]

/-- The mdast content that flows within a line, by kind in alphabetical order. -/
def phrasingKinds : List String :=
  ["break", "emphasis", "image", "inlineCode", "link", "strong", "text"]

/-- The kinds that may stand directly under a form, in alphabetical order. -/
def allowedChildren : Form → List String
  | hastRoot => ["comment", "doctype", "element", "text"]
  | element => ["comment", "element", "text"]
  | blockContainer | mdastRoot | blockquote | listItem => blockKinds
  | phrasingContainer | paragraph | heading | emphasis | strong | link => phrasingKinds
  | list => ["listItem"]
  | _ => []

end Form

end DocTree
