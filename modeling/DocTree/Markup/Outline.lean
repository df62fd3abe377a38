import DocTree.Markup.Convert

/-!
The outline of markup: what of it a tree keeps, and what is reported as dropped, said without
building a node. `Record.outline` gives the outline of a finished tree.
-/
namespace DocTree

namespace Markup

inductive Outline
  | element (name : Value) (attributes : Value) (children : List Outline)
  | text (content : Value)
  | comment (content : Value)
  | doctype (name publicId systemId : Value)

/-- What a string leaves in the outline; a document type declaration counts directly under the
document only. -/
def outlineString (keepBlank : Bool) (holder : Holder) (cls : StringClass) (content : String) :
    List Outline :=
  match cls, holder with
  | .doctype, .document =>
    let d := Doctype.read content
    [.doctype (.str d.name) (optionalText d.publicId?) (optionalText d.systemId?)]
  | .comment, _ => [.comment (.str content)]
  | cls, _ =>
    if cls.isPreformatted || !keepBlank && Text.isBlankText content then []
    else [.text (.str content)]

mutual

def outlineItem (keepBlank : Bool) (holder : Holder) : Item → List Outline
  | .tag name attributes children =>
    [.element name (.map attributes) (outlineItems keepBlank (.tag name) children)]
  | .string cls content => outlineString keepBlank holder cls content

def outlineItems (keepBlank : Bool) (holder : Holder) : List Item → List Outline
  | [] => []
  | item :: rest => outlineItem keepBlank holder item ++ outlineItems keepBlank holder rest

end

mutual

/-- The notices about an item: one for each preformatted string that is neither a comment nor the
document's type declaration. -/
def noticesOfItem (holder : Holder) : Item → List Notice
  | .tag name _ children => noticesOfItems (.tag name) children
  | .string cls _ =>
    match cls, holder with
    | .doctype, .document | .comment, _ => []
    | cls, holder => if cls.isPreformatted then [.dropped cls.name holder.name] else []

def noticesOfItems (holder : Holder) : List Item → List Notice
  | [] => []
  | item :: rest => noticesOfItem holder item ++ noticesOfItems holder rest

end

mutual

def stringsOfItem : Item → List String
  | .tag _ _ children => stringsOfItems children
  | .string cls content => if cls.isPreformatted && cls ≠ .comment then [] else [content]

def stringsOfItems : List Item → List String
  | [] => []
  | item :: rest => stringsOfItem item ++ stringsOfItems rest

end

end Markup

open Markup

mutual

/-- The outline of a hast node below the top. -/
def Record.outline : Record → Outline
  | ⟨_, .element, fields⟩ =>
    .element ((fields.lookup .tagName).getD .null) ((fields.lookup .properties).getD .null)
      (outlineFields fields)
  | ⟨_, .comment, fields⟩ => .comment ((fields.lookup .value).getD .null)
  | ⟨_, .doctype, fields⟩ =>
    .doctype ((fields.lookup .name).getD .null) ((fields.lookup .publicId).getD .null)
      ((fields.lookup .systemId).getD .null)
  | ⟨_, _, fields⟩ => .text ((fields.lookup .value).getD .null)

def outlineFields : List (Field × Value) → List Outline
  | [] => []
  | (.children, .list xs) :: _
  | (.children, .tuple xs) :: _ => outlineChildren xs
  | _ :: rest => outlineFields rest

def outlineChildren : List Value → List Outline
  | [] => []
  | .record r :: rest => r.outline :: outlineChildren rest
  | _ :: rest => outlineChildren rest

end

end DocTree
