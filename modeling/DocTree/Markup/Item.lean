import DocTree.Value

/-!
Parsed markup: tags with attributes, and strings of several classes. Preformatted strings are
those that stand outside the text: comments, declarations, instructions and the like.
-/
namespace DocTree.Markup

inductive StringClass
  | text | script | stylesheet | template | rubyText | rubyParenthesis
  | comment | cdata | instruction | xmlInstruction | declaration | doctype
  deriving DecidableEq, Repr

namespace StringClass

def name : StringClass → String
  | text => "NavigableString"
  | script => "Script"
  | stylesheet => "Stylesheet"
  | template => "TemplateString"
  | rubyText => "RubyTextString"
  | rubyParenthesis => "RubyParenthesisString"
  | comment => "Comment"
  | cdata => "CData"
  | instruction => "ProcessingInstruction"
  | xmlInstruction => "XMLProcessingInstruction"
  | declaration => "Declaration"
  | doctype => "Doctype"

def all : List StringClass :=
  [text, script, stylesheet, template, rubyText, rubyParenthesis,
    comment, cdata, instruction, xmlInstruction, declaration, doctype]

def ofName? (s : String) : Option StringClass :=
  all.find? fun c => c.name = s

@[simp] theorem ofName?_name (c : StringClass) : ofName? c.name = some c := by
  cases c <;> rfl

def isPreformatted : StringClass → Bool
  | comment | cdata | instruction | xmlInstruction | declaration | doctype => true
  | _ => false

end StringClass

inductive Item
  | tag (name : Value) (attributes : Entries) (children : List Item)
  | string (cls : StringClass) (content : String)

/-- What holds items: a tag, or the document as a whole. -/
inductive Holder
  | document
  | tag (name : Value)

def Holder.name : Holder → Value
  | document => .str "[document]"
  | tag name => name

/-- A document or a single tag. -/
inductive Source
  | document (children : List Item)
  | tag (name : Value) (attributes : Entries) (children : List Item)

end DocTree.Markup
