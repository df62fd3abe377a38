import DocTree.Html.Token

/-!
The items of a document from its tokens. Adjacent pieces of text form one string. An end tag
closes every element up to the innermost open one of its name and does nothing else if there is
none; other elements are closed by the end of the document, void elements and self-closing tags at
once.
-/
namespace DocTree.Html

open Markup

def isVoid (name : String) : Bool :=
  ["area", "base", "basefont", "bgsound", "br", "col", "command", "embed", "frame", "hr", "image",
    "img", "input", "isindex", "keygen", "link", "menuitem", "meta", "nextid", "param", "source",
    "spacer", "track", "wbr"].contains name

/-- Elements in which blank text is kept as it is written. -/
def keepsBlanks (name : String) : Bool :=
  name = "pre" || name = "textarea"

def isWordList (tag name : String) : Bool :=
  ["class", "accesskey", "dropzone"].contains name ||
    match tag with
    | "a" | "link" => name = "rel" || name = "rev"
    | "area" => name = "rel"
    | "td" | "th" => name = "headers"
    | "form" => name = "accept-charset"
    | "object" => name = "archive"
    | "icon" => name = "sizes"
    | "iframe" => name = "sandbox"
    | "output" => name = "for"
    | _ => false

def attributeEntry (tag : String) : String × List Char → Value × Value
  | (name, value) =>
    (.str name,
      if isWordList tag name then .list ((Text.words value).map fun w => .str (String.ofList w))
      else .str (String.ofList value))

/-- Adds an attribute; a repeated one keeps its place and takes the last value. -/
def putAttribute (attributes : List (String × List Char)) (a : String × List Char) :
    List (String × List Char) :=
  if attributes.any fun b => b.1 = a.1 then
    attributes.map fun b => if b.1 = a.1 then a else b
  else attributes ++ [a]

/-- An element that is still open; its items stand in reverse. -/
structure OpenElement where
  name : String
  attributes : Entries
  items : List Item

def OpenElement.item (e : OpenElement) : Item :=
  .tag (.str e.name) e.attributes e.items.reverse

/-- A document being read: the open elements from the innermost outwards, the finished items of
the document in reverse, and the pieces of text not yet finished in reverse. -/
structure Reading where
  opened : List OpenElement
  items : List Item
  pieces : List (List Char)

namespace Reading

def start : Reading := ⟨[], [], []⟩

def add (r : Reading) (item : Item) : Reading :=
  match r.opened with
  | [] => { r with items := item :: r.items }
  | e :: outer => { r with opened := { e with items := item :: e.items } :: outer }

/-- The blanks that a text of nothing else shrinks to a line break or a space of. -/
def isShrinkable (c : Char) : Bool :=
  c = ' ' || c = '\n' || c = '\t' || c = '\x0c' || c = '\r'

def shrink (s : List Char) : List Char :=
  if s.all isShrinkable then if '\n' ∈ s then ['\n'] else [' '] else s

def content (r : Reading) (s : List Char) : String :=
  String.ofList (if r.opened.any fun e => keepsBlanks e.name then s else shrink s)

def flush (r : Reading) : Reading :=
  match r.pieces with
  | [] => r
  | pieces =>
    { r with pieces := [] }.add (.string .text (r.content pieces.reverse.flatten))

def closeOne (r : Reading) : Reading :=
  match r.opened with
  | [] => r
  | e :: outer => { r with opened := outer }.add e.item

def closeTo (r : Reading) (name : String) : Reading :=
  let n := (r.opened.takeWhile fun e => e.name ≠ name).length
  if n < r.opened.length then Nat.repeat closeOne (n + 1) r else r

def step (r : Reading) : Token → Reading
  | .text s => { r with pieces := s :: r.pieces }
  | .string cls s =>
    let r := r.flush
    r.add (.string cls (r.content s))
  | .opening name attributes closed =>
    let r := r.flush
    let entries := (attributes.foldl putAttribute []).map (attributeEntry name)
    if closed || isVoid name then r.add (.tag (.str name) entries [])
    else { r with opened := ⟨name, entries, []⟩ :: r.opened }
  | .closing name => r.flush.closeTo name

def finish (r : Reading) : List Item :=
  let r := r.flush
  (Nat.repeat closeOne r.opened.length r).items.reverse

end Reading

def itemsOf (markup : String) : List Item :=
  ((Token.ofString markup).foldl Reading.step .start).finish

end DocTree.Html
