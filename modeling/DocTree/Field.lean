import DocTree.Form

/-!
The fields of points, positions and nodes. Every field has a label, under which a record shows
it; three fields have an alias, under which they are written out. A mapping may give a field
under either key, and the alias is looked at first.
-/
namespace DocTree

/-- `start` is the place where a node begins or the number of a list's first item. -/
inductive Field
  | line | column | offset
  | start | stop
  | kind | position | metadata | children | value
  | tagName | properties
  | name | publicId | systemId
  | depth
  | ordered | spread | checked
  | lang | info
  | url | title | alt
  deriving DecidableEq, Repr

namespace Field

def all : List Field :=
  [line, column, offset, start, stop, kind, position, metadata, children, value, tagName,
    properties, name, publicId, systemId, depth, ordered, spread, checked, lang, info, url, title,
    alt]

theorem mem_all (f : Field) : f ∈ all := by cases f <;> decide

def label : Field → String
  | line => "line"
  | column => "column"
  | offset => "offset"
  | start => "start"
  | stop => "end"
  | kind => "kind"
  | position => "position"
  | metadata => "metadata"
  | children => "children"
  | value => "value"
  | tagName => "tag_name"
  | properties => "properties"
  | name => "name"
  | publicId => "public"
  | systemId => "system"
  | depth => "depth"
  | ordered => "ordered"
  | spread => "spread"
  | checked => "checked"
  | lang => "lang"
  | info => "meta"
  | url => "url"
  | title => "title"
  | alt => "alt"

def alias? : Field → Option String
  | kind => some "type"
  | metadata => some "data"
  | tagName => some "tagName"
  | _ => none

/-- The key under which the field is written out, and under which its absence is reported. -/
def key (f : Field) : String :=
  f.alias?.getD f.label

/-- The keys that give the field in a mapping, the preferred one first. -/
def keys (f : Field) : List String :=
  f.alias?.toList ++ [f.label]

end Field

end DocTree
