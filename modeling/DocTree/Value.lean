import DocTree.Binary64
import DocTree.Field

/-!
The values that fields hold and that trees are built from: plain data, sequences, mappings in
insertion order, and records, which are the points, positions and nodes themselves. A record has
an identity of its own, so that the same record met twice differs from two equal records; so has a
stream.
-/
namespace DocTree

abbrev Ident := Nat

mutual

/-- A `stream` is a sequence that can be read once. -/
inductive Value
  | null
  | bool (b : Bool)
  | int (n : Int)
  | float (x : Binary64)
  | str (s : String)
  | bytes (bs : List UInt8)
  | list (items : List Value)
  | tuple (items : List Value)
  | set (items : List Value)
  | stream (id : Ident) (items : List Value)
  | map (entries : List (Value × Value))
  | record (r : Record)

/-- The fields stand in the order of the form's schema; a field may be absent only from a record
that was assembled without checks. -/
structure Record where
  id : Ident
  form : Form
  fields : List (Field × Value)

end

abbrev Entries := List (Value × Value)

namespace Record

def get? (r : Record) (f : Field) : Option Value :=
  r.fields.lookup f

/-- The stored value; an absent field reads as null. -/
def get (r : Record) (f : Field) : Value :=
  (r.get? f).getD .null

end Record

namespace Value

def typeName : Value → String
  | null => "NoneType"
  | bool _ => "bool"
  | int _ => "int"
  | float _ => "float"
  | str _ => "str"
  | bytes _ => "bytes"
  | list _ => "list"
  | tuple _ => "tuple"
  | set _ => "set"
  | stream _ _ => "list_iterator"
  | map _ => "dict"
  | record r => r.form.name

def isNull : Value → Bool
  | null => true
  | _ => false

theorem isNull_iff {v : Value} : v.isNull ↔ v = null := by
  cases v <;> simp [isNull]

/-- The characters, byte values, members or keys of a value that can be gone through from either
end. -/
def items? : Value → Option (List Value)
  | str s => some (s.toList.map fun c => str c.toString)
  | bytes bs => some (bs.map fun b => int b.toNat)
  | list xs | tuple xs => some xs
  | map es => some (es.map Prod.fst)
  | _ => none

def items (v : Value) : List Value :=
  v.items?.getD []

@[simp] theorem items_list (xs : List Value) : (list xs).items = xs := rfl
@[simp] theorem items_tuple (xs : List Value) : (tuple xs).items = xs := rfl

/-- What going through a value yields, if one can go through it. Sets, streams and the labelled
fields of a record can be gone through forwards only. -/
def elements? : Value → Option (List Value)
  | set xs | stream _ xs => some xs
  | record r => some (r.fields.map fun (f, v) => tuple [str f.label, v])
  | v => v.items?

theorem elements?_of_items? {v : Value} {xs : List Value} (h : v.items? = some xs) :
    v.elements? = some xs := by
  cases v with
  | set | stream | record => cases h
  | _ => exact h

def node? : Value → Option Record
  | record r => if r.form.isNode then some r else none
  | _ => none

@[simp] theorem node?_record (r : Record) :
    (record r).node? = if r.form.isNode then some r else none := rfl

theorem node?_eq_some {v : Value} {r : Record} :
    v.node? = some r ↔ v = record r ∧ r.form.isNode := by
  cases v <;> simp [node?]
  constructor
  · rintro ⟨h, rfl⟩
    exact ⟨rfl, h⟩
  · rintro ⟨rfl, h⟩
    exact ⟨h, rfl⟩

def text? : Value → Option String
  | str s => some s
  | _ => none

def isText (v : Value) (s : String) : Bool :=
  match v with
  | str t => t = s
  | _ => false

@[simp] theorem isText_str (s t : String) : (str s).isText t = decide (s = t) := rfl

theorem isText_iff {v : Value} {s : String} : v.isText s ↔ v = str s := by
  cases v <;> simp [isText]

/-- Whether the value is numerically the given integer; a truth value counts as zero or one. -/
def isInteger (n : Int) : Value → Bool
  | bool b => n = if b then 1 else 0
  | int m => n = m
  | float x => x.toInt? = some n
  | _ => false

end Value

namespace Entries

def get? (es : Entries) (key : String) : Option Value :=
  (es.find? fun e => e.1.isText key).map Prod.snd

def contains (es : Entries) (key : String) : Bool :=
  (es.get? key).isSome

@[simp] theorem get?_nil (key : String) : get? [] key = none := rfl

theorem get?_cons (e : Value × Value) (es : Entries) (key : String) :
    get? (e :: es) key = if e.1.isText key then some e.2 else get? es key := by
  unfold get?
  rw [List.find?_cons]
  split <;> simp_all

theorem mem_of_get? {es : Entries} {key : String} {v : Value} (h : es.get? key = some v) :
    (.str key, v) ∈ es := by
  obtain ⟨e, he, rfl⟩ := Option.map_eq_some_iff.1 h
  have hk : e.1.isText key := by simpa using List.find?_some he
  rw [← Value.isText_iff.1 hk]
  exact List.mem_of_find?_eq_some he

theorem contains_of_get? {es : Entries} {key : String} {v : Value} (h : es.get? key = some v) :
    es.contains key := by
  rw [contains, h, Option.isSome_some]

theorem contains_eq_false_iff {es : Entries} {key : String} :
    es.contains key = false ↔ es.get? key = none := by
  rw [contains, Option.isSome_eq_false_iff, Option.isNone_iff_eq_none]

theorem contains_iff {es : Entries} {key : String} :
    es.contains key ↔ .str key ∈ es.map Prod.fst := by
  simp [contains, get?, Value.isText_iff]

end Entries

namespace Record

def isNode (r : Record) : Bool := r.form.isNode

def isBranch (r : Record) : Bool := r.form.shape = .branch

def isLeaf (r : Record) : Bool := r.form.shape = .leaf

def isBare (r : Record) : Bool := r.form.shape = .bare

def hasPosition (r : Record) : Bool := !(r.get .position).isNull

def hasMetadata (r : Record) : Bool := !(r.get .metadata).isNull

/-- The kind that the record carries, which only a checked node shares with its form. -/
def kind (r : Record) : Value := r.get .kind

def isContent (kinds : List String) (r : Record) : Bool :=
  r.form.family = .mdast && kinds.any r.kind.isText

def isBlockContent (r : Record) : Bool := r.isContent Form.blockKinds

def isPhrasingContent (r : Record) : Bool := r.isContent Form.phrasingKinds

def children (r : Record) : List Value :=
  if r.isBranch then (r.get .children).items else []

def childNodes (r : Record) : List Record :=
  r.children.filterMap Value.node?

end Record

end DocTree
