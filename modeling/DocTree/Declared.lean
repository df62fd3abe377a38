import DocTree.WellFormed

/-!
The properties of an element, said of the value that gives them, and the declared type by which what
is stored is checked once more. The type is a union of simple types and of lists of some of these. A
union prefers a type that a value has as it stands to one that the value is to be converted to.
-/
namespace DocTree

def Value.MayBeProperty (v : Value) : Prop :=
  v.IsProperty ∨ ∃ xs, v = .tuple xs ∧ (Value.list xs).IsProperty

def MayBeEntry (e : Value × Value) : Prop :=
  (∃ name, e.1 = .str name) ∧ e.2.MayBeProperty

def Value.MayBeProperties (v : Value) : Prop :=
  v = .null ∨ ∃ es, v = .map es ∧ ∀ e ∈ es, MayBeEntry e

/-- A property as it is stored: the name and the value are those given, but for a tuple, which has
become a list of the same members. -/
def StoredEntry (e f : Value × Value) : Prop :=
  f.1 = e.1 ∧ f.2.IsProperty ∧ (f.2 = e.2 ∨ ∃ xs, e.2 = .tuple xs ∧ f.2 = .list xs)

/-- What is wrong with a property. A name that is no text is named before the value is looked at. -/
inductive EntryFault : Value × Value → Violation → Prop
  | name {key v : Value} : (∀ s, key ≠ .str s) → EntryFault (key, v) (.propertyName key)
  | value {name : String} {v : Value} : ¬ v.MayBeProperty →
    EntryFault (.str name, v) (.propertyValue name v)

/-- Why a value does not give properties: it is no mapping, or else the first entry in its order
with which something is wrong. -/
inductive PropertiesFault : Value → Violation → Prop
  | notMapping {v : Value} : v ≠ .null → (∀ es, v ≠ .map es) →
    PropertiesFault v (.propertiesNotMapping v)
  | entry {good rest : Entries} {bad : Value × Value} {w : Violation} : (∀ e ∈ good, MayBeEntry e) →
    EntryFault bad w → PropertiesFault (.map (good ++ bad :: rest)) w

inductive SimpleType
  | truth | integer | number | text | null
  deriving DecidableEq, Repr

def SimpleType.holds : SimpleType → Value → Bool
  | truth, .bool _ | integer, .int _ | number, .float _ | text, .str _ | null, .null => true
  | _, _ => false

/-- A value as a type takes it, and whether it is taken as it stands. -/
structure Taken where
  value : Value
  exact : Bool

abbrev DeclaredType := Value → Option Taken

namespace DeclaredType

variable (convert : SimpleType → Value → Option Value)

/-- The values of a simple type, and those that can be converted to it. -/
def simple (t : SimpleType) : DeclaredType := fun v =>
  if t.holds v then some ⟨v, true⟩ else (convert t v).map fun w => ⟨w, false⟩

/-- The first of the types that takes a value as it stands, or else the first that takes it. -/
def union (types : List DeclaredType) : DeclaredType := fun v =>
  let taken := types.filterMap fun t => t v
  (taken.find? Taken.exact).or taken.head?

def listOf (t : DeclaredType) : DeclaredType
  | .list xs => (xs.mapM t).map fun ys => ⟨.list (ys.map Taken.value), ys.all Taken.exact⟩
  | _ => none

def property : DeclaredType :=
  union [simple convert .truth, simple convert .integer, simple convert .number,
    simple convert .text, simple convert .null,
    listOf (union [simple convert .text, simple convert .integer, simple convert .number])]

def pair? (e : Value × Value) : Option (Value × Value) :=
  e.1.text?.bind fun name => (property convert e.2).map fun taken => (.str name, taken.value)

def properties? : Value → Option Value
  | .map es => (es.mapM (pair? convert)).map .map
  | _ => none

end DeclaredType

end DocTree
