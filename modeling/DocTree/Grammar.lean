import DocTree.Load
import DocTree.WellFormed

/-!
The grammar of written trees: which plain data stands for a node of a family, said of the data
alone. Keys are those of the schema, each field under one of its spellings; values are of the
declared type and range without conversion; children are written nodes that may stand where they
stand.
-/
namespace DocTree

mutual

/-- Data as it is exchanged: numbers, texts, truth values, null, lists, and mappings whose keys
are distinct texts. -/
def Value.isPlain : Value → Bool
  | .null | .bool _ | .int _ | .float _ | .str _ => true
  | .list xs => plainItems xs
  | .map es => plainEntries es && (es.filterMap fun e => e.1.text?).eraseDups.length = es.length
  | _ => false

def plainItems : List Value → Bool
  | [] => true
  | x :: xs => x.isPlain && plainItems xs

def plainEntries : List (Value × Value) → Bool
  | [] => true
  | (.str _, x) :: es => x.isPlain && plainEntries es
  | _ => false

end

/-- The spellings under which written data may give a field; a type has one only. -/
def Field.spellings : Field → List String
  | .kind => ["type"]
  | f => f.keys

/-- What plain data a rule accepts for a field of a form; `place` says it of places. -/
def Rule.Accepts (form : Form) (place : Form → Entries → Prop) : Rule → Value → Prop
  | .place f, v => ∃ es, v = .map es ∧ place f es
  | .properties, v => v = .null ∨ ∃ es, v = .map es ∧ ∀ e ∈ es, e.2.IsProperty
  | .children, v => ∃ xs, v = .list xs
  | rule, v => rule.Stores form v

/-- The entries are those of a form's schema: every key spells a field, no field is spelt twice,
and every field has a value that its rule accepts, or a default. -/
structure Spells (place : Form → Entries → Prop) (form : Form) (es : Entries) : Prop where
  keys : ∀ e ∈ es, ∃ s ∈ form.specs, ∃ key ∈ s.field.spellings, e.1 = .str key
  once : ∀ s ∈ form.specs, ∀ key ∈ s.field.spellings, ∀ other ∈ s.field.spellings,
    es.contains key → es.contains other → key = other
  values : ∀ s ∈ form.specs, ∀ key ∈ s.field.spellings, ∀ v, es.get? key = some v →
    s.nullable ∧ v = .null ∨ s.rule.Accepts form place v
  required : ∀ s ∈ form.specs, s.isRequired → ∃ key ∈ s.field.spellings, es.contains key

def SpellsPoint (es : Entries) : Prop :=
  Spells (fun _ _ => False) .point es

def SpellsPlace (es : Entries) (p : Place) : Prop :=
  es.get? "line" = some (.int p.line) ∧ es.get? "column" = some (.int p.column) ∧
    (∀ o, p.offset? = some o ↔ es.get? "offset" = some (.int o))

def SpellsPosition (es : Entries) : Prop :=
  Spells (fun _ => SpellsPoint) .position es ∧
    ∀ start stop p q, es.get? "start" = some (.map start) → es.get? "end" = some (.map stop) →
      SpellsPlace start p → SpellsPlace stop q → p.Ordered q

def SpellsNode (form : Form) (es : Entries) : Prop :=
  Spells (fun _ => SpellsPosition) form es ∧
    (form = .list → es.get? "ordered" = some (.bool true) →
      ∀ n, es.get? "start" = some (.int n) → 0 ≤ n)

mutual

/-- `InGrammar forms form v` when `v` writes a node of the given form and its subtree. -/
inductive InGrammar (forms : Registry) : Form → Value → Prop
  | node {form : Form} {kind : String} {es : Entries} :
    es.get? "type" = some (.str kind) → forms.find? kind = some form → SpellsNode form es →
    es.get? "children" = none → InGrammar forms form (.map es)
  | branch {form : Form} {kind : String} {es : Entries} {xs : List Value} :
    es.get? "type" = some (.str kind) → forms.find? kind = some form → SpellsNode form es →
    es.get? "children" = some (.list xs) → ItemsInGrammar forms form xs →
    InGrammar forms form (.map es)

inductive ItemsInGrammar (forms : Registry) : Form → List Value → Prop
  | nil {holder : Form} : ItemsInGrammar forms holder []
  | cons {holder form : Form} {kind : String} {x : Value} {xs : List Value} :
    InGrammar forms form x → form.kind? = some kind → kind ∈ holder.allowedChildren →
    ItemsInGrammar forms holder xs → ItemsInGrammar forms holder (x :: xs)

end

end DocTree
