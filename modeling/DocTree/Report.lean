import DocTree.Check
import DocTree.WellFormed

/-!
What is reported of data that gives no node, said of the data alone. A fault of the structure, the
first one in schema order, is reported by itself, and so is a check of the structure that breaks off
at an unchecked record. Else the errors of the fields follow one another in schema order, with those
of the keys that give no field behind them; and only where there is none of either, that an ordered
list starts at a negative number.
-/
namespace DocTree

def Rule.isStructural : Rule → Bool
  | .place _ | .children | .properties => true
  | _ => false

def Entries.otherKeys (es : Entries) : List Value :=
  (es.map Prod.fst).filter fun key => key.text?.isNone

/-- The field errors of a value under a rule, none if the rule takes it. Of two bounds that are
broken the lower one is reported. -/
inductive Rule.Reports (form : Form) : Rule → Value → List FieldError → Prop
  | structural {rule : Rule} {v : Value} : rule.isStructural → Reports form rule v []
  | stored {rule : Rule} {v : Value} : ¬ rule.isStructural → rule.Stores form v →
    Reports form rule v []
  | wrongKind {v : Value} : v ≠ .str form.kindText →
    Reports form .kind v [⟨[], .wrongKind form.kindText⟩]
  | notText {nonempty : Bool} {v : Value} : (∀ s, v ≠ .str s) →
    Reports form (.text nonempty) v [⟨[], .notText⟩]
  | emptyText : Reports form (.text true) (.str "") [⟨[], .emptyText⟩]
  | notInteger {least greatest : Option Int} {v : Value} : (∀ n, v ≠ .int n) →
    Reports form (.integer least greatest) v [⟨[], .notInteger⟩]
  | below {greatest : Option Int} {n b : Int} : n < b →
    Reports form (.integer (some b) greatest) (.int n) [⟨[], .below b⟩]
  | above {least : Option Int} {n b : Int} : (∀ a ∈ least, a ≤ n) → b < n →
    Reports form (.integer least (some b)) (.int n) [⟨[], .above b⟩]
  | notFlag {v : Value} : (∀ b, v ≠ .bool b) → Reports form .flag v [⟨[], .notFlag⟩]
  | notMapping {v : Value} : (∀ es, v ≠ .map es) →
    Reports form .metadata v [⟨[], .notMapping⟩]
  | otherKeys {es : Entries} : es.otherKeys ≠ [] → Reports form .metadata (.map es)
    (es.otherKeys.map fun key => ⟨[key.step, .key "[key]"], .notText⟩)

/-- A fault of the structure below a field, or where the check of it breaks off. -/
def Rule.Breaks (form : Form) (place : Form → Value → Except Violation Record) :
    Rule → Value → Violation → Prop
  | .place f, v, w => place f v = .error w
  | .children, v, w => gatherChildren form v = .error w
  | .properties, v, w => gatherProperties v = .error w
  | _, _, _ => False

namespace FieldSpec

/-- The errors of one field. A value that stands for the absence of the field has none, and the
paths of the others start at the key that gives the field. -/
inductive Reports (form : Form) (es : Entries) (s : FieldSpec) : List FieldError → Prop
  | missing : s.field.find? es = none → s.default? = none →
    Reports form es s [⟨[.key s.field.key], .missing⟩]
  | default : s.field.find? es = none → s.default?.isSome → Reports form es s []
  | null {key : String} : s.field.find? es = some (key, .null) → s.nullable → Reports form es s []
  | given {key : String} {v : Value} {errors : List FieldError} :
    s.field.find? es = some (key, v) → ¬ (s.nullable ∧ v = .null) → s.rule.Reports form v errors →
    Reports form es s (errors.map fun e => ⟨.key key :: e.path, e.fault⟩)

def Breaks (form : Form) (place : Form → Value → Except Violation Record) (es : Entries)
    (s : FieldSpec) (w : Violation) : Prop :=
  ∃ key v, s.field.find? es = some (key, v) ∧ ¬ (s.nullable ∧ v = .null) ∧
    s.rule.Breaks form place v w

end FieldSpec

inductive FieldsReport (form : Form) (es : Entries) : List FieldSpec → List FieldError → Prop
  | nil : FieldsReport form es [] []
  | cons {s : FieldSpec} {specs : List FieldSpec} {first rest : List FieldError} :
    s.Reports form es first → FieldsReport form es specs rest →
    FieldsReport form es (s :: specs) (first ++ rest)

namespace Form

/-- Whether a key is the one under which some field is given. Of two keys that give a field, only
the preferred one is. -/
def knows (form : Form) (es : Entries) (key : Value) : Bool :=
  form.specs.any fun s => (s.field.find? es).any fun given => key.isText given.1

def strayErrors (form : Form) (es : Entries) : List FieldError :=
  (es.filter fun e => !form.knows es e.1).map fun e =>
    match e.1 with
    | .str name => ⟨[.key name], .unknownKey⟩
    | key => ⟨[key.step], .keyNotText⟩

def Reports (form : Form) (es : Entries) (errors : List FieldError) : Prop :=
  ∃ fields, FieldsReport form es form.specs fields ∧ errors = fields ++ form.strayErrors es

/-- The first fault of the structure: children where there can be none, and then the fields in
schema order. -/
inductive Breaks (form : Form) (place : Form → Value → Except Violation Record) (es : Entries) :
    Violation → Prop
  | childless : form.shape ≠ .branch → es.contains "children" →
    Breaks form place es (.childless form)
  | field {before after : List FieldSpec} {s : FieldSpec} {w : Violation} :
    ¬ (form.shape ≠ .branch ∧ es.contains "children") → form.specs = before ++ s :: after →
    (∀ t ∈ before, ∀ w', ¬ t.Breaks form place es w') → s.Breaks form place es w →
    Breaks form place es w

end Form

end DocTree
