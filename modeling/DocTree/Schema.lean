import DocTree.Value

/-!
What each form requires of its fields. A form's schema lists its fields in the order in which
they are checked, stored and written out.
-/
namespace DocTree

/-- What a field may hold. Values are never converted, except that the members of `children` and
`properties` are gathered into a tuple and a mapping, and a mapping may stand for a place. -/
inductive Rule
  | kind
  | text (nonempty : Bool)
  | integer (least greatest : Option Int)
  | flag
  | metadata
  | place (form : Form)
  | children
  | properties
  deriving DecidableEq, Repr

/-- A field without a default is required; a nullable field also accepts null. -/
structure FieldSpec where
  field : Field
  rule : Rule
  nullable : Bool
  default? : Option Value

namespace FieldSpec

def required (field : Field) (rule : Rule) : FieldSpec :=
  ⟨field, rule, false, none⟩

def optional (field : Field) (rule : Rule) : FieldSpec :=
  ⟨field, rule, true, some .null⟩

def defaulted (field : Field) (rule : Rule) (v : Value) : FieldSpec :=
  ⟨field, rule, false, some v⟩

def isRequired (s : FieldSpec) : Bool :=
  s.default?.isNone

/-- The default as the schema shows it; an empty mapping is made anew for each record and is not
part of the schema. -/
def shownDefault (s : FieldSpec) : Value :=
  match s.default? with
  | some (.map _) | none => .null
  | some v => v

end FieldSpec

namespace Form

open FieldSpec

def nodeSpecs (f : Form) : List FieldSpec :=
  [⟨.kind, .kind, false, f.kind?.map .str⟩, optional .position (.place .position),
    optional .metadata .metadata]

def shapeSpecs (f : Form) : List FieldSpec :=
  match f.shape with
  | .branch => [defaulted .children .children (.tuple [])]
  | .leaf => [required .value (.text false)]
  | .bare => []

def ownSpecs : Form → List FieldSpec
  | point => [required .line (.integer (some 1) none), required .column (.integer (some 1) none),
      optional .offset (.integer (some 0) none)]
  | position => [required .start (.place point), required .stop (.place point)]
  | element => [required .tagName (.text true), defaulted .properties .properties (.map [])]
  | doctype => [required .name (.text false), optional .publicId (.text false),
      optional .systemId (.text false)]
  | heading => [required .depth (.integer (some 1) (some 6))]
  | list => [defaulted .ordered .flag (.bool false), optional .start (.integer none none),
      defaulted .spread .flag (.bool false)]
  | listItem => [optional .checked .flag, defaulted .spread .flag (.bool false)]
  | code => [optional .lang (.text false), optional .info (.text false)]
  | link => [required .url (.text false), optional .title (.text false)]
  | image => [required .url (.text false), optional .title (.text false),
      optional .alt (.text false)]
  | _ => []

def specs (f : Form) : List FieldSpec :=
  if f.isNode then f.nodeSpecs ++ f.shapeSpecs ++ f.ownSpecs else f.ownSpecs

theorem nodup_fields (f : Form) : (f.specs.map FieldSpec.field).Nodup := by
  cases f <;> decide

end Form

end DocTree
