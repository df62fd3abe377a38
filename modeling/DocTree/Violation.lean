import DocTree.Value.Literal

/-!
The causes for which data is refused, and the text of each. Faults of single fields are collected
into one violation; a fault of the structure, of the properties or of a position's order is a
violation by itself. A check may also break off without a verdict, at what was stored without any
check.
-/
namespace DocTree

/-- The classes of failures. The last two are those of checks that break off. -/
inductive FaultClass
  | any | tree | shape | field | order | parse
  | wrongType | noAttribute
  deriving DecidableEq, Repr

namespace FaultClass

/-- The classes of the failures that are meant; each but the first is a special case of another. -/
def declared : List FaultClass := [any, tree, shape, field, order, parse]

/-- The class itself and the more general ones above it, the nearest first. -/
def lineage : FaultClass → List FaultClass
  | any => [any]
  | tree => [tree, any]
  | shape => [shape, tree, any]
  | field => [field, tree, any]
  | order => [order, tree, any]
  | parse => [parse, any]
  | wrongType => [wrongType]
  | noAttribute => [noAttribute]

end FaultClass

inductive Step
  | key (name : String)
  | index (n : Int)
  deriving DecidableEq, Repr

def Step.text : Step → String
  | key name => name
  | index n => toString n

inductive FieldFault
  | missing
  | unknownKey
  | keyNotText
  | wrongKind (kind : String)
  | notText
  | emptyText
  | notInteger
  | below (bound : Int)
  | above (bound : Int)
  | notFlag
  | notMapping
  | notRecord (form : Form)
  | frozen
  deriving DecidableEq, Repr

namespace FieldFault

def code : FieldFault → String
  | missing => "missing"
  | unknownKey => "extra_forbidden"
  | keyNotText => "invalid_key"
  | wrongKind _ => "literal_error"
  | notText => "string_type"
  | emptyText => "string_too_short"
  | notInteger => "int_type"
  | below _ => "greater_than_equal"
  | above _ => "less_than_equal"
  | notFlag => "bool_type"
  | notMapping => "dict_type"
  | notRecord _ => "model_type"
  | frozen => "frozen_instance"

def message : FieldFault → String
  | missing => "Field required"
  | unknownKey => "Extra inputs are not permitted"
  | keyNotText => "Keys should be strings"
  | wrongKind kind => s!"Input should be '{kind}'"
  | notText => "Input should be a valid string"
  | emptyText => "String should have at least 1 character"
  | notInteger => "Input should be a valid integer"
  | below bound => s!"Input should be greater than or equal to {bound}"
  | above bound => s!"Input should be less than or equal to {bound}"
  | notFlag => "Input should be a valid boolean"
  | notMapping => "Input should be a valid dictionary"
  | notRecord form => "Input should be a valid dictionary or instance of " ++ form.name
  | frozen => "Instance is frozen"

end FieldFault

structure FieldError where
  path : List Step
  fault : FieldFault
  deriving DecidableEq, Repr

namespace FieldError

/-- The path with dots between its steps; a path without text stands for the node itself. -/
def place (e : FieldError) : String :=
  let path := ".".intercalate (e.path.map Step.text)
  if path.isEmpty then "<node>" else path

def text (e : FieldError) : String :=
  e.place ++ ": " ++ e.fault.message

/-- Fields of a record cannot be assigned or removed. -/
def frozen (name : String) : FieldError :=
  ⟨[.key name], .frozen⟩

end FieldError

/-- Why a check breaks off: a value does not support what the check does with it. -/
inductive Breakdown
  | noAttribute (owner : Value) (name : String)
  | notOrdered (symbol : String) (left right : Value)
  | notHashable (v : Value)
  | notIterable (v : Value)
  | notReversible (v : Value)

namespace Breakdown

def faultClass : Breakdown → FaultClass
  | noAttribute .. => .noAttribute
  | _ => .wrongType

def message : Breakdown → String
  | noAttribute owner name => s!"'{owner.typeName}' object has no attribute '{name}'"
  | notOrdered symbol left right =>
    s!"'{symbol}' not supported between instances of '{left.typeName}' and '{right.typeName}'"
  | notHashable v => s!"unhashable type: '{v.typeName}'"
  | notIterable v => s!"'{v.typeName}' object is not iterable"
  | notReversible v => s!"'{v.typeName}' object is not reversible"

end Breakdown

abbrev Spot := Value × Value

def Spot.text (spot : Spot) : String :=
  spot.1.display ++ ":" ++ spot.2.display

inductive Violation
  | capability (form : Form)
  | childless (form : Form)
  | childrenNotSequence (form : Form) (got : Value)
  | childNotNode (holder : Form) (got : Value)
  | foreignChild (holder : Form) (family : Family) (kind : Value)
  | forbiddenChild (holder : Form) (kind : Value)
  | repeatedNode (holder : Form) (kind : Value)
  | sharedNode (kind : Value)
  | notMapping (family : String) (got : Value)
  | unknownType (family : String) (type : Value)
  | badFields (form : Form) (errors : List FieldError)
  | propertiesNotMapping (got : Value)
  | propertyName (name : Value)
  | propertyValue (name : String) (value : Value)
  | negativeStart (number : Value)
  | placeOrder (start stop : Spot)
  | offsetOrder (start stop : Value)
  | breakdown (cause : Breakdown)

namespace Violation

def faultClass : Violation → FaultClass
  | badFields .. | propertiesNotMapping _ | propertyName _ | propertyValue .. | negativeStart _ =>
    .field
  | placeOrder .. | offsetOrder .. => .order
  | breakdown cause => cause.faultClass
  | _ => .shape

def errors : Violation → List FieldError
  | badFields _ errors => errors
  | _ => []

def message : Violation → String
  | capability form => form.name ++ " is a shape capability, not a node kind"
  | childless form => s!"'{form.kindText}' nodes cannot have children"
  | childrenNotSequence form got =>
    s!"'{form.kindText}' children must be a sequence of nodes, got {got.typeName}"
  | childNotNode holder got => s!"'{holder.kindText}' children must be nodes, got {got.typeName}"
  | foreignChild holder family kind =>
    s!"'{holder.kindText}' ({holder.family.name}) cannot contain a {family.name} " ++
      s!"'{kind.display}' node"
  | forbiddenChild holder kind => s!"'{holder.kindText}' cannot contain '{kind.display}'"
  | repeatedNode holder kind =>
    s!"the same '{kind.display}' node appears twice under '{holder.kindText}'"
  | sharedNode kind => s!"'{kind.display}' node is shared by more than one parent"
  | notMapping family got => s!"expected a {family} node mapping, got {got.typeName}"
  | unknownType family type => s!"unknown {family} node type {type.literal}"
  | badFields form errors => form.name ++ ": " ++ "; ".intercalate (errors.map FieldError.text)
  | propertiesNotMapping got => s!"Element: properties must be a mapping, got {got.typeName}"
  | propertyName name => s!"Element: property name {name.literal} is not a string"
  | propertyValue name value =>
    s!"Element: property {Text.quoted name} has unsupported value {value.literal}"
  | negativeStart number =>
    s!"List: ordered list cannot start at negative index {number.display}"
  | placeOrder start stop =>
    s!"position ends at {stop.text} before it starts at {start.text}"
  | offsetOrder start stop =>
    s!"position end offset {stop.display} precedes start offset {start.display}"
  | breakdown cause => cause.message

end Violation

/-- What a value stores under the label of a field; only records have such attributes. -/
def Value.attribute (v : Value) (f : Field) : Except Violation Value :=
  match v with
  | .record r =>
    match r.get? f with
    | some stored => .ok stored
    | none => .error (.breakdown (.noAttribute v f.label))
  | _ => .error (.breakdown (.noAttribute v f.label))

theorem Value.attribute_of_get? {r : Record} {f : Field} {v : Value} (h : r.get? f = some v) :
    (record r).attribute f = .ok v := by
  simp [Value.attribute, h]

theorem Value.attribute_of_get?_none {r : Record} {f : Field} (h : r.get? f = none) :
    (record r).attribute f = .error (.breakdown (.noAttribute (.record r) f.label)) := by
  simp [Value.attribute, h]

end DocTree
