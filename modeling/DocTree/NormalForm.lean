import DocTree.Load

/-!
The normal form of written trees, computed from the data alone: aliases as keys in schema order,
no null for a nullable field, defaults filled in.
-/
namespace DocTree

def normalPlace (place : Value → Value) (form : Form) (es : Entries) : Entries :=
  form.specs.filterMap fun s =>
    (es.get? s.field.label).bind fun v =>
      if s.nullable && v.isNull then none else some (.str s.field.label, place v)

def normalPoint : Value → Value
  | .map es => .map (normalPlace (fun v => v) .point es)
  | v => v

def normalPosition : Value → Value
  | .map es => .map (normalPlace normalPoint .position es)
  | v => v

def Rule.normal : Rule → Value → Value
  | .place _, v => normalPosition v
  | .properties, .null => .map []
  | _, v => v

/-- The entries of a node in normal form; a required field that is absent stays so. -/
def normalFields (form : Form) (es : Entries) : Entries :=
  form.specs.filterMap fun s =>
    match s.field.keys.findSome? es.get? with
    | some v => if s.nullable && v.isNull then none else some (.str s.field.key, s.rule.normal v)
    | none =>
      match s.default? with
      | some .null | none => none
      | some (.tuple xs) => some (.str s.field.key, .list xs)
      | some v => some (.str s.field.key, v)

mutual

def normalForm (forms : Registry) : Value → Value
  | .map es =>
    match forms.resolve? ((Entries.get? es "type").getD .null) with
    | none => .map es
    | some form => .map (normalFields form (normalChildren forms es))
  | v => v

def normalChildren (forms : Registry) : List (Value × Value) → List (Value × Value)
  | [] => []
  | (.str "children", .list xs) :: rest => (.str "children", .list (normalItems forms xs)) :: rest
  | e :: rest => e :: normalChildren forms rest

def normalItems (forms : Registry) : List Value → List Value
  | [] => []
  | x :: xs => normalForm forms x :: normalItems forms xs

end

end DocTree
