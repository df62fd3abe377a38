import DocTree.Violation

/-!
The properties of an element: a mapping from names to truth values, numbers, texts, null, or
lists of numbers and texts.
-/
namespace DocTree

def Value.isScalar : Value → Bool
  | .null | .bool _ | .int _ | .float _ | .str _ => true
  | _ => false

/-- Truth values are no members of a list. -/
def Value.isListMember : Value → Bool
  | .int _ | .float _ | .str _ => true
  | _ => false

/-- The stored form of a property value, if it is one; a tuple is stored as a list. -/
def Value.property? (v : Value) : Option Value :=
  match v with
  | .list xs | .tuple xs => if xs.all isListMember then some (.list xs) else none
  | v => if v.isScalar then some v else none

/-- A property's name is looked at before its value. -/
def checkProperty : Value × Value → Except Violation (Value × Value)
  | (.str name, v) =>
    match v.property? with
    | some stored => .ok (.str name, stored)
    | none => .error (.propertyValue name v)
  | (name, _) => .error (.propertyName name)

/-- The properties of an element, in the order given; null stands for none. -/
def gatherProperties : Value → Except Violation Value
  | .null => .ok (.map [])
  | .map es => (es.mapM checkProperty).map .map
  | v => .error (.propertiesNotMapping v)

end DocTree
