import DocTree.Tree.Visit
import DocTree.Value.Equal

/-!
What may stand under a node. `checkChild` looks at one edge: the child's family and kind against
what the parent's form allows. `gatherChildren` accepts the children of a node about to be built:
every edge has to be allowed and no node may stand at two places below them.
-/
namespace DocTree

mutual

/-- The part of a value that keeps it from being looked up, if there is one: what can be changed
cannot be looked up, and neither can what holds it. -/
def Value.unhashable? : Value → Option Value
  | .list xs => some (.list xs)
  | .set xs => some (.set xs)
  | .map es => some (.map es)
  | .tuple xs => unhashableItem? xs
  | .record r => r.unhashable?
  | _ => none

def Record.unhashable? : Record → Option Value
  | ⟨_, _, fields⟩ => unhashableField? fields

def unhashableItem? : List Value → Option Value
  | [] => none
  | x :: xs => x.unhashable?.or (unhashableItem? xs)

def unhashableField? : List (Field × Value) → Option Value
  | [] => none
  | (_, x) :: fs => x.unhashable?.or (unhashableField? fs)

end

/-- Looks a value up among texts. A set is compared by its members, which can be looked up. -/
def Value.isAmong (texts : List String) : Value → Except Violation Bool
  | .set _ => .ok false
  | v =>
    match v.unhashable? with
    | some part => .error (.breakdown (.notHashable part))
    | none => .ok (texts.any v.isText)

@[simp] theorem Value.isAmong_str (texts : List String) (s : String) :
    (str s).isAmong texts = .ok (texts.any fun t => s = t) := rfl

def checkChild (holder : Form) (child : Value) : Except Violation Unit :=
  match child.node? with
  | none => .error (.childNotNode holder child)
  | some r => do
    let kind ← child.attribute .kind
    if r.form.family ≠ holder.family then throw (.foreignChild holder r.form.family kind)
    else if ← kind.isAmong holder.allowedChildren then return
    else throw (.forbiddenChild holder kind)

def checkChildren (holder : Form) (children : List Value) : Except Violation Unit :=
  children.forM (checkChild holder)

/-- Nothing may be met twice, given what was met before. -/
def checkVisits (form : Form) (seen : List Value) : List Visit → Except Violation Unit
  | [] => .ok ()
  | .stuck cause :: _ => .error (.breakdown cause)
  | .met v :: rest =>
    if seen.any v.isSame then do
      let kind ← v.attribute .kind
      throw (.repeatedNode form kind)
    else checkVisits form (v :: seen) rest

/-- The members of a value that can be gone through, texts and mappings excepted. -/
def Value.sequence? : Value → Option (List Value)
  | .str _ | .bytes _ | .map _ => none
  | v => v.elements?

theorem Value.elements?_of_sequence? {v : Value} {xs : List Value} (h : v.sequence? = some xs) :
    v.elements? = some xs := by
  cases v with
  | str | bytes | map => cases h
  | _ => exact h

/-- The children of a node of the given form, as a tuple of the same nodes. -/
def gatherChildren (form : Form) (v : Value) : Except Violation Value :=
  match v.sequence? with
  | none => .error (.childrenNotSequence form v)
  | some children => do
    checkChildren form children
    checkVisits form [] (visitsOfItems children)
    return .tuple children

end DocTree
