import DocTree.Tree.Walk
import DocTree.Violation

/-!
What going through a tree meets, whatever is stored in it. Below a node that was checked this is
the walk; otherwise members that are no nodes are met too, and the visit comes to an end at children
that cannot be gone through from the last to the first.
-/
namespace DocTree

inductive Visit
  | met (v : Value)
  | stuck (cause : Breakdown)

mutual

def Record.visits : Record → List Visit
  | ⟨id, form, fields⟩ =>
    .met (.record ⟨id, form, fields⟩) ::
      if form.shape = .branch then visitsOfFields (.record ⟨id, form, fields⟩) fields else []

def visitsOfFields (owner : Value) : List (Field × Value) → List Visit
  | [] => [.stuck (.noAttribute owner Field.children.label)]
  | (.children, .list xs) :: _ => visitsOfItems xs
  | (.children, .tuple xs) :: _ => visitsOfItems xs
  | (.children, .map es) :: _ => visitsOfKeys es
  | (.children, .str s) :: _ => (Value.str s).items.map .met
  | (.children, .bytes bs) :: _ => (Value.bytes bs).items.map .met
  | (.children, v) :: _ => [.stuck (.notReversible v)]
  | _ :: rest => visitsOfFields owner rest

def visitsOfItems : List Value → List Visit
  | [] => []
  | .record r :: rest => r.visits ++ visitsOfItems rest
  | v :: rest => .met v :: visitsOfItems rest

def visitsOfKeys : List (Value × Value) → List Visit
  | [] => []
  | (.record r, _) :: rest => r.visits ++ visitsOfKeys rest
  | (v, _) :: rest => .met v :: visitsOfKeys rest

end

def Value.visits : Value → List Visit
  | .record r => r.visits
  | v => [.met v]

theorem visitsOfItems_eq (xs : List Value) : visitsOfItems xs = xs.flatMap Value.visits := by
  induction xs with
  | nil => simp [visitsOfItems]
  | cons x xs ih => cases x <;> simp [visitsOfItems, Value.visits, ih]

theorem visitsOfKeys_eq (es : List (Value × Value)) :
    visitsOfKeys es = (es.map Prod.fst).flatMap Value.visits := by
  induction es with
  | nil => simp [visitsOfKeys]
  | cons e es ih =>
    obtain ⟨k, v⟩ := e
    cases k <;> simp [visitsOfKeys, Value.visits, ih]

def Value.visitsBelow (children : Value) : List Visit :=
  match children.items? with
  | some xs => xs.flatMap visits
  | none => [.stuck (.notReversible children)]

theorem visitsOfFields_eq (owner : Value) (fields : List (Field × Value)) :
    visitsOfFields owner fields =
      match fields.lookup .children with
      | some v => v.visitsBelow
      | none => [.stuck (.noAttribute owner Field.children.label)] := by
  induction fields with
  | nil => simp [visitsOfFields]
  | cons p rest ih =>
    obtain ⟨f, v⟩ := p
    by_cases h : f = .children
    · subst h
      cases v <;>
        simp [visitsOfFields, visitsOfItems_eq, visitsOfKeys_eq, Value.visitsBelow, Value.items?,
          Value.items, Value.visits, List.flatMap_map, ← List.map_eq_flatMap]
    · have hb : (Field.children == f) = false := by simpa using fun e => h e.symm
      rw [List.lookup_cons, hb]
      refine Eq.trans ?_ ih
      cases f <;> simp_all [visitsOfFields]

namespace Record

def Reversible (r : Record) : Prop :=
  r.isBranch → ∃ v xs, r.get? .children = some v ∧ v.items? = some xs

theorem visits_eq (r : Record) :
    r.visits = .met (.record r) ::
      if r.isBranch then
        match r.get? .children with
        | some v => v.visitsBelow
        | none => [.stuck (.noAttribute (.record r) Field.children.label)]
      else [] := by
  obtain ⟨id, form, fields⟩ := r
  simp only [visits, isBranch, get?, visitsOfFields_eq, decide_eq_true_eq]

end Record

end DocTree
