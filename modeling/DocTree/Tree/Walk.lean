import DocTree.Value

/-!
Document order. `walk` visits a tree with an explicit stack of nodes still to visit; `preorder`
is the same order by recursion, each node before its children from left to right. Main
statements: `walk_eq_preorder`, and `preorder_eq`, which unfolds the order at a node.
-/
namespace DocTree

mutual

def Record.preorder : Record → List Record
  | ⟨id, form, fields⟩ =>
    ⟨id, form, fields⟩ :: if form.shape = .branch then preorderFields fields else []

def preorderFields : List (Field × Value) → List Record
  | [] => []
  | (.children, .list xs) :: _ => preorderItems xs
  | (.children, .tuple xs) :: _ => preorderItems xs
  | (.children, .map es) :: _ => preorderKeys es
  | (.children, _) :: _ => []
  | _ :: rest => preorderFields rest

def preorderItems : List Value → List Record
  | [] => []
  | .record r :: rest => (if r.form.isNode then r.preorder else []) ++ preorderItems rest
  | _ :: rest => preorderItems rest

def preorderKeys : List (Value × Value) → List Record
  | [] => []
  | (.record r, _) :: rest => (if r.form.isNode then r.preorder else []) ++ preorderKeys rest
  | _ :: rest => preorderKeys rest

end

theorem preorderItems_eq (xs : List Value) :
    preorderItems xs = (xs.filterMap Value.node?).flatMap Record.preorder := by
  induction xs with
  | nil => simp [preorderItems]
  | cons x xs ih =>
    cases x with
    | record r => simp [preorderItems, Value.node?, ih, List.filterMap_cons]; split <;> simp
    | _ => simpa [preorderItems, List.filterMap_cons, Value.node?] using ih

theorem preorderKeys_eq (es : List (Value × Value)) :
    preorderKeys es = preorderItems (es.map Prod.fst) := by
  induction es with
  | nil => simp [preorderKeys, preorderItems]
  | cons e es ih =>
    obtain ⟨k, v⟩ := e
    cases k <;> simp [preorderKeys, preorderItems, ih]

theorem preorderItems_eq_nil {xs : List Value} (h : ∀ x ∈ xs, x.node? = none) :
    preorderItems xs = [] := by
  rw [preorderItems_eq, List.filterMap_eq_nil_iff.2 h, List.flatMap_nil]

theorem preorderFields_eq (fields : List (Field × Value)) :
    preorderFields fields =
      preorderItems ((fields.lookup .children).getD .null).items := by
  induction fields with
  | nil => simp [preorderFields, Value.items, Value.items?, preorderItems]
  | cons p rest ih =>
    obtain ⟨f, v⟩ := p
    by_cases h : f = .children
    · subst h
      cases v with
      | list | tuple => simp [preorderFields]
      | map es => simp [preorderFields, preorderKeys_eq, Value.items, Value.items?]
      | str | bytes =>
        simp only [preorderFields]
        exact (preorderItems_eq_nil (by simp [Value.items, Value.items?, Value.node?])).symm
      | _ => simp [preorderFields, Value.items, Value.items?, preorderItems]
    · have hb : (Field.children == f) = false := by simpa using fun e => h e.symm
      rw [List.lookup_cons, hb, ← ih]
      cases f <;> simp_all [preorderFields]

namespace Record

theorem preorder_eq (r : Record) : r.preorder = r :: r.childNodes.flatMap preorder := by
  obtain ⟨id, form, fields⟩ := r
  simp only [preorder, childNodes, children, isBranch, get, get?, preorderFields_eq,
    preorderItems_eq, decide_eq_true_eq]
  split <;> simp

/-- The number of places in the tree, a node counting once for each place it stands at. -/
def count (r : Record) : Nat := r.preorder.length

theorem count_eq (r : Record) : r.count = (r.childNodes.flatMap preorder).length + 1 := by
  rw [count, preorder_eq r, List.length_cons]

theorem length_preorder_childNodes_lt (r : Record) (stack : List Record) :
    ((r.childNodes ++ stack).flatMap preorder).length <
      ((r :: stack).flatMap preorder).length := by
  rw [List.flatMap_append, List.flatMap_cons, preorder_eq r, List.cons_append, List.length_cons]
  exact Nat.lt_succ_self _

/-- Visits the nodes of a stack, whose top is its first entry. -/
def walkFrom : List Record → List Record
  | [] => []
  | r :: stack => r :: walkFrom (r.childNodes ++ stack)
termination_by stack => (stack.flatMap preorder).length
decreasing_by exact length_preorder_childNodes_lt r stack

def walk (r : Record) : List Record :=
  walkFrom [r]

theorem walkFrom_eq_preorder (stack : List Record) :
    walkFrom stack = stack.flatMap preorder := by
  fun_induction walkFrom stack with
  | case1 => simp
  | case2 r stack ih => simp [ih, preorder_eq r]

theorem walk_eq_preorder (r : Record) : r.walk = r.preorder := by
  simp [walk, walkFrom_eq_preorder]

def text (r : Record) : String :=
  String.join (r.walk.filterMap fun x => if x.isLeaf then (x.get .value).text? else none)

/-- The node at a path of child indexes. -/
def descendant? (r : Record) : List Nat → Option Record
  | [] => some r
  | i :: path =>
    match r.children[i]?.bind Value.node? with
    | some child => child.descendant? path
    | none => none

end Record

end DocTree
