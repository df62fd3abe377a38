import DocTree.Tree.Ancestry

/-!
The paths of a tree: the lists of child indexes that lead from the top to a node. They stand in
lexicographic order, a node before its descendants, which is the order of the walk. Main
statement: `preorder_eq_filterMap_paths`.
-/
namespace DocTree

mutual

def Record.paths : Record → List (List Nat)
  | ⟨_, form, fields⟩ => [] :: if form.shape = .branch then pathsOfFields fields else []

def pathsOfFields : List (Field × Value) → List (List Nat)
  | [] => []
  | (.children, .list xs) :: _ => pathsOfItems 0 xs
  | (.children, .tuple xs) :: _ => pathsOfItems 0 xs
  | (.children, .map es) :: _ => pathsOfKeys 0 es
  | (.children, _) :: _ => []
  | _ :: rest => pathsOfFields rest

/-- The paths through the items of a list whose first item has the given index. -/
def pathsOfItems (index : Nat) : List Value → List (List Nat)
  | [] => []
  | .record r :: rest =>
    (if r.form.isNode then r.paths.map (index :: ·) else []) ++ pathsOfItems (index + 1) rest
  | _ :: rest => pathsOfItems (index + 1) rest

def pathsOfKeys (index : Nat) : List (Value × Value) → List (List Nat)
  | [] => []
  | (.record r, _) :: rest =>
    (if r.form.isNode then r.paths.map (index :: ·) else []) ++ pathsOfKeys (index + 1) rest
  | _ :: rest => pathsOfKeys (index + 1) rest

end

theorem pathsOfKeys_eq (index : Nat) (es : List (Value × Value)) :
    pathsOfKeys index es = pathsOfItems index (es.map Prod.fst) := by
  induction es generalizing index with
  | nil => simp [pathsOfKeys, pathsOfItems]
  | cons e es ih =>
    obtain ⟨k, v⟩ := e
    cases k <;> simp [pathsOfKeys, pathsOfItems, ih]

theorem pathsOfItems_eq_nil (index : Nat) {xs : List Value} (h : ∀ x ∈ xs, x.node? = none) :
    pathsOfItems index xs = [] := by
  induction xs generalizing index with
  | nil => simp [pathsOfItems]
  | cons x xs ih =>
    obtain ⟨hx, hrest⟩ := List.forall_mem_cons.1 h
    cases x with
    | record r =>
      have hn : ¬ r.form.isNode := by simpa using hx
      simp [pathsOfItems, hn, ih (index + 1) hrest]
    | _ => simpa [pathsOfItems] using ih (index + 1) hrest

theorem pathsOfFields_eq (fields : List (Field × Value)) :
    pathsOfFields fields = pathsOfItems 0 ((fields.lookup .children).getD .null).items := by
  induction fields with
  | nil => simp [pathsOfFields, Value.items, Value.items?, pathsOfItems]
  | cons p rest ih =>
    obtain ⟨f, v⟩ := p
    by_cases h : f = .children
    · subst h
      cases v with
      | list | tuple => simp [pathsOfFields]
      | map es => simp [pathsOfFields, pathsOfKeys_eq, Value.items, Value.items?]
      | str | bytes =>
        simp only [pathsOfFields]
        exact (pathsOfItems_eq_nil 0 (by simp [Value.items, Value.items?, Value.node?])).symm
      | _ => simp [pathsOfFields, Value.items, Value.items?, pathsOfItems]
    · have hb : (Field.children == f) = false := by simpa using fun e => h e.symm
      rw [List.lookup_cons, hb, ← ih]
      cases f <;> simp_all [pathsOfFields]

namespace Record

theorem paths_eq (r : Record) : r.paths = [] :: pathsOfItems 0 r.children := by
  obtain ⟨id, form, fields⟩ := r
  simp only [paths, children, isBranch, get, get?, pathsOfFields_eq, decide_eq_true_eq]
  split <;> simp [pathsOfItems]

@[simp] theorem descendant?_nil (r : Record) : r.descendant? [] = some r := rfl

theorem descendant?_cons (r : Record) (i : Nat) (path : List Nat) :
    r.descendant? (i :: path) =
      (r.children[i]?.bind Value.node?).bind fun child => child.descendant? path := by
  simp only [descendant?]
  cases r.children[i]?.bind Value.node? <;> rfl

theorem descendant?_cons_eq_some_iff {r n : Record} {i : Nat} {path : List Nat} :
    r.descendant? (i :: path) = some n ↔
      ∃ c, r.children[i]? = some (.record c) ∧ c.form.isNode ∧ c.descendant? path = some n := by
  rw [descendant?_cons]
  simp only [Option.bind_eq_some_iff, Value.node?_eq_some]
  constructor
  · rintro ⟨c, ⟨v, hv, rfl, hn⟩, hd⟩
    exact ⟨c, hv, hn, hd⟩
  · rintro ⟨c, hv, hn, hd⟩
    exact ⟨c, ⟨_, hv, rfl, hn⟩, hd⟩

theorem mem_childNodes_of_getElem? {r c : Record} {i : Nat}
    (hc : r.children[i]? = some (.record c)) (hn : c.form.isNode) : c ∈ r.childNodes :=
  List.mem_filterMap.2 ⟨_, List.mem_of_getElem? hc, Value.node?_eq_some.2 ⟨rfl, hn⟩⟩

theorem descendant?_append (r : Record) (path path' : List Nat) :
    r.descendant? (path ++ path') = (r.descendant? path).bind fun d => d.descendant? path' := by
  induction path generalizing r with
  | nil => rfl
  | cons i path ih =>
    rw [List.cons_append, descendant?_cons, descendant?_cons]
    cases r.children[i]?.bind Value.node? with
    | none => rfl
    | some c => exact ih c

theorem filterMap_pathsOfItems (r : Record) (done xs : List Value) (h : r.children = done ++ xs)
    (ih : ∀ c ∈ r.childNodes, c.paths.filterMap c.descendant? = c.preorder) :
    (pathsOfItems done.length xs).filterMap r.descendant? = preorderItems xs := by
  induction xs generalizing done with
  | nil => simp [pathsOfItems, preorderItems]
  | cons x xs rest =>
    have hrest := rest (done ++ [x]) (by simp [h])
    rw [List.length_append, List.length_singleton] at hrest
    cases x with
    | record c =>
      have hget : r.children[done.length]? = some (.record c) := by simp [h]
      simp only [pathsOfItems, preorderItems, List.filterMap_append, hrest]
      split
      · rename_i hc
        have hmem : c ∈ r.childNodes :=
          List.mem_filterMap.2 ⟨.record c, by simp [h], by simp [hc]⟩
        rw [List.filterMap_map, ← ih c hmem]
        congr 2
        funext path
        simp [descendant?_cons, hget, hc]
      · simp
    | _ => simpa [pathsOfItems, preorderItems] using hrest

theorem preorder_eq_filterMap_paths (r : Record) :
    r.preorder = r.paths.filterMap r.descendant? := by
  have h := filterMap_pathsOfItems r [] r.children rfl
    (fun c hc => (preorder_eq_filterMap_paths c).symm)
  rw [paths_eq, List.filterMap_cons_some (descendant?_nil r), ← List.length_nil, h,
    preorderItems_eq, preorder_eq]
  rfl
termination_by r.count
decreasing_by exact count_lt_of_mem_childNodes hc

end Record

end DocTree
