import Mathlib.Data.List.Nodup
import DocTree.Proofs.Adding

/-!
Nodes that stand at two places, as the construction of a node meets them. The children given to a
branch are refused for the first of them that may not stand there, or else for the first node that
is met again in document order; the other fields of the branch have no part in that. Main
statements: `firstRepeated?_eq_some_iff`, `gatherChildren_of_fits`, `exists_new_of_gather` and
`new_eq_error_of_gather`.
-/
namespace DocTree

/-- `n` is the first of the nodes whose identity one of the nodes before it has. -/
def FirstShared (nodes : List Record) (n : Record) : Prop :=
  ∃ before after, nodes = before ++ n :: after ∧ (before.map Record.id).Nodup ∧
    ∃ x ∈ before, x.id = n.id

section FirstRepeated

variable {seen seen' : List Ident} {nodes before : List Record} {n : Record}

theorem firstRepeated?_congr (h : ∀ r ∈ nodes, r.id ∈ seen ↔ r.id ∈ seen') :
    firstRepeated? seen nodes = firstRepeated? seen' nodes := by
  induction nodes generalizing seen seen' with
  | nil => rfl
  | cons r rest ih =>
    obtain ⟨hr, hrest⟩ := List.forall_mem_cons.1 h
    have hstep : ∀ x ∈ rest, x.id ∈ r.id :: seen ↔ x.id ∈ r.id :: seen' := by
      intro x hx
      rw [List.mem_cons, List.mem_cons, hrest x hx]
    rw [firstRepeated?, firstRepeated?, ih hstep]
    simp only [hr]

theorem firstRepeated?_append (rest : List Record) (h : firstRepeated? seen before = none) :
    firstRepeated? seen (before ++ rest) =
      firstRepeated? ((before.map Record.id).reverse ++ seen) rest := by
  induction before generalizing seen with
  | nil => rfl
  | cons r before ih =>
    rw [firstRepeated?] at h
    by_cases hr : r.id ∈ seen
    · rw [if_pos hr] at h
      cases h
    · rw [if_neg hr] at h
      rw [List.cons_append, firstRepeated?, if_neg hr, ih h]
      simp

/-- The first repetition splits the nodes: nothing is repeated before it, and it was seen already
or stands among the nodes before it. -/
theorem exists_split_of_firstRepeated? (h : firstRepeated? seen nodes = some n) :
    ∃ before after, nodes = before ++ n :: after ∧ firstRepeated? seen before = none ∧
      (n.id ∈ seen ∨ ∃ x ∈ before, x.id = n.id) := by
  induction nodes generalizing seen with
  | nil => cases h
  | cons r rest ih =>
    rw [firstRepeated?] at h
    by_cases hr : r.id ∈ seen
    · rw [if_pos hr] at h
      obtain rfl := Option.some.inj h
      exact ⟨[], rest, rfl, rfl, .inl hr⟩
    · rw [if_neg hr] at h
      obtain ⟨before, after, rfl, hbefore, hn⟩ := ih h
      refine ⟨r :: before, after, rfl, by rw [firstRepeated?, if_neg hr, hbefore], ?_⟩
      rcases hn with hn | ⟨x, hx, he⟩
      · rcases List.mem_cons.1 hn with he | hn
        · exact .inr ⟨r, List.mem_cons_self, he.symm⟩
        · exact .inl hn
      · exact .inr ⟨x, List.mem_cons_of_mem r hx, he⟩

theorem firstRepeated?_eq_some_iff :
    firstRepeated? [] nodes = some n ↔ FirstShared nodes n := by
  constructor
  · intro h
    obtain ⟨before, after, rfl, hbefore, hn⟩ := exists_split_of_firstRepeated? h
    have hnodup := (firstRepeated?_eq_none_iff.1 hbefore).1
    exact ⟨before, after, rfl, hnodup, hn.resolve_left List.not_mem_nil⟩
  · rintro ⟨before, after, rfl, hnodup, x, hx, he⟩
    have hbefore : firstRepeated? [] before = none :=
      firstRepeated?_eq_none_iff.2 ⟨hnodup, by simp⟩
    have hmem : n.id ∈ (before.map Record.id).reverse ++ [] := by
      simpa using ⟨x, hx, he⟩
    rw [firstRepeated?_append _ hbefore, firstRepeated?, if_pos hmem]

end FirstRepeated

section Gathering

variable {form : Form} {v : Value} {xs : List Value}

/-- All that stands below a node with the given children, in document order. -/
def nodesBelow (xs : List Value) : List Record :=
  Record.walkFrom (xs.filterMap Value.node?)

/-- Children that may all stand there are looked through for nodes that are met again. -/
theorem gatherChildren_of_fits (hv : v.sequence? = some xs)
    (hfit : ∀ x ∈ xs, Record.FitsUnder form x) (hwalk : ∀ r ∈ xs.filterMap Value.node?, r.Walkable) :
    gatherChildren form v =
      match firstRepeated? [] (nodesBelow xs) with
      | none => .ok (.tuple xs)
      | some r => .error (r.byKind (.repeatedNode form)) := by
  have hnodes : xs = (xs.filterMap Value.node?).map .record :=
    Record.eq_map_record_of_fitsUnder hfit
  have hvisits : checkVisits form [] (visitsOfItems xs) =
      match firstRepeated? [] (nodesBelow xs) with
      | none => .ok ()
      | some r => .error (r.byKind (.repeatedNode form)) := by
    rw [hnodes, visitsOfItems_of_walkable hwalk, ← hnodes, nodesBelow,
      Record.walkFrom_eq_preorder]
    exact checkVisits_nodes [] _
  unfold gatherChildren
  rw [hv]
  simp only [checkChildren_eq_ok_iff.2 hfit, hvisits, bind, Except.bind]
  cases firstRepeated? [] (nodesBelow xs) <;> rfl

end Gathering

section Create

variable {form : Form} {fields before after : Entries} {next : Ident} {r : Record}

theorem Field.find?_cons_children (v : Value) {f : Field} (hf : f ≠ .children) :
    f.find? ((.str "children", v) :: fields) = f.find? fields :=
  Field.find?_around [] fields v (Field.children_not_mem_keys hf)

theorem Field.find?_children_cons (v : Value) :
    Field.children.find? ((.str "children", v) :: fields) = some ("children", v) :=
  @Field.find?_same_around [] "children" .children rfl rfl fields v

theorem exists_new_of_gather_around (hb : form.shape = .branch)
    (hnone : (before ++ after).get? "children" = none)
    (h : check form next (.map (before ++ after)) = .ok r) {v stored : Value}
    (hv : gatherChildren form v = .ok stored) :
    ∃ q, form.new (before ++ (.str "children", v) :: after) next = .ok (q, next + 1) ∧
      q.form = form ∧ q.get .children = stored :=
  exists_new_of_gives_around (Form.isNode_of_branch hb) (Form.children_mem_specs hb) rfl
    ⟨by decide, by decide⟩ hnone h (fun hnull => nomatch hnull.1) hv

theorem new_eq_error_of_gather_around (hb : form.shape = .branch)
    (hnone : before.get? "children" = none)
    (h : check form next (.map (before ++ after)) = .ok r) {v : Value} {w : Violation}
    (hv : gatherChildren form v = .error w) :
    form.new (before ++ (.str "children", v) :: after) next = .error w := by
  have ha : Assembled form next (checkPlace next) (before ++ after) r :=
    checkWith_map_eq_ok_iff.1 h
  refine new_eq_error_of_accept_around (Form.children_mem_specs hb) rfl hnone h
    (ha.shape (Form.isNode_of_branch hb)).1 (fun hnull => nomatch hnull.1) ?_
  change (gatherChildren form v).map _ = _
  rw [hv]
  rfl

theorem exists_new_of_gather (hb : form.shape = .branch) (hnone : fields.get? "children" = none)
    (h : check form next (.map fields) = .ok r) {v stored : Value}
    (hv : gatherChildren form v = .ok stored) :
    ∃ q, form.new ((.str "children", v) :: fields) next = .ok (q, next + 1) ∧
      q.form = form ∧ q.get .children = stored :=
  @exists_new_of_gather_around form [] fields next r hb hnone h v stored hv

theorem new_eq_error_of_gather (hb : form.shape = .branch)
    (h : check form next (.map fields) = .ok r) {v : Value} {w : Violation}
    (hv : gatherChildren form v = .error w) :
    form.new ((.str "children", v) :: fields) next = .error w :=
  @new_eq_error_of_gather_around form [] fields next r hb rfl h v w hv

end Create

end DocTree
