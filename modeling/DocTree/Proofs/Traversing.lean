import DocTree.Proofs.Loading
import DocTree.Proofs.Reading
import DocTree.Proofs.Schema

/-!
Loading does the steps of its traversal and nothing else, so the first of them that fails decides
how loading fails, whatever stands beyond it. Main statements: `LoadStep.runAll_traverse`,
`LoadStep.runAll_eq_error_iff`, `Reaches.traverse_eq` and `load_eq_error_iff_firstFails`.
-/
namespace DocTree

variable {forms : Registry} {family : String} {next next' : Ident}

theorem length_of_loadItems {xs nodes : List Value}
    (h : loadItems forms family xs next = .ok (nodes, next')) : nodes.length = xs.length := by
  induction xs generalizing nodes next with
  | nil =>
    rw [loadItems] at h
    obtain ⟨rfl, -⟩ := Build.pure_eq_ok_iff.1 h
    rfl
  | cons x xs ih =>
    obtain ⟨r, mid, rest, -, hrest, rfl⟩ := loadItems_cons_eq_ok_iff.1 h
    rw [List.length_cons, List.length_cons, ih hrest]

namespace LoadStep

variable {steps steps' : List LoadStep} {stack stack' : List Value}

theorem runAll_append (steps steps' : List LoadStep) (stack : List Value) :
    runAll forms family (steps ++ steps') stack =
      runAll forms family steps stack >>= runAll forms family steps' := by
  induction steps generalizing stack with
  | nil => rw [List.nil_append, runAll, pure_bind]
  | cons step steps ih =>
    rw [List.cons_append, runAll, runAll, bind_assoc]
    exact congrArg _ (funext fun stack => ih stack)

theorem runAll_singleton (step : LoadStep) (stack : List Value) :
    runAll forms family [step] stack = step.run forms family stack := by
  rw [runAll]
  simp only [runAll, bind_pure]

/-- Steps fail as the first of them that fails. -/
theorem runAll_eq_error_iff {w : Violation} :
    runAll forms family steps stack next = .error w ↔
      ∃ before step after stack' mid, steps = before ++ step :: after ∧
        runAll forms family before stack next = .ok (stack', mid) ∧
        step.run forms family stack' mid = .error w := by
  induction steps generalizing stack next with
  | nil => simp [runAll]
  | cons step steps ih =>
    rw [runAll, Build.bind_eq_error_iff]
    constructor
    · rintro (hstep | ⟨stack₁, mid, hstep, hrest⟩)
      · exact ⟨[], step, steps, stack, next, rfl, rfl, hstep⟩
      · obtain ⟨before, failing, after, stack₂, last, rfl, hbefore, hfails⟩ := ih.1 hrest
        refine ⟨step :: before, failing, after, stack₂, last, rfl, ?_, hfails⟩
        exact Build.bind_eq_ok_iff.2 ⟨stack₁, mid, hstep, hbefore⟩
    · rintro ⟨before, failing, after, stack₂, last, hsteps, hbefore, hfails⟩
      cases before with
      | nil =>
        obtain ⟨rfl, rfl⟩ := List.cons_eq_cons.1 hsteps
        obtain ⟨rfl, rfl⟩ := Build.pure_eq_ok_iff.1 hbefore
        exact .inl hfails
      | cons first before =>
        obtain ⟨rfl, rfl⟩ := List.cons_eq_cons.1 hsteps
        obtain ⟨stack₁, mid, hstep, hbefore⟩ := Build.bind_eq_ok_iff.1 hbefore
        exact .inr ⟨stack₁, mid, hstep,
          ih.2 ⟨before, failing, after, stack₂, last, rfl, hbefore, hfails⟩⟩

end LoadStep

section Traverse

open LoadStep

theorem traverseChildren_of_not_holdsItems {form : Form} {before rest : Entries}
    {e : Value × Value} (h : ¬ holdsItems e) : traverseChildren forms form before (e :: rest) =
      traverseChildren forms form (before ++ [e]) rest := by
  rw [traverseChildren]
  · rintro xs rfl
    exact h ⟨rfl, xs, .inl rfl⟩
  · rintro xs rfl
    exact h ⟨rfl, xs, .inr rfl⟩

mutual

/-- The steps for a value load it and put the node on the stack. -/
theorem LoadStep.runAll_traverse (forms : Registry) (family : String) (v : Value)
    (stack : List Value) : runAll forms family (traverse forms v) stack = do
      let r ← load forms family v
      return .record r :: stack := by
  cases v with
  | map es =>
    rw [traverse, load_map, Registry.formOf?, ← Entries.type, runAll, run]
    cases forms.resolve? (Entries.type es) with
    | none =>
      rfl
    | some form =>
      simp only [pure_bind, loadEntries]
      by_cases hbranch : form.shape = .branch
      · simp only [if_pos hbranch, runAll_traverseChildren forms family form [] es, bind_assoc,
          List.nil_append]
      · simp only [if_neg hbranch, runAll_singleton, run, pure_bind]
  | _ =>
    rw [traverse, runAll_singleton, run, load]
    · rfl
    · simp
    · simp
termination_by sizeOf v

theorem LoadStep.runAll_traverseChildren (forms : Registry) (family : String) (form : Form)
    (before : Entries) (es : List (Value × Value)) (stack : List Value) :
    runAll forms family (traverseChildren forms form before es) stack = do
      let loaded ← loadChildren forms family es
      let r ← create form (.map (before ++ loaded))
      return .record r :: stack := by
  cases es with
  | nil => 
    rw [traverseChildren, runAll_singleton, run, loadChildren, pure_bind, List.append_nil]
  | cons e rest =>
    by_cases h : holdsItems e
    · obtain ⟨k, v⟩ := e
      obtain ⟨rfl, xs, hv⟩ := h
      have hclose (nodes : List Value) (hlength : nodes.length = xs.length) :
          runAll forms family [.close form before xs.length rest] (nodes.reverse ++ stack) = do
            let r ← create form (.map (before ++ (.str "children", .list nodes) :: rest))
            return .record r :: stack := by
        rw [runAll_singleton, run, ← hlength, ← List.length_reverse, List.take_left,
          List.drop_left, List.reverse_reverse]
      have hitems : (do
          let nodes ← loadItems forms family xs
          runAll forms family [.close form before xs.length rest] (nodes.reverse ++ stack)) = do
            let nodes ← loadItems forms family xs
            let r ← create form (.map (before ++ (.str "children", .list nodes) :: rest))
            return .record r :: stack :=
        Build.bind_congr fun _ nodes _ hnodes => hclose nodes (length_of_loadItems hnodes)
      rcases hv with rfl | rfl <;>
        simp only [traverseChildren, loadChildren, runAll_append, runAll_traverseItems forms family xs,
          bind_assoc, pure_bind, hitems]
    · rw [traverseChildren_of_not_holdsItems h, loadChildren_of_not_holdsItems rest h,
        runAll_traverseChildren forms family form (before ++ [e]) rest]
      simp only [bind_assoc, pure_bind, List.append_assoc, List.singleton_append]
termination_by sizeOf es

theorem LoadStep.runAll_traverseItems (forms : Registry) (family : String) (xs : List Value)
    (stack : List Value) : runAll forms family (traverseItems forms xs) stack = do
      let nodes ← loadItems forms family xs
      return nodes.reverse ++ stack := by
  cases xs with
  | nil => rfl
  | cons x xs =>
    rw [traverseItems, runAll_append, loadItems_cons, loadItem]
    cases x.node? with
    | some r =>
      simp only [runAll_singleton, run, pure_bind, runAll_traverseItems forms family xs, bind_assoc,
        List.reverse_cons, List.append_assoc, List.singleton_append]
    | none =>
      simp only [runAll_traverse forms family x, pure_bind, runAll_traverseItems forms family xs,
        bind_assoc, List.reverse_cons, List.append_assoc, List.singleton_append]
termination_by sizeOf xs

end

theorem load_eq_ok_iff_runAll {v : Value} {r : Record} :
    load forms family v next = .ok (r, next') ↔
      runAll forms family (traverse forms v) [] next = .ok ([.record r], next') := by
  rw [runAll_traverse, Build.bind_eq_ok_iff]
  simp only [Build.pure_eq_ok_iff, List.cons.injEq, Value.record.injEq, and_true]
  constructor
  · exact fun h => ⟨r, next', h, rfl, rfl⟩
  · rintro ⟨r, next', h, rfl, rfl⟩
    exact h

theorem load_eq_error_iff_runAll {v : Value} {w : Violation} :
    load forms family v next = .error w ↔
      runAll forms family (traverse forms v) [] next = .error w := by
  rw [runAll_traverse, Build.bind_eq_error_iff]
  simp

theorem load_eq_error_iff_firstFails {v : Value} {w : Violation} :
    load forms family v next = .error w ↔ FirstFails forms family (traverse forms v) next w := by
  rw [load_eq_error_iff_runAll, runAll_eq_error_iff, FirstFails]

theorem traverseItems_append (xs ys : List Value) :
    traverseItems forms (xs ++ ys) = traverseItems forms xs ++ traverseItems forms ys := by
  induction xs with
  | nil => rfl
  | cons x xs ih => rw [List.cons_append, traverseItems, traverseItems, ih, List.append_assoc]

theorem traverseChildren_append {form : Form} {before : Entries} {v : Value} {xs : List Value}
    (hno : ∀ e ∈ before, ¬ holdsItems e) (hv : v = .list xs ∨ v = .tuple xs)
    (done after : Entries) :
    traverseChildren forms form done (before ++ (.str "children", v) :: after) =
      traverseItems forms xs ++ [.close form (done ++ before) xs.length after] := by
  induction before generalizing done with
  | nil => rcases hv with rfl | rfl <;> simp only [List.nil_append, traverseChildren, List.append_nil]
  | cons e before ih =>
    obtain ⟨he, hbefore⟩ := List.forall_mem_cons.1 hno
    rw [List.cons_append, traverseChildren_of_not_holdsItems he, ih hbefore, List.append_assoc,
      List.singleton_append]

/-- What is come to inside data is traversed between the steps before and after it. -/
theorem Reaches.traverse_eq {v x : Value} {steps rest : List LoadStep}
    (h : Reaches forms v x steps rest) :
    traverse forms v = steps ++ traverse forms x ++ rest := by
  induction h with
  | here v => rw [List.nil_append, List.append_nil]
  | @child form es before after v x y left right steps rest hform hbranch hes hno hv hx _ ih =>
    have hitems : traverseItems forms (left ++ x :: right) =
        traverseItems forms left ++ (traverse forms x ++ traverseItems forms right) := by
      rw [traverseItems_append, traverseItems, hx]
    rw [traverse]
    simp only [hform, if_pos hbranch]
    rw [hes, traverseChildren_append hno hv, hitems, ih]
    simp only [List.nil_append, List.append_assoc, List.cons_append]

theorem Reaches.exists_load {v x : Value} {steps rest : List LoadStep} {r : Record}
    (h : Reaches forms v x steps rest) (hv : load forms family v next = .ok (r, next')) :
    ∃ mid q mid', load forms family x mid = .ok (q, mid') := by
  rw [load_eq_ok_iff_runAll, h.traverse_eq, List.append_assoc, runAll_append] at hv
  obtain ⟨stack, mid, -, hrest⟩ := Build.bind_eq_ok_iff.1 hv
  rw [runAll_append] at hrest
  obtain ⟨stack', mid', hx, -⟩ := Build.bind_eq_ok_iff.1 hrest
  rw [runAll_traverse] at hx
  obtain ⟨q, last, hq, -⟩ := Build.bind_eq_ok_iff.1 hx
  exact ⟨mid, q, last, hq⟩

/-- Data that is come to is loaded then, and if it cannot be, nothing after it is looked at. -/
theorem Reaches.load_eq_error {v x : Value} {steps rest : List LoadStep} {stack : List Value}
    {w : Violation} (h : Reaches forms v x steps rest)
    (hsteps : runAll forms family steps [] next = .ok (stack, next'))
    (hx : load forms family x next' = .error w) : load forms family v next = .error w := by
  rw [load_eq_error_iff_runAll, h.traverse_eq, List.append_assoc, runAll_append,
    Build.bind_eq_error_iff]
  refine .inr ⟨stack, next', hsteps, ?_⟩
  rw [runAll_append, runAll_traverse, bind_assoc, Build.bind_eq_error_iff]
  exact .inl hx

end Traverse

section Childless

variable {es : Entries} {form : Form}

theorem load_of_unknown_type (h : forms.resolve? (Entries.type es) = none) :
    load forms family (.map es) next = .error (.unknownType family (Entries.type es)) := by
  rw [load_map, Registry.formOf?, ← Entries.type, h]
  rfl

/-- Under a form that is no branch, that there are children is a fault, whatever they are. -/
theorem load_of_childless (hform : forms.resolve? (Entries.type es) = some form)
    (hshape : form.shape ≠ .branch) (hc : es.contains "children") :
    load forms family (.map es) next = .error (.childless form) := by
  obtain ⟨kind, -, hfind⟩ := Registry.formOf?_eq_some_iff.1 hform
  have hkind := Registry.kind_of_find? hfind
  rw [load_map, Registry.formOf?, ← Entries.type, hform]
  simp only [loadEntries, if_neg hshape, pure_bind]
  apply check_map_eq_error_iff.2
  rw [check, checkWith, assemble, checkShape_of_childless (Form.isNode_of_kind hkind)
    (Option.isSome_of_mem hkind) hshape hc]
  rfl

end Childless

/-- Loading is one traversal from left to right: it succeeds as its steps do, one after the other,
and fails as the first of them that fails, whatever would come after it. So what is come to inside
data fails before anything is left that it stands in, but after all of that has been entered, as a
mapping of unknown type cannot be. Where there may be no children, none are looked into. -/
theorem load_eq_traverse (forms : Registry) (family : String) (v : Value) (next : Ident) :
    (∀ r next', load forms family v next = .ok (r, next') ↔
      LoadStep.runAll forms family (traverse forms v) [] next = .ok ([.record r], next')) ∧
    (∀ w, load forms family v next = .error w ↔
      LoadStep.FirstFails forms family (traverse forms v) next w) ∧
    (∀ before step after after' stack mid w v', traverse forms v = before ++ step :: after →
      traverse forms v' = before ++ step :: after' →
      LoadStep.runAll forms family before [] next = .ok (stack, mid) →
      step.run forms family stack mid = .error w →
      load forms family v next = .error w ∧ load forms family v' next = .error w) ∧
    (∀ x steps rest, Reaches forms v x steps rest →
      traverse forms v = steps ++ traverse forms x ++ rest ∧
      ∀ stack mid w, LoadStep.runAll forms family steps [] next = .ok (stack, mid) →
        load forms family x mid = .error w → load forms family v next = .error w) ∧
    ∀ es : Entries, v = .map es →
      (forms.resolve? (Entries.type es) = none →
        load forms family v next = .error (.unknownType family (Entries.type es))) ∧
      ∀ form, forms.resolve? (Entries.type es) = some form → form.shape ≠ .branch →
        traverse forms v = [.enter (Entries.type es), .leave form es] ∧
        (es.contains "children" → load forms family v next = .error (.childless form)) := by
  refine ⟨fun r next' => load_eq_ok_iff_runAll, fun w => load_eq_error_iff_firstFails, ?_, ?_, ?_⟩
  · intro before step after after' stack mid w v' hv hv' hbefore hstep
    exact ⟨load_eq_error_iff_firstFails.2 ⟨_, _, _, _, _, hv, hbefore, hstep⟩,
      load_eq_error_iff_firstFails.2 ⟨_, _, _, _, _, hv', hbefore, hstep⟩⟩
  · exact fun x steps rest h => ⟨h.traverse_eq, fun stack mid w => h.load_eq_error⟩
  · rintro es rfl
    refine ⟨load_of_unknown_type, fun form hform hshape => ⟨?_, load_of_childless hform hshape⟩⟩
    rw [traverse]
    simp only [hform, if_neg hshape]

/-- A text without a string is reported, and neither the keys that its ancestors may not have nor
the entry after it, which is no mapping. -/
theorem load_eq_traverse_numberedText :
    let text : Value := .map [(.str "type", .str "text"), (.str "value", .int 1)]
    let paragraph : Value := .map [(.str "type", .str "paragraph"), (.str "depth", .int 1),
      (.str "children", .tuple [text])]
    let root : Value := .map [(.str "type", .str "root"),
      (.str "children", .list [paragraph, .null]), (.str "depth", .int 1)]
    let fault := Violation.badFields .mdastText [⟨[.key "value"], .notText⟩]
    (∃ steps rest, Reaches Registry.mdast root text steps rest ∧
      LoadStep.runAll Registry.mdast "mdast" steps [] 0 = .ok ([], 0)) ∧
    load Registry.mdast "mdast" text 0 = .error fault ∧
    load Registry.mdast "mdast" root 0 = .error fault := by
  intro text paragraph root fault
  have hparagraph : Reaches Registry.mdast paragraph text [.enter (.str "paragraph")] _ :=
    @Reaches.child _ .paragraph _ [(.str "type", .str "paragraph"), (.str "depth", .int 1)] [] _ _ _
      [] [] _ _ rfl rfl rfl (by simp [holdsItems]) (.inr rfl) rfl (.here text)
  have hroot : Reaches Registry.mdast root text [.enter (.str "root"), .enter (.str "paragraph")] _ :=
    @Reaches.child _ .mdastRoot _ [(.str "type", .str "root")] _ _ _ _ [] [.null] _ _ rfl rfl rfl
      (by simp [holdsItems]) (.inl rfl) rfl hparagraph
  have hsteps : LoadStep.runAll Registry.mdast "mdast"
      [.enter (.str "root"), .enter (.str "paragraph")] [] 0 = .ok ([], 0) := rfl
  have htext : load Registry.mdast "mdast" text 0 = .error fault := rfl
  obtain ⟨-, -, -, hreaches, -⟩ := load_eq_traverse Registry.mdast "mdast" root 0
  exact ⟨⟨_, _, hroot, hsteps⟩, htext, (hreaches text _ _ hroot).2 [] 0 fault hsteps htext⟩

end DocTree
