import DocTree.Proofs.Composing
import DocTree.Proofs.Normalising

/-!
Two pieces of plain data loaded side by side. What their mappings must have in common is said of one
pair of mappings at a time; by recursion on the data, loading then has the same outcome on both
sides, with nodes that match in the order in which they are built. Main statements:
`gatherChildren_outcomes`, `load_map_outcomes` and `Family.decode_outcomes`.
-/
namespace DocTree

/-- Nodes that can stand for one another: of one kind and form, equal and written alike. -/
structure Record.Matches (q r : Record) : Prop where
  form_eq : q.form = r.form
  kind_eq : q.kind = r.kind
  equals : q.equals r
  encode_equals : q.encode.equals r.encode

theorem Record.Fieldwise.matches {q r : Record} (h : q.Fieldwise Field.Matches r) (hq : q.Stable)
    (hr : r.Stable) : q.Matches r where
  form_eq := h.form_eq
  kind_eq := (h.get (.refl .kind .null)).same (by decide)
  equals := h.equals fun _ _ _ hvw => hvw.equals
  encode_equals := h.encode_equals hq hr

section Related

variable {α β : Type} {R S : α → β → Prop}

theorem forall₂_with_mem {xs : List α} {ys : List β} (h : List.Forall₂ R xs ys) :
    List.Forall₂ (fun x y => x ∈ xs ∧ y ∈ ys ∧ R x y) xs ys := by
  have hright : List.Forall₂ (fun x y => y ∈ ys ∧ R x y) xs ys :=
    List.Forall₂.flip ((List.forall₂_and_left ys xs).2 ⟨fun _ hy => hy, List.Forall₂.flip h⟩)
  exact (List.forall₂_and_left xs ys).2 ⟨fun _ hx => hx, hright⟩

theorem rel_imp {x : Option α} {y : Option β} (h : Option.Rel R x y)
    (hRS : ∀ a b, x = some a → y = some b → R a b → S a b) : Option.Rel S x y := by
  cases h with
  | none => exact .none
  | some h => exact .some (hRS _ _ rfl rfl h)

theorem contains_eq_of_rel {R : Value → Value → Prop} {es fs : Entries} {key : String}
    (h : Option.Rel R (es.get? key) (fs.get? key)) : es.contains key = fs.contains key := by
  unfold Entries.contains
  generalize es.get? key = v at h ⊢
  generalize fs.get? key = w at h ⊢
  cases h <;> rfl

end Related

section Children

variable {form : Form} {cs ds : List Record} {next mid next' mid' : Ident}

theorem checkChildren_congr (h : List.Forall₂ Record.Matches cs ds)
    (hwf : ∀ c ∈ cs, c.WellFormed) :
    checkChildren form (cs.map .record) = checkChildren form (ds.map .record) := by
  induction h with
  | nil => rfl
  | @cons c d cs ds hcd _ ih =>
    obtain ⟨hc, hcs⟩ := List.forall_mem_cons.1 hwf
    have hd : d.form.isNode := hcd.form_eq ▸ hc.isNode
    obtain ⟨kind, -, hk⟩ :=
      (hc.sound c (Record.mem_preorder_iff.2 (.inl rfl))).kind_eq hc.isNode
    have hchild : checkChild form (.record c) = checkChild form (.record d) := by
      rw [checkChild_record hc.isNode, checkChild_record hd, Record.get?_of_get hk nofun,
        Record.get?_of_get (hcd.kind_eq.symm.trans hk) nofun, hcd.form_eq]
    rw [List.map_cons, List.map_cons, checkChildren_cons, checkChildren_cons, hchild, ih hcs]

theorem gatherChildren_of_new (hcs : Fresh next mid cs) (hwalk : ∀ c ∈ cs, c.Walkable) :
    gatherChildren form (.list (cs.map .record)) =
      (checkChildren form (cs.map .record)).map fun _ => .tuple (cs.map .record) := by
  cases h : checkChildren form (cs.map .record) with
  | error w => exact gatherChildren_of_error rfl h
  | ok =>
    exact gatherChildren_of_fresh rfl hcs hwalk fun c hc =>
      checkChildren_eq_ok_iff.1 h _ (List.mem_map_of_mem hc)

theorem gatherChildren_outcomes (h : List.Forall₂ Record.Matches cs ds)
    (hwf : ∀ c ∈ cs, c.WellFormed) (hwf' : ∀ d ∈ ds, d.WellFormed) (hcs : Fresh next mid cs)
    (hds : Fresh next' mid' ds) :
    Outcomes Eq Field.children.Matches (gatherChildren form (.list (cs.map .record)))
      (gatherChildren form (.list (ds.map .record))) := by
  rw [gatherChildren_of_new hcs fun c hc => (hwf c hc).walkable,
    gatherChildren_of_new hds fun d hd => (hwf' d hd).walkable, checkChildren_congr h hwf]
  refine Outcomes.map (R := Eq) (.refl (fun _ => rfl) (fun _ => rfl) _) fun _ _ _ => ?_
  exact Field.matches_children (h.imp fun _ _ hcd => ⟨hcd.equals, hcd.encode_equals⟩)

end Children

section Load

variable {family : Family} {E : Violation → Violation → Prop}
  {F : List FieldError → List FieldError → Prop} {Like : Value → Value → Prop} {form : Form}
  {es fs : Entries} {next next' : Ident}

theorem Family.decode_fresh {v : Value} {r : Record} (hv : v.isPlain)
    (h : family.decode v next = .ok (r, next')) : Fresh next next' [r] := by
  obtain ⟨q, mid, hq⟩ := exists_read hv (load_inGrammar hv h).1 next
  obtain ⟨rfl, rfl⟩ := Prod.mk.inj (Except.ok.inj (hq.decoded.symm.trans h))
  exact hq.fresh

theorem sequence?_of_isPlain {v : Value} (hv : v.isPlain) (hlist : ∀ xs, v ≠ .list xs) :
    v.sequence? = none := by
  cases v with
  | list xs => exact absurd rfl (hlist xs)
  | null | bool | int | float | str | map => rfl
  | _ => cases hv

/-- What two mappings of the same type have in common if they are to be loaded alike: the children
one by one, if they are to be loaded at all, the report on what gives no field, and how each field
is read. -/
structure Entries.Corresponds (E : Violation → Violation → Prop)
    (F : List FieldError → List FieldError → Prop) (Like : Value → Value → Prop) (form : Form)
    (es fs : Entries) : Prop where
  children : Option.Rel (fun v w =>
    (∃ xs ys, v = .list xs ∧ w = .list ys ∧
        (form.shape = .branch → List.Forall₂ Like xs ys)) ∨
      v.sequence? = none ∧ w.sequence? = none ∧ v.isNull = w.isNull ∧ v.typeName = w.typeName)
    (es.get? "children") (fs.get? "children")
  stray : F (unknownKeys form.specs es) (unknownKeys form.specs fs)
  read : ∀ s ∈ form.specs, s.field ≠ .children → ∀ m m',
    Outcomes E (Outcomes F s.field.Matches) (s.read (Rule.accept form (checkPlace m)) es)
      (s.read (Rule.accept form (checkPlace m')) fs)

/-- What two pieces of data have in common if they are to be loaded alike. -/
inductive Family.LoadsAlike (family : Family) (E : Violation → Violation → Prop)
    (F : List FieldError → List FieldError → Prop) (Like : Value → Value → Prop) :
    Value → Value → Prop
  | other {v w : Value} : (∀ es, v ≠ .map es) → (∀ fs, w ≠ .map fs) → v.typeName = w.typeName →
    LoadsAlike family E F Like v w
  | unknown {es fs : Entries} : family.registry.formOf? es = none →
    family.registry.formOf? fs = none →
    E (.unknownType family.name (Entries.type es)) (.unknownType family.name (Entries.type fs)) →
    LoadsAlike family E F Like (.map es) (.map fs)
  | node {form : Form} {es fs : Entries} : family.registry.formOf? es = some form →
    family.registry.formOf? fs = some form → es.Corresponds E F Like form fs →
    LoadsAlike family E F Like (.map es) (.map fs)

theorem FieldSpec.read_congr {s : FieldSpec} {accept : Rule → Value → Except Violation Verdict}
    (h : s.field.find? es = s.field.find? fs) : s.read accept es = s.read accept fs := by
  rw [read, read, h]

theorem create_outcomes (hE : Comparison E F) (hn : form.isNode)
    (hchildren : es.contains "children" = fs.contains "children")
    (hstray : F (unknownKeys form.specs es) (unknownKeys form.specs fs))
    (hread : ∀ s ∈ form.specs, ∀ m m',
      Outcomes E (Outcomes F s.field.Matches) (s.read (Rule.accept form (checkPlace m)) es)
        (s.read (Rule.accept form (checkPlace m')) fs)) (m m' : Ident) :
    Outcomes E (fun p q => p.1.Fieldwise Field.Matches q.1) (create form (.map es) m)
      (create form (.map fs) m') := by
  refine Outcomes.map (checkWith_map_outcomes hE hchildren hstray (fun s hs => hread s hs m m')
    fun q r hqr => ?_) fun _ _ h => h
  rw [hqr.checkCoupled_eq hn]
  exact .refl (fun _ => hE.of_alike (.refl _)) (fun _ => rfl) _

theorem Entries.Corresponds.of_list (h : es.Corresponds E F Like form fs)
    (hb : form.shape = .branch) {xs : List Value} (hes : es.get? "children" = some (.list xs)) :
    ∃ ys, fs.get? "children" = some (.list ys) ∧ List.Forall₂ Like xs ys := by
  have hrel := h.children
  rw [hes] at hrel
  generalize fs.get? "children" = given at hrel
  cases hrel with
  | @some v w hvw =>
    rcases hvw with ⟨xs', ys, hxs, rfl, hall⟩ | ⟨hnone, -⟩
    · obtain rfl := Value.list.inj hxs
      exact ⟨ys, rfl, hall hb⟩
    · cases hnone

theorem Entries.Corresponds.exists_list (h : es.Corresponds E F Like form fs) {ys : List Value}
    (hfs : fs.get? "children" = some (.list ys)) : ∃ xs, es.get? "children" = some (.list xs) := by
  have hrel := h.children
  rw [hfs] at hrel
  generalize es.get? "children" = given at hrel
  cases hrel with
  | @some v w hvw =>
    rcases hvw with ⟨xs, -, rfl, -⟩ | ⟨-, hnone, -⟩
    · exact ⟨xs, rfl⟩
    · cases hnone

theorem Field.find?_children (es : Entries) :
    Field.children.find? es = (es.get? "children").map fun v => ("children", v) := by
  cases hget : es.get? "children" with
  | none => simp [Field.find?, Field.keys, Field.alias?, Field.label, hget]
  | some v => exact Field.find?_of_get?_key (f := .children) hget

theorem Violation.notMapping_alike {name : String} {v w : Value} (h : v.typeName = w.typeName) :
    (Violation.notMapping name v).Alike (.notMapping name w) where
  faultClass := rfl
  message := by
    have htext (u : Value) : (Violation.notMapping name u).message =
        s!"expected a {name} node mapping, got {u.typeName}" := rfl
    rw [htext, htext, h]
  errors := rfl

theorem Violation.childrenNotSequence_alike {v w : Value} (h : v.typeName = w.typeName) :
    (Violation.childrenNotSequence form v).Alike (.childrenNotSequence form w) where
  faultClass := rfl
  message := by
    have htext (u : Value) : (Violation.childrenNotSequence form u).message =
        s!"'{form.kindText}' children must be a sequence of nodes, got {u.typeName}" := rfl
    rw [htext, htext, h]
  errors := rfl

theorem create_outcomes_of_unloaded (hE : Comparison E F) (hn : form.isNode)
    (h : es.Corresponds E F Like form fs)
    (hno : form.shape = .branch → ∀ xs, es.get? "children" ≠ some (.list xs)) (m m' : Ident) :
    Outcomes E (fun p q => p.1.Fieldwise Field.Matches q.1) (create form (.map es) m)
      (create form (.map fs) m') := by
  refine create_outcomes hE hn (contains_eq_of_rel h.children) h.stray (fun s hs k k' => ?_) m m'
  by_cases hc : s.field = .children
  · have hb := form.branch_of_children s hs hc
    have hrefused {v : Value} (hv : v.sequence? = none) (k : Ident) :
        Rule.accept form (checkPlace k) s.rule v = .error (.childrenNotSequence form v) := by
      rw [form.rule_of_children s hs hc, Rule.accept, gatherChildren, hv]
      rfl
    apply FieldSpec.read_outcomes_of_rel hE (Field.Matches.refl s.field)
    have hrel := h.children
    have hlist := hno hb
    rw [hc, Field.find?_children, Field.find?_children]
    generalize es.get? "children" = given at hrel hlist ⊢
    generalize fs.get? "children" = given' at hrel ⊢
    cases hrel with
    | none => exact .none
    | @some v w hvw =>
      rcases hvw with ⟨xs, ys, rfl, -⟩ | ⟨hv, hw, hnull, htype⟩
      · exact absurd rfl (hlist xs)
      · refine .some ⟨hnull, fun _ => ?_⟩
        dsimp only
        rw [hrefused hv, hrefused hw]
        exact .error (hE.of_alike (Violation.childrenNotSequence_alike htype))
  · exact h.read s hs hc k k'

theorem create_outcomes_of_loaded (hE : Comparison E F) (hn : form.isNode)
    (h : es.Corresponds E F Like form fs) (hes : es.contains "children") {cs ds : List Record}
    {k k' m m' : Ident} (hcd : List.Forall₂ Record.Matches cs ds)
    (hwf : ∀ c ∈ cs, c.WellFormed) (hwf' : ∀ d ∈ ds, d.WellFormed) (hcs : Fresh k m cs)
    (hds : Fresh k' m' ds) :
    Outcomes E (fun p q => p.1.Fieldwise Field.Matches q.1)
      (create form (.map (Entries.withChildren es cs)) m)
      (create form (.map (Entries.withChildren fs ds)) m') := by
  have hfs : fs.contains "children" := contains_eq_of_rel h.children ▸ hes
  refine create_outcomes hE hn ?_ ?_ (fun s hs k k' => ?_) m m'
  · rw [Entries.contains_withChildren, Entries.contains_withChildren,
      contains_eq_of_rel h.children]
  · rw [unknownKeys_withChildren, unknownKeys_withChildren]
    exact h.stray
  · by_cases hc : s.field = .children
    · apply FieldSpec.read_outcomes_of_rel hE (Field.Matches.refl s.field)
      rw [hc, Field.find?_withChildren_children hes, Field.find?_withChildren_children hfs]
      refine .some ⟨rfl, fun _ => ?_⟩
      dsimp only
      rw [form.rule_of_children s hs hc, Rule.accept, Rule.accept]
      have hgather : Outcomes E Field.children.Matches
          (gatherChildren form (.list (cs.map .record)))
          (gatherChildren form (.list (ds.map .record))) :=
        (gatherChildren_outcomes hcd hwf hwf' hcs hds).mono fun v w hvw =>
          hE.of_alike (hvw ▸ .refl v)
      have hunder (x : Except Violation Value) :
          (x.map Except.ok).map (Verdict.under "children") = x.map .ok := by
        cases x <;> rfl
      rw [hunder, hunder]
      exact hgather.map fun _ _ hvw => .ok hvw
    · rw [FieldSpec.read_congr (Field.find?_withChildren hc),
        FieldSpec.read_congr (Field.find?_withChildren hc)]
      exact h.read s hs hc k k'

structure LoadedAlike (next next' : Ident) (p q : List Value × Ident) : Prop where
  matching : ∃ cs ds : List Record, p.1 = cs.map .record ∧ q.1 = ds.map .record ∧
    List.Forall₂ Record.Matches cs ds ∧ (∀ c ∈ cs, c.WellFormed) ∧ (∀ d ∈ ds, d.WellFormed) ∧
      Fresh next p.2 cs ∧ Fresh next' q.2 ds

theorem loadItems_outcomes {xs ys : List Value}
    (h : List.Forall₂ (fun x y => x.isPlain ∧ y.isPlain ∧ ∀ next next',
      Outcomes E (fun p q => p.1.Matches q.1) (family.decode x next) (family.decode y next')) xs ys)
    (next next' : Ident) :
    Outcomes E (LoadedAlike next next') (loadItems family.registry family.name xs next)
      (loadItems family.registry family.name ys next') := by
  induction h generalizing next next' with
  | nil =>
    rw [loadItems]
    exact .ok ⟨[], [], rfl, rfl, .nil, by simp, by simp, .nil, .nil⟩
  | @cons x y xs ys hxy _ ih =>
    obtain ⟨hx, hy, hload⟩ := hxy
    have hitem {x : Value} (hx : x.isPlain) :
        loadItem family.registry family.name x = family.decode x := by
      rw [loadItem, node?_of_isPlain hx]
      rfl
    rw [loadItems_cons, loadItems_cons, hitem hx, hitem hy]
    have hfirst := (hload next next').imp fun p q hp hq hpq =>
      (⟨hpq, ⟨load_wellFormed hx hp, load_wellFormed hy hq⟩, family.decode_fresh hx hp,
        family.decode_fresh hy hq⟩ : _ ∧ (_ ∧ _) ∧ _ ∧ _)
    refine Build.bind_outcomes hfirst fun p q hpq => ?_
    obtain ⟨hmatches, ⟨hwf, hwf'⟩, hp, hq⟩ := hpq
    refine Build.bind_outcomes (ih p.2 q.2) fun rest rest' hrest => ?_
    obtain ⟨cs, ds, hcs, hds, hall, hrests, hrests', hfresh, hfresh'⟩ := hrest.matching
    refine .ok ⟨p.1 :: cs, q.1 :: ds, ?_, ?_, .cons hmatches hall,
      List.forall_mem_cons.2 ⟨hwf, hrests⟩, List.forall_mem_cons.2 ⟨hwf', hrests'⟩,
      hp.cons hfresh, hq.cons hfresh'⟩
    · rw [hcs, List.map_cons]
    · rw [hds, List.map_cons]

theorem loadEntries_of_no_list {forms : Registry} {name : String} (hes : (Value.map es).isPlain)
    (hno : form.shape = .branch → ∀ xs, es.get? "children" ≠ some (.list xs)) :
    loadEntries forms name form es = pure es := by
  rw [loadEntries]
  split
  · rename_i hb
    rcases loadChildren_cases forms name es with ⟨-, hl⟩ | ⟨before, v, after, xs, rfl, -, hv, -⟩
    · exact hl
    · have hmem : (.str "children", v) ∈ before ++ (.str "children", v) :: after := by simp
      rcases hv with rfl | rfl
      · exact absurd ((Entries.get?_eq_some_iff (nodup_texts_of_isPlain hes)).2 hmem) (hno hb xs)
      · cases (isPlain_of_mem_map hes _ hmem).2
  · rfl

/-- Two mappings that correspond are loaded alike if their children are. -/
theorem load_map_outcomes (hE : Comparison E F) (hes : (Value.map es).isPlain)
    (hfs : (Value.map fs).isPlain) (hform : family.registry.formOf? es = some form)
    (hform' : family.registry.formOf? fs = some form) (h : es.Corresponds E F Like form fs)
    (hload : ∀ xs ys, es.get? "children" = some (.list xs) → List.Forall₂ Like xs ys →
      List.Forall₂ (fun x y => x.isPlain ∧ y.isPlain ∧ ∀ next next',
        Outcomes E (fun p q => p.1.Matches q.1) (family.decode x next) (family.decode y next'))
        xs ys) (next next' : Ident) :
    Outcomes E (fun p q => p.1.Matches q.1) (family.decode (.map es) next)
      (family.decode (.map fs) next') := by
  obtain ⟨kind, -, hfind⟩ := Registry.formOf?_eq_some_iff.1 hform
  have hn := Form.isNode_of_kind (Registry.kind_of_find? hfind)
  have hfields : Outcomes E (fun p q => p.1.Fieldwise Field.Matches q.1)
      (family.decode (.map es) next) (family.decode (.map fs) next') := by
    show Outcomes E _ (load family.registry family.name (.map es) next)
      (load family.registry family.name (.map fs) next')
    simp only [load_map, hform, hform']
    by_cases hlist : form.shape = .branch ∧ ∃ xs, es.get? "children" = some (.list xs)
    · obtain ⟨hb, xs, hget⟩ := hlist
      obtain ⟨ys, hget', hitems⟩ := h.of_list hb hget
      obtain ⟨before, after, hbefore, hsplit, hl⟩ :=
        @loadChildren_of_get? family.registry family.name _ _ _ hget (.inl rfl)
      obtain ⟨before', after', hbefore', hsplit', hl'⟩ :=
        @loadChildren_of_get? family.registry family.name _ _ _ hget' (.inl rfl)
      simp only [loadEntries, if_pos hb, hl, hl', bind_assoc, pure_bind]
      refine Build.bind_outcomes (loadItems_outcomes (hload xs ys hget hitems) next next') ?_
      rintro ⟨nodes, mid⟩ ⟨nodes', mid'⟩ hloaded
      obtain ⟨cs, ds, rfl, rfl, hcd, hwf, hwf', hcs, hds⟩ := hloaded.matching
      have hcreate := create_outcomes_of_loaded hE hn h (Entries.contains_of_get? hget) hcd hwf
        hwf' hcs hds
      rwa [hsplit, hsplit', Entries.withChildren_append hbefore,
        Entries.withChildren_append hbefore'] at hcreate
    · have hno (hb : form.shape = .branch) (xs : List Value) :
          es.get? "children" ≠ some (.list xs) :=
        fun hget => hlist ⟨hb, xs, hget⟩
      have hno' (hb : form.shape = .branch) (ys : List Value) :
          fs.get? "children" ≠ some (.list ys) := by
        intro hget
        obtain ⟨xs, hget⟩ := h.exists_list hget
        exact hno hb xs hget
      rw [loadEntries_of_no_list hes hno, loadEntries_of_no_list hfs hno']
      exact create_outcomes_of_unloaded hE hn h hno next next'
  refine hfields.imp fun p q hp hq hpq => ?_
  exact hpq.matches (load_wellFormed hes hp).stable (load_wellFormed hfs hq).stable

/-- If like data is to be loaded alike one mapping at a time, it is loaded alike as a whole. -/
theorem Family.decode_outcomes (hE : Comparison E F)
    (hplain : ∀ v w, Like v w → v.isPlain ∧ w.isPlain)
    (hlike : ∀ v w, Like v w → family.LoadsAlike E F Like v w) {v w : Value} (h : Like v w)
    (next next' : Ident) :
    Outcomes E (fun p q => p.1.Matches q.1) (family.decode v next) (family.decode w next') := by
  induction hsize : sizeOf v using Nat.strongRecOn generalizing v w next next' with
  | ind size ih =>
    obtain ⟨hv, hw⟩ := hplain v w h
    cases hlike v w h with
    | other hvmap hwmap htype =>
      have hrefused {v : Value} (hv : ∀ es, v ≠ .map es) (next : Ident) :
          family.decode v next = .error (.notMapping family.name v) := by
        rw [decode, load]
        · rfl
        · exact hv
      rw [hrefused hvmap, hrefused hwmap]
      exact .error (hE.of_alike (Violation.notMapping_alike htype))
    | @unknown es fs hes hfs hunknown =>
      have hrefused {es : Entries} (hes : family.registry.formOf? es = none) (next : Ident) :
          family.decode (.map es) next =
            .error (.unknownType family.name (Entries.type es)) := by
        rw [decode, load_map, hes]
        rfl
      rw [hrefused hes, hrefused hfs]
      exact .error hunknown
    | @node form es fs hes hfs hnode =>
      refine load_map_outcomes hE hv hw hes hfs hnode (fun xs ys hget hall => ?_) next next'
      have hsmaller : ∀ x ∈ xs, sizeOf x < size := fun x hx => hsize ▸ sizeOf_child_lt hget hx
      refine ((List.forall₂_and_left xs ys).2 ⟨hsmaller, hall⟩).imp fun x y hxy => ?_
      obtain ⟨hlt, hxy⟩ := hxy
      obtain ⟨hx, hy⟩ := hplain x y hxy
      exact ⟨hx, hy, fun k k' => ih _ hlt hxy k k' rfl⟩

end Load

end DocTree
