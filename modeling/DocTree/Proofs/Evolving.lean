import DocTree.Proofs.Relabelling
import DocTree.Proofs.RoundTrip

/-!
Changed copies of nodes, and first those without changes. What a check has stored is accepted again
as it is, so a node evolves from its own stored fields: they are kept, and the children are
replaced by copies of them that share nothing. Main statements: `Rule.Gives.again`,
`Stable.evolve_eq`, `Stable.exists_evolved` and `Sound.evolve_nil`.
-/
namespace DocTree

section Keeps

variable {form : Form} {id : Ident} {es : Entries} {s : FieldSpec} {v w : Value}

/-- What a rule has made of a value it accepts again, and makes the same of it. -/
theorem Rule.Gives.again {rule : Rule} (h : rule.Gives form (checkPlace id) w v) (id' : Ident) :
    rule.Gives form (checkPlace id') v v := by
  cases rule with
  | place f =>
    obtain ⟨q, hq, rfl⟩ := h
    refine ⟨q, checkWith_eq_ok_iff.2 (.inr ⟨rfl, ?_⟩), rfl⟩
    rcases checkWith_eq_ok_iff.1 hq with ⟨fs, -, ha⟩ | ⟨-, hkept⟩
    · rw [ha.form_eq]
      exact ⟨f.isA_refl, ha.coupled⟩
    · exact hkept
  | children =>
    obtain ⟨xs, -, rfl, hfit⟩ := gatherChildren_eq_ok_iff.1 h
    exact gatherChildren_eq_ok_iff.2 ⟨xs, rfl, rfl, hfit⟩
  | properties =>
    rcases gatherProperties_eq_ok_iff.1 h with ⟨-, rfl⟩ | ⟨es, fs, -, rfl, hall⟩
    · exact gatherProperties_of_isProperty (by simp)
    · exact gatherProperties_of_isProperty (isProperty_of_forall₂ hall)
  | kind | text | integer | flag | metadata =>
    obtain ⟨rfl, hs⟩ := h
    exact ⟨rfl, hs⟩

/-- The field stores the value again when the value is given for it. -/
def FieldSpec.Keeps (form : Form) (s : FieldSpec) (v : Value) : Prop :=
  s.nullable ∧ v = .null ∨ ∀ id, s.rule.Gives form (checkPlace id) v v

theorem FieldSpec.Keeps.takes {key : String} (h : s.Keeps form v)
    (hf : s.field.find? es = some (key, v)) (id : Ident) : s.Takes form (checkPlace id) es v := by
  by_cases hnull : s.nullable ∧ v = .null
  · obtain ⟨hn, rfl⟩ := hnull
    exact .null hf hn
  · exact .given hf hnull (h.resolve_left hnull id)

theorem checkPlace_of_stores {f : Form} {p : Record} (hf : f = .point ∨ f = .position)
    (h : (Rule.place f).Stores form (.record p)) (id : Ident) :
    checkPlace id f (.record p) = .ok p := by
  refine checkWith_eq_ok_iff.2 (.inr ⟨rfl, ?_⟩)
  rcases hf with rfl | rfl
  · obtain ⟨spot, hspot⟩ := h
    rw [hspot.sound.2]
    exact ⟨rfl, rfl⟩
  · have hposition : (Value.record p).IsPosition := h
    obtain ⟨start, stop, hstart, hstop, hordered⟩ := hposition.points
    rw [hposition.sound.2]
    exact ⟨rfl, (checkCoupled_position_iff hstart hstop).2 hordered⟩

theorem FieldSpec.Stores.keeps (h : s.Stores form v) (hs : s ∈ form.specs)
    (hc : s.field ≠ .children) : s.Keeps form v := by
  rcases h with hnull | hstores
  · exact .inl hnull
  · refine .inr fun id => ?_
    by_cases hp : ∃ f, s.rule = .place f
    · obtain ⟨f, hf⟩ := hp
      rw [hf] at hstores ⊢
      obtain ⟨p, rfl⟩ := hstores.exists_record
      exact ⟨p, checkPlace_of_stores (place_declared hs hf).1 hstores id, rfl⟩
    · have hchildren : s.rule ≠ .children := mt (form.field_of_rule s hs).2 hc
      exact (hstores.gives (checkPlace id) (fun f hf => hp ⟨f, hf⟩) hchildren).1

theorem FieldSpec.Takes.keeps (h : s.Takes form (checkPlace id) es v)
    (hk : form.isNode → form.kind?.isSome) (hs : s ∈ form.specs) (hc : s.field ≠ .children) :
    s.Keeps form v := by
  cases h with
  | default _ hd => exact (default_stores hk hs hd).keeps hs hc
  | null _ hn => exact .inl ⟨hn, rfl⟩
  | given _ _ hg => exact .inr hg.again

theorem Rule.Gives.unique {place : Form → Value → Except Violation Record} {rule : Rule}
    {v' : Value} (h : rule.Gives form place w v) (h' : rule.Gives form place w v') : v = v' := by
  cases rule with
  | place f =>
    obtain ⟨q, hq, rfl⟩ := h
    obtain ⟨q', hq', rfl⟩ := h'
    obtain rfl := Except.ok.inj (hq.symm.trans hq')
    rfl
  | children | properties => exact Except.ok.inj (h.symm.trans h')
  | kind | text | integer | flag | metadata => exact h.1.trans h'.1.symm

theorem FieldSpec.Takes.unique {place : Form → Value → Except Violation Record} {v' : Value}
    (h : s.Takes form place es v) (h' : s.Takes form place es v') : v = v' := by
  cases h with
  | default hf hd =>
    cases h' with
    | default _ hd' => exact Option.some.inj (hd.symm.trans hd')
    | null hf' => cases hf.symm.trans hf'
    | given hf' => cases hf.symm.trans hf'
  | null hf hn =>
    cases h' with
    | default hf' => cases hf.symm.trans hf'
    | null => rfl
    | given hf' hnot =>
      obtain ⟨-, rfl⟩ := Prod.mk.inj (Option.some.inj (hf.symm.trans hf'))
      exact absurd ⟨hn, rfl⟩ hnot
  | given hf hnot hg =>
    cases h' with
    | default hf' => cases hf.symm.trans hf'
    | null hf' hn =>
      obtain ⟨-, rfl⟩ := Prod.mk.inj (Option.some.inj (hf.symm.trans hf'))
      exact absurd ⟨hn, rfl⟩ hnot
    | given hf' _ hg' =>
      obtain ⟨-, rfl⟩ := Prod.mk.inj (Option.some.inj (hf.symm.trans hf'))
      exact hg.unique hg'

end Keeps

namespace Record

/-- A node that can be built again from its own fields: every field keeps what it stores, and the
children may stand under the node and can be copied. Different children may have nodes in
common. -/
structure Stable (r : Record) : Prop where
  isNode : r.form.isNode
  concrete : r.form.kind?.isSome
  fields : r.fields.map Prod.fst = r.form.specs.map FieldSpec.field
  keeps : ∀ s ∈ r.form.specs, s.field ≠ .children → s.Keeps r.form (r.get s.field)
  tuple : r.form.shape = .branch → r.get .children = .tuple r.children
  fits : ∀ v ∈ r.children, FitsUnder r.form v
  copyable : Copyable r.childNodes
  coupled : checkCoupled r.form r = .ok ()

theorem Sound.stable {r : Record} (h : r.Sound) (hn : r.form.isNode)
    (hfit : ∀ v ∈ r.children, FitsUnder r.form v) (hc : ∀ c ∈ r.childNodes, c.WellFormed) :
    r.Stable := by
  obtain ⟨kind, hkind, -⟩ := h.kind_eq hn
  constructor
  · exact hn
  · rw [hkind, Option.isSome_some]
  · exact h.fields
  · exact fun s hs hc => (h.stores s hs).keeps hs hc
  · exact h.children_eq
  · exact hfit
  · exact .of_walkable (fun c hcr => (hc c hcr).walkable) fun c hcr => (hc c hcr).distinct
  · exact (checkCoupled_iff (Form.ne_position_of_isNode hn) h.stores).2 h.start

theorem WellFormed.stable {r : Record} (h : r.WellFormed) : r.Stable := by
  have hself : r ∈ r.preorder := mem_preorder_iff.2 (.inl rfl)
  exact (h.sound r hself).stable h.isNode (h.edges r hself) fun c hc => h.childNode hc

end Record

theorem Assembled.stable {form : Form} {id : Ident} {es : Entries} {r : Record}
    (h : Assembled form id (checkPlace id) es r) (hn : form.isNode) : r.Stable := by
  have hconcrete := h.shape hn
  have hfit := h.children.1
  have hvisits := h.visitable
  rw [Record.children_eq_of_fitsUnder hfit] at hvisits
  obtain rfl := h.form_eq
  constructor
  · exact hn
  · exact hconcrete.1
  · exact h.fields
  · exact fun s hs hc => (h.takes s hs).keeps (fun _ => hconcrete.1) hs hc
  · exact h.children_eq
  · exact hfit
  · exact .of_visitable hvisits
  · exact h.coupled

theorem Field.find?_of_get?_label {f : Field} {es : Entries} {v : Value}
    (ha : ∀ key, f.alias? = some key → es.get? key = none) (h : es.get? f.label = some v) :
    f.find? es = some (f.label, v) := by
  unfold find? keys
  cases hf : f.alias? with
  | none => simp [h]
  | some key => simp [h, ha key hf]

namespace Form

variable {form : Form} {s : FieldSpec} (val : FieldSpec → Value)

theorem nodup_label (form : Form) : (form.specs.map fun s => s.field.label).Nodup := by
  cases form <;> decide

theorem alias_ne_label (form : Form) : ∀ s ∈ form.specs, ∀ t ∈ form.specs,
    s.field.alias? ≠ some t.field.label := by
  cases form <;> decide

def labelled (form : Form) (val : FieldSpec → Value) : Entries :=
  form.specs.map fun s => (.str s.field.label, val s)

theorem named_labelled (form : Form) (val : FieldSpec → Value) :
    (form.labelled val).Named (form.specs.map fun s => s.field.label) := by
  rw [Entries.Named, labelled, List.map_map, List.map_map]
  rfl

theorem get?_labelled (hs : s ∈ form.specs) :
    (form.labelled val).get? s.field.label = some (val s) := by
  have htexts : (form.labelled val).texts = form.specs.map fun s => s.field.label := by
    rw [labelled, Entries.texts, List.filterMap_map]
    exact congrFun List.filterMap_eq_map form.specs
  rw [Entries.get?_eq_some_iff (htexts ▸ form.nodup_label)]
  exact List.mem_map_of_mem hs

theorem get?_labelled_alias (hs : s ∈ form.specs) {key : String}
    (ha : s.field.alias? = some key) : (form.labelled val).get? key = none := by
  rw [(form.named_labelled val).get?_eq_none_iff]
  intro hmem
  obtain ⟨t, ht, rfl⟩ := List.mem_map.1 hmem
  exact form.alias_ne_label s hs t ht ha

theorem find?_labelled (hs : s ∈ form.specs) :
    s.field.find? (form.labelled val) = some (s.field.label, val s) :=
  Field.find?_of_get?_label (fun _ ha => get?_labelled_alias val hs ha) (get?_labelled val hs)

theorem contains_labelled (hc : (form.labelled val).contains "children") :
    form.shape = .branch := by
  rw [(form.named_labelled val).contains_iff] at hc
  obtain ⟨s, hs, he⟩ := List.mem_map.1 hc
  apply form.branch_of_children s hs
  by_contra hne
  exact Field.children_not_mem_keys hne (he ▸ s.field.label_mem_keys)

theorem unknownKeys_labelled : unknownKeys form.specs (form.labelled val) = [] := by
  rw [unknownKeys_eq_nil_iff, form.named_labelled val, List.map_map, List.forall_mem_map]
  exact fun s hs => ⟨s, hs, _, _, rfl, find?_labelled val hs⟩

end Form

namespace Record

variable {r : Record}

/-- What is given for the fields of a node that evolves: their own values, and copies for the
children unless a change gives others. -/
structure Restates (r : Record) (changes : Entries) (next mid : Ident) (val : FieldSpec → Value) :
    Prop where
  le : next ≤ mid
  kept : ∀ s ∈ r.form.specs, s.field ≠ .children → val s = r.get s.field
  copied : ∀ s ∈ r.form.specs, s.field = .children → changes.contains "children" = false →
    ∃ ds, val s = .tuple (ds.map .record) ∧ Copied next mid r.childNodes ds

theorem Stable.entries_eq (h : r.Stable) : r.entries = r.form.labelled fun s => r.get s.field := by
  rw [entries, fields_eq_map r.form.nodup_fields h.fields, List.map_map]
  rfl

theorem Stable.exists_base (h : r.Stable) (changes : Entries) (next : Ident) :
    ∃ val mid, r.baseEntries changes next = .ok (r.form.labelled val, mid) ∧
      r.Restates changes next mid val := by
  rw [baseEntries_eq h.fields, h.entries_eq]
  by_cases hcond : (r.isBranch && !changes.contains "children") = true
  · obtain ⟨ds, mid, hds, hcopied⟩ := exists_copies r.childNodes next
    have hb : r.form.shape = .branch := by
      simpa [isBranch] using (Bool.and_eq_true_iff.1 hcond).1
    rw [← children_eq_of_fitsUnder h.fits, ← copyChildren_eq (h.tuple hb)] at hds
    refine ⟨fun s => if s.field = .children then .tuple (ds.map .record) else r.get s.field, mid,
      ?_, hcopied.le, fun s _ hc => if_neg hc, fun s _ hc _ => ⟨ds, if_pos hc, hcopied⟩⟩
    rw [if_pos hcond]
    refine Build.bind_eq_ok_iff.2 ⟨_, mid, hds, Build.pure_eq_ok_iff.2 ⟨?_, rfl⟩⟩
    rw [Form.labelled, Form.labelled, List.map_map]
    refine List.map_congr_left fun s _ => ?_
    by_cases hc : s.field = .children
    · simp [hc, Field.label]
    · have hlabel : s.field.label ≠ "children" := by
        intro he
        apply Field.children_not_mem_keys hc
        rw [← he]
        exact s.field.label_mem_keys
      simp [hc, hlabel]
  · refine ⟨_, next, ?_, Nat.le_refl next, fun _ _ _ => rfl, fun s hs hc hno => ?_⟩
    · rw [if_neg hcond]
      rfl
    · have hb := r.form.branch_of_children s hs hc
      exact absurd (by simp [isBranch, hb, hno]) hcond

/-- A stable node evolves by building its form from its own fields with the changes. -/
theorem Stable.evolve_eq (h : r.Stable) (changes : Entries) (next : Ident) :
    ∃ val mid, r.Restates changes next mid val ∧ r.evolve changes next =
      create r.form (.map (Entries.update (r.form.labelled val) changes)) mid := by
  obtain ⟨val, mid, hbase, hval⟩ := h.exists_base changes next
  refine ⟨val, mid, hval, ?_⟩
  show (r.baseEntries changes next >>= fun p => _) = _
  rw [hbase]
  rfl

theorem checkCoupled_congr {form : Form} {q r : Record} (hp : form ≠ .position)
    (h : form = .list → q.get .ordered = r.get .ordered ∧ q.get .start = r.get .start) :
    checkCoupled form q = checkCoupled form r := by
  by_cases hlist : form = .list
  · obtain ⟨hordered, hstart⟩ := h hlist
    rw [hlist, checkCoupled, checkCoupled, hordered, hstart]
  · rw [checkCoupled_of_ne hp hlist, checkCoupled_of_ne hp hlist]

theorem Stable.get_children (h : r.Stable) (hb : r.form.shape = .branch) :
    r.get .children = .tuple (r.childNodes.map .record) := by
  rw [h.tuple hb, ← children_eq_of_fitsUnder h.fits]

theorem Stable.fits_childNodes (h : r.Stable) :
    ∀ c ∈ r.childNodes, FitsUnder r.form (.record c) := by
  intro c hc
  apply h.fits
  rw [children_eq_of_fitsUnder h.fits]
  exact List.mem_map_of_mem hc

theorem Stable.takes_copies (h : r.Stable) {s : FieldSpec} (hs : s ∈ r.form.specs)
    (hc : s.field = .children) {place : Form → Value → Except Violation Record} {es : Entries}
    {key : String} {ds : List Record} {next mid : Ident}
    (hfind : s.field.find? es = some (key, .tuple (ds.map .record)))
    (hcopied : Copied next mid r.childNodes ds) :
    s.Takes r.form place es (.tuple (ds.map .record)) := by
  refine .given hfind (by simp) ?_
  rw [r.form.rule_of_children s hs hc]
  exact gatherChildren_of_visitable rfl (hcopied.visitable h.copyable)
    (hcopied.copies.fitsUnder h.fits_childNodes)

/-- Without changes a stable node always evolves. -/
theorem Stable.exists_evolved (h : r.Stable) (next : Ident) :
    ∃ y next', r.evolve [] next = .ok (y, next') := by
  obtain ⟨val, mid, hval, hevolve⟩ := h.evolve_eq [] next
  have htakes : ∀ s ∈ r.form.specs, ∃ v,
      s.Takes r.form (checkPlace mid) (r.form.labelled val) v ∧
        (s.field ≠ .children → v = r.get s.field) := by
    intro s hs
    have hfind := Form.find?_labelled val hs
    by_cases hc : s.field = .children
    · obtain ⟨ds, hds, hcopied⟩ := hval.copied s hs hc rfl
      rw [hds] at hfind
      exact ⟨_, h.takes_copies hs hc hfind hcopied, fun hne => absurd hc hne⟩
    · rw [hval.kept s hs hc] at hfind
      exact ⟨_, (h.keeps s hs hc).takes hfind mid, fun _ => rfl⟩
  have hcoupled : ∀ q : Record, q.form = r.form →
      q.fields.map Prod.fst = r.form.specs.map FieldSpec.field →
      (∀ s ∈ r.form.specs, s.field ≠ .children → q.get s.field = r.get s.field) →
        checkCoupled r.form q = .ok () := by
    intro q _ _ hq
    have hcongr : checkCoupled r.form q = checkCoupled r.form r := by
      refine checkCoupled_congr (Form.ne_position_of_isNode h.isNode) fun hlist => ⟨?_, ?_⟩
      · exact hq _ (hlist ▸ Form.ordered_mem_specs) (by decide)
      · exact hq _ (hlist ▸ Form.start_mem_specs) (by decide)
    rw [hcongr]
    exact h.coupled
  obtain ⟨y, hy, -⟩ := exists_assembled mid
    (fun _ => ⟨h.concrete, Form.contains_labelled val⟩) (Form.unknownKeys_labelled val)
    htakes hcoupled
  have hcreate := create_eq_ok_iff.2 ⟨checkWith_map_eq_ok_iff.2 hy, rfl⟩
  exact ⟨y, mid + 1, hevolve.trans hcreate⟩

/-- How a changed copy answers to the node: what no change names is kept, and the children are
copied and new if no others are given. -/
structure Evolved (r y : Record) (changes : Entries) (next next' : Ident) : Prop where
  stable : y.Stable
  form_eq : y.form = r.form
  kept : ∀ s ∈ r.form.specs, s.field ≠ .children →
    (∀ key ∈ s.field.keys, changes.get? key = none) → y.get s.field = r.get s.field
  copied : changes.contains "children" = false →
    Copies r.childNodes y.childNodes ∧ Fresh next next' [y]

theorem Stable.assembled {y : Record} {changes : Entries} {next next' : Ident} (h : r.Stable)
    (hy : r.evolve changes next = .ok (y, next')) :
    ∃ val mid, next' = mid + 1 ∧ r.Restates changes next mid val ∧
      Assembled r.form mid (checkPlace mid) (Entries.update (r.form.labelled val) changes) y := by
  obtain ⟨val, mid, hval, hevolve⟩ := h.evolve_eq changes next
  rw [hevolve] at hy
  obtain ⟨hcheck, rfl⟩ := create_eq_ok_iff.1 hy
  exact ⟨val, mid, rfl, hval, checkWith_map_eq_ok_iff.1 hcheck⟩

theorem Stable.evolved {y : Record} {changes : Entries} {next next' : Ident} (h : r.Stable)
    (hy : r.evolve changes next = .ok (y, next')) : r.Evolved y changes next next' := by
  obtain ⟨val, mid, rfl, hval, ha⟩ := h.assembled hy
  have hfind {s : FieldSpec} (hs : s ∈ r.form.specs)
      (hno : ∀ key ∈ s.field.keys, changes.get? key = none) :
      s.field.find? (Entries.update (r.form.labelled val) changes) =
        some (s.field.label, val s) := by
    apply Field.find?_of_get?_label
    · intro key hkey
      have hmem : key ∈ s.field.keys := by simp [Field.keys, hkey]
      rw [Entries.get?_update_of_none (hno key hmem)]
      exact Form.get?_labelled_alias val hs hkey
    · rw [Entries.get?_update_of_none (hno _ s.field.label_mem_keys)]
      exact Form.get?_labelled val hs
  refine ⟨ha.stable h.isNode, ha.form_eq, fun s hs hc hno => ?_, fun hno => ?_⟩
  · have hgiven := hfind hs hno
    rw [hval.kept s hs hc] at hgiven
    exact (ha.takes s hs).unique ((h.keeps s hs hc).takes hgiven mid)
  · by_cases hb : r.form.shape = .branch
    · obtain ⟨ds, hds, hcopied⟩ := hval.copied _ (Form.children_mem_specs hb) rfl hno
      have hfresh := hcopied.fresh h.copyable.distinct
      have hnone := Entries.contains_eq_false_iff.1 hno
      have hget : (Entries.update (r.form.labelled val) changes).get? "children" =
          some (.tuple (ds.map .record)) := by
        rw [Entries.get?_update_of_none hnone, ← hds]
        exact Form.get?_labelled val (Form.children_mem_specs hb)
      have hnodes : y.childNodes = ds := ha.childNodes_eq hb hget rfl
      rw [hnodes]
      exact ⟨hcopied.copies, Fresh.node ha.ident (hnodes ▸ hfresh)⟩
    · have hr : r.childNodes = [] := by simp [childNodes, children, isBranch, hb]
      have hy : y.childNodes = [] := by simp [childNodes, children, isBranch, ha.form_eq, hb]
      rw [hr, hy]
      refine ⟨.nil, Fresh.node ha.ident ?_⟩
      rw [hy]
      exact ⟨hval.le, by simp, by simp⟩

end Record

section Plain

variable {new : Ident → Ident} {v : Value}

theorem Value.IsPointAt.relabel_eq {p : Place} (h : v.IsPointAt p) (new : Ident → Ident) :
    ∃ id id' form fields, v = .record ⟨id, form, fields⟩ ∧
      v.relabel new = .record ⟨id', form, fields⟩ := by
  obtain ⟨⟨id, rfl⟩, -⟩ := h
  refine ⟨id, new id, _, _, rfl, ?_⟩
  show record ⟨new id, .point, [(.line, .int p.line), (.column, .int p.column),
    (.offset, p.offsetValue.relabel new)]⟩ = _
  rw [p.offsetValue_relabel]

/-- A value that a field stores is alike with new identities, and is written likewise; metadata has
to be plain for that. -/
theorem Rule.Stores.relabel_alike {form : Form} {rule : Rule} (h : rule.Stores form v)
    (hc : rule ≠ .children) (hm : rule = .metadata → v.idents = []) {f : Field}
    (hf : f ≠ .children) :
    (v.relabel new).Alike v ∧ f.written (v.relabel new) = f.written v := by
  have hfixed (hv : v.relabel new = v) :
      (v.relabel new).Alike v ∧ f.written (v.relabel new) = f.written v := by
    rw [hv]
    exact ⟨.same v, rfl⟩
  have hpoint {v : Value} {p : Place} (hp : v.IsPointAt p) : ∃ q r : Record, v = .record r ∧
      v.relabel new = .record q ∧ q.Alike r ∧ q.dump = r.dump := by
    obtain ⟨id, id', form, fields, rfl, he⟩ := hp.relabel_eq new
    exact ⟨_, _, rfl, he, .mk (.refl fields), rfl⟩
  have hplace {q r : Record} (ha : q.Alike r) (hdump : q.dump = r.dump) :
      (Value.record q).Alike (.record r) ∧ f.written (.record q) = f.written (.record r) := by
    rw [Field.written, Field.written, if_neg hf, if_neg hf]
    exact ⟨.record ha, hdump⟩
  cases rule with
  | kind =>
    obtain ⟨kind, -, rfl⟩ := h
    exact hfixed rfl
  | text | integer =>
    obtain ⟨x, rfl, -⟩ := h
    exact hfixed rfl
  | flag =>
    obtain ⟨b, rfl⟩ := h
    exact hfixed rfl
  | metadata => exact hfixed (v.relabel_of_fixed (by simp [hm rfl]))
  | children => exact absurd rfl hc
  | properties =>
    obtain ⟨es, rfl, hes⟩ := h
    have hmap : es.map (fun e => (e.1.relabel new, e.2.relabel new)) = es.map fun e => e := by
      refine List.map_congr_left fun e he => ?_
      obtain ⟨⟨name, hname⟩, hproperty⟩ := hes e he
      rw [hproperty.relabel_eq, hname, Value.relabel_str, ← hname]
    apply hfixed
    show Value.map (relabelEntries new es) = .map es
    rw [relabelEntries_eq, hmap, List.map_id']
  | place g =>
    cases g with
    | position =>
      obtain ⟨id, first, last, p, p', rfl, hp, hp', -⟩ := h
      obtain ⟨q, r, rfl, hq, ha, hdump⟩ := hpoint hp
      obtain ⟨q', r', rfl, hq', ha', hdump'⟩ := hpoint hp'
      show (Value.record ⟨new id, .position, [(.start, (Value.record r).relabel new),
        (.stop, (Value.record r').relabel new)]⟩).Alike _ ∧ f.written (.record ⟨new id, .position,
          [(.start, (Value.record r).relabel new), (.stop, (Value.record r').relabel new)]⟩) = _
      rw [hq, hq']
      apply hplace (.mk (.cons (.record ha) (.cons (.record ha') .nil)))
      simp [Record.dump, dumpFields, hdump, hdump']
    | _ =>
      obtain ⟨p, hp⟩ := h
      obtain ⟨q, r, rfl, he, ha, hdump⟩ := hpoint hp
      rw [he]
      exact hplace ha hdump

namespace Record

variable {r : Record}

theorem alikeItems_of_forall₂ {cs ds : List Record}
    (h : List.Forall₂ (fun d c => d.Alike c ∧ d.encode = c.encode) ds cs) :
    AlikeItems (ds.map .record) (cs.map .record) ∧
      encodeItems (ds.map .record) = encodeItems (cs.map .record) := by
  induction h with
  | nil => exact ⟨.nil, rfl⟩
  | cons hdc _ ih =>
    rw [List.map_cons, List.map_cons, encodeItems, encodeItems, hdc.2, ih.2]
    exact ⟨.cons (.record hdc.1) ih.1, rfl⟩

theorem renews_children {cs ds : List Record} (hr : r.get .children = .tuple (cs.map .record))
    (h : List.Forall₂ (fun d c => d.Alike c ∧ d.encode = c.encode) ds cs) {s : FieldSpec}
    (hc : s.field = .children) : r.Renews s (.tuple (ds.map .record)) := by
  obtain ⟨halike, hencode⟩ := alikeItems_of_forall₂ h
  have hwritten (xs : List Value) : Field.children.written (.tuple xs) = .list (encodeItems xs) :=
    rfl
  unfold Renews
  rw [hc, hr, hwritten, hwritten, hencode]
  exact ⟨.tuple halike, rfl⟩

/-- Induction on the tree: a well-formed tree with plain metadata is alike with new identities, and
is written likewise. -/
theorem WellFormed.relabel_alike {c : Record} (h : c.WellFormed)
    (hm : ∀ n ∈ c.preorder, (n.get .metadata).idents = []) (new : Ident → Ident) :
    (c.relabel new).Alike c ∧ (c.relabel new).encode = c.encode := by
  have hself : c ∈ c.preorder := mem_preorder_iff.2 (.inl rfl)
  have hsound := h.sound c hself
  have hchildren : ∀ d ∈ c.childNodes, (d.relabel new).Alike d ∧
      (d.relabel new).encode = d.encode := by
    intro d hd
    have hsub := preorder_sublist hd
    exact (h.childNode hd).relabel_alike (fun n hn => hm n (hsub.subset hn)) new
  have hrenews : ∀ s ∈ c.form.specs, c.Renews s ((c.relabel new).get s.field) := by
    intro s hs
    rw [get_relabel]
    by_cases hc : s.field = .children
    · have hget := h.stable.get_children (c.form.branch_of_children s hs hc)
      have hrelabel : (c.get s.field).relabel new =
          .tuple ((c.childNodes.map fun d => d.relabel new).map .record) := by
        rw [hc, hget]
        show Value.tuple (relabelItems new (c.childNodes.map .record)) = _
        rw [relabelItems_eq, List.map_map, List.map_map]
        rfl
      rw [hrelabel]
      refine renews_children hget ?_ hc
      rw [List.forall₂_map_left_iff, List.forall₂_same]
      exact hchildren
    · rcases hsound.stores s hs with ⟨-, hnull⟩ | hstores
      · rw [Renews, hnull]
        exact ⟨.same _, rfl⟩
      · obtain ⟨hmetadata, hrule⟩ := c.form.field_of_rule s hs
        exact hstores.relabel_alike (mt hrule hc)
          (fun hr => hmetadata hr ▸ hm c hself) hc
  have hform : (c.relabel new).form = c.form := form_relabel c
  have hfields : (c.relabel new).fields.map Prod.fst = c.form.specs.map FieldSpec.field := by
    rw [hsound.relabel.fields, hform]
  constructor
  · exact alike_of_get hform hfields hsound.fields fun s hs => (hrenews s hs).1
  · rw [hsound.relabel.encode_eq, hsound.encode_eq,
      hsound.written_congr hsound.relabel hform hrenews]
termination_by c.count
decreasing_by exact count_lt_of_mem_childNodes hd

theorem Evolved.alike {x y : Record} {next next' : Ident} (h : x.Evolved y [] next next')
    (hx : x.Stable) (hs : x.Sound) (hc : ∀ c ∈ x.childNodes, c.WellFormed)
    (hm : ∀ c ∈ x.childNodes, ∀ n ∈ c.preorder, (n.get .metadata).idents = []) :
    y.Alike x ∧ y.encode = x.encode := by
  have hrenews : ∀ s ∈ x.form.specs, x.Renews s (y.get s.field) := by
    intro s hs
    by_cases hfield : s.field = .children
    · have hb := x.form.branch_of_children s hs hfield
      have hyc : y.get s.field = .tuple (y.childNodes.map .record) := by
        rw [hfield, h.stable.get_children (h.form_eq ▸ hb)]
      rw [hyc]
      refine renews_children (hx.get_children hb) ((h.copied rfl).1.forall₂ fun c hcx new => ?_)
        hfield
      exact (hc c hcx).relabel_alike (hm c hcx) new
    · unfold Renews
      rw [h.kept s hs hfield fun _ _ => rfl]
      exact ⟨.same _, rfl⟩
  have hfields : y.fields.map Prod.fst = x.form.specs.map FieldSpec.field := by
    rw [h.stable.fields, h.form_eq]
  have halike := alike_of_get h.form_eq hfields hs.fields fun s hs => (hrenews s hs).1
  have hsound := hs.of_alike halike
  refine ⟨halike, ?_⟩
  rw [hsound.encode_eq, hs.encode_eq, hs.written_congr hsound h.form_eq hrenews]

theorem length_walk_of_copies {x y : Record} (h : Copies x.childNodes y.childNodes) :
    y.walk.length = 1 + (x.childNodes.map fun c => c.walk.length).sum := by
  have hlengths : List.Forall₂ (fun d c => d.preorder.length = c.preorder.length)
      y.childNodes x.childNodes :=
    h.forall₂ fun c _ new => by rw [preorder_relabel, List.length_map]
  have hmap := List.forall₂_map_right_iff.2 (List.forall₂_map_left_iff.2 hlengths)
  rw [List.forall₂_eq_eq_eq] at hmap
  have hwalk : walk = preorder := funext walk_eq_preorder
  rw [hwalk, preorder_eq, List.length_cons, List.length_flatMap, hmap, Nat.add_comm]

/-- A node whose own fields are as a check stores them, over well-formed children that may stand
under it, evolves without changes to an equal node that is written likewise. The children may have
nodes in common, or be one node twice: all identities in the result are new, so that it has nothing
in common with the node, and the audit passes it, counting a node for each place it stands at. -/
theorem Sound.evolve_nil {x : Record} {next : Ident} (hs : x.Sound) (hn : x.form.isNode)
    (hfit : ∀ v ∈ x.children, FitsUnder x.form v) (hc : ∀ c ∈ x.childNodes, c.WellFormed)
    (hm : ∀ n ∈ x.walk, (n.get .metadata).idents = []) (hnext : ∀ n ∈ x.walk, n.id < next) :
    ∃ y next', x.evolve [] next = .ok (y, next') ∧ y.form = x.form ∧ y.equals x ∧
      y.encode = x.encode ∧ (∀ n ∈ y.walk, next ≤ n.id ∧ ∀ m ∈ x.walk, n.id ≠ m.id) ∧
        y.audit = .ok (1 + (x.childNodes.map fun c => c.walk.length).sum) := by
  have hx : x.Stable := hs.stable hn hfit hc
  obtain ⟨y, next', hy⟩ := hx.exists_evolved next
  have hevolved := hx.evolved hy
  obtain ⟨hcopies, hfresh⟩ := hevolved.copied rfl
  have hplain : ∀ c ∈ x.childNodes, ∀ n ∈ c.preorder, (n.get .metadata).idents = [] := by
    intro c hcx n hnc
    apply hm
    rw [walk_eq_preorder]
    exact (preorder_sublist hcx).subset hnc
  obtain ⟨halike, hencode⟩ := hevolved.alike hx hs hc hplain
  have hwf : y.WellFormed := by
    apply WellFormed.of_children hevolved.stable.isNode (hs.of_alike halike) hevolved.stable.fits
    · exact hcopies.wellFormed hc
    · simpa using hfresh.nodup
  refine ⟨y, next', hy, hevolved.form_eq, halike.equals, hencode, fun n hny => ?_, ?_⟩
  · rw [walk_eq_preorder] at hny
    have hle : next ≤ n.id := (hfresh.within n (by simpa using hny)).1
    exact ⟨hle, fun m hmx => Nat.ne_of_gt (Nat.lt_of_lt_of_le (hnext m hmx) hle)⟩
  · rw [hwf.audit_eq, length_walk_of_copies hcopies]

def doubledElement : Record :=
  uncheckedRecord .element 1 [(.str "tag_name", .str "p"),
    (.str "children", .tuple [.record (Session.loneText 0), .record (Session.loneText 0)])]

theorem sound_doubledElement : doubledElement.Sound := by
  refine ⟨rfl, ?_, by rintro ⟨⟩⟩
  show ∀ s ∈ Form.specs .element, s.Stores .element (doubledElement.get s.field)
  simp only [Form.specs, Form.isNode, Form.nodeSpecs, Form.shapeSpecs, Form.shape, Form.ownSpecs,
    if_true, List.cons_append, List.nil_append, List.forall_mem_cons, List.not_mem_nil,
    false_implies, implies_true, and_true]
  exact ⟨.inr ⟨_, rfl, rfl⟩, .inl ⟨rfl, rfl⟩, .inl ⟨rfl, rfl⟩, .inr ⟨_, rfl⟩,
    .inr ⟨_, rfl, by simp⟩, .inr ⟨[], rfl, by simp⟩⟩

/-- The audit refuses the element for sharing and passes what it evolves to. -/
theorem evolve_nil_doubledElement :
    doubledElement.audit = .error (.sharedNode (.str "text")) ∧
    doubledElement.Sound ∧ (∀ v ∈ doubledElement.children, FitsUnder doubledElement.form v) ∧
    (∀ c ∈ doubledElement.childNodes, c.WellFormed) ∧
    (∀ n ∈ doubledElement.walk, (n.get .metadata).idents = []) ∧
    (∀ n ∈ doubledElement.walk, n.id < 2) ∧
    ∃ y next', doubledElement.evolve [] 2 = .ok (y, next') ∧ y.form = doubledElement.form ∧
      y.equals doubledElement ∧ y.encode = doubledElement.encode ∧
      (∀ n ∈ y.walk, 2 ≤ n.id ∧ ∀ m ∈ doubledElement.walk, n.id ≠ m.id) ∧ y.audit = .ok 3 := by
  have hwalk : doubledElement.walk =
      [doubledElement, Session.loneText 0, Session.loneText 0] := by
    rw [walk_eq_preorder]
    rfl
  have hfit : ∀ v ∈ doubledElement.children, FitsUnder doubledElement.form v :=
    checkChildren_eq_ok_iff.1 (by cbv)
  have hc : ∀ c ∈ doubledElement.childNodes, c.WellFormed := by
    have htext : (Session.loneText 0).WellFormed := Session.established_loneText.node rfl
    exact List.forall_mem_cons.2 ⟨htext, List.forall_mem_singleton.2 htext⟩
  have hm : ∀ n ∈ doubledElement.walk, (n.get .metadata).idents = [] := by
    rw [hwalk]
    decide
  have hnext : ∀ n ∈ doubledElement.walk, n.id < 2 := by
    rw [hwalk]
    decide
  have haudit : doubledElement.audit = .error (.sharedNode (.str "text")) := by cbv
  have hcount : 1 + (doubledElement.childNodes.map fun c => c.walk.length).sum = 3 := by
    have htext : (Session.loneText 0).walk.length = 1 := by
      rw [walk_eq_preorder]
      rfl
    show 1 + ((Session.loneText 0).walk.length + ((Session.loneText 0).walk.length + 0)) = 3
    rw [htext]
  have hevolves := sound_doubledElement.evolve_nil rfl hfit hc hm hnext
  rw [hcount] at hevolves
  exact ⟨haudit, sound_doubledElement, hfit, hc, hm, hnext, hevolves⟩

end Record

end Plain

end DocTree
