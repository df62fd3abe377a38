import DocTree.Proofs.Evolving
import DocTree.Proofs.Parallel

/-!
Changes one after the other and at once. The two ways give a field the same value or copies of the
same nodes, so by the comparison of parallel checks they have the same outcome. Main statements:
`Field.find?_update`, `Stable.takes_matching` and `WellFormed.evolve_evolve`.
-/
namespace DocTree

/-- Entries as keyword arguments are: the keys are texts, and none is given twice. -/
def Entries.Keywords (es : Entries) : Prop :=
  ∃ names, es.Named names ∧ names.Nodup

section Keys

variable {form : Form} {es changes : Entries} {names changed : List String}

theorem Entries.Keywords.update (h : es.Keywords) (hc : changes.Keywords) :
    (update es changes).Keywords := by
  obtain ⟨names, hnamed, hn⟩ := h
  obtain ⟨changed, hchanged, hcn⟩ := hc
  exact ⟨_, hnamed.update hchanged hcn, Entries.nodup_changed hn hcn⟩

/-- A field is found in changed entries as in the changes, and else as in what was changed, if that
gives it under its label only. -/
theorem Field.find?_update {f : Field} (hc : changes.Keywords)
    (ha : ∀ key, f.alias? = some key → es.get? key = none) :
    f.find? (Entries.update es changes) = (f.find? changes).or (f.find? es) := by
  obtain ⟨changed, hchanged, hn⟩ := hc
  unfold find? keys
  cases hf : f.alias? with
  | none =>
    simp only [Option.toList_none, List.nil_append, List.findSome?_singleton,
      hchanged.get?_update hn, Option.map_or]
  | some key =>
    simp only [Option.toList_some, List.singleton_append, List.findSome?_cons, List.findSome?_nil,
      hchanged.get?_update hn, ha key hf, Option.or_none]
    cases changes.get? key <;> cases changes.get? f.label <;> simp

theorem Entries.Named.label_of_known (hes : es.Named names)
    (hlabels : ∀ s ∈ form.specs, s.field.label ∈ names)
    (hknown : unknownKeys form.specs es = []) :
    ∀ name ∈ names, ∃ s ∈ form.specs, s.field.label = name := by
  have hfound : ∀ name ∈ names, ∃ s ∈ form.specs, ∃ v, s.field.find? es = some (name, v) := by
    intro name hname
    have hkey : .str name ∈ es.map Prod.fst := by
      rw [hes]
      exact List.mem_map_of_mem hname
    obtain ⟨s, hs, key, v, he, hf⟩ := unknownKeys_eq_nil_iff.1 hknown _ hkey
    obtain rfl := Value.str.inj he
    exact ⟨s, hs, v, hf⟩
  intro name hname
  obtain ⟨s, hs, v, hf⟩ := hfound name hname
  obtain ⟨t, ht, w, hlabel⟩ := hfound _ (hlabels s hs)
  -- the label is used for the field too, and a field is found under one key
  have hfield : s.field = t.field :=
    form.field_of_key s hs t ht _ s.field.label_mem_keys (Field.find?_eq_some hlabel).1
  rw [← hfield, hf] at hlabel
  exact ⟨s, hs, (Prod.mk.inj (Option.some.inj hlabel)).1.symm⟩

end Keys

section Matches

/-- Values that a field of two nodes may hold for the nodes to be equal and to be written alike:
positions and children may differ in identities, and mappings in the order of their entries, and
nothing else may. -/
structure Field.Matches (f : Field) (v w : Value) : Prop where
  isNull_eq : v.isNull = w.isNull
  equals : v.equals w
  written : (f.written v).equals (f.written w)
  same : f ∉ [.position, .metadata, .children, .properties] → v = w

theorem Field.Matches.refl (f : Field) (v : Value) : f.Matches v v :=
  ⟨rfl, v.equals_refl, (f.written v).equals_refl, fun _ => rfl⟩

theorem Field.matches_position {q r : Record} (h : q.Fieldwise (fun _ => Value.Twin) r) :
    Field.position.Matches (.record q) (.record r) := by
  constructor
  · rfl
  · rw [Value.equals]
    exact h.equals fun _ _ _ hvw => hvw.equals
  · show q.dump.equals r.dump
    rw [Record.dump_eq_of_twins h]
    exact Value.equals_refl _
  · exact fun hne => absurd (by decide) hne

/-- Two records that are one record but for the identities, and in which no stream stands. -/
def Record.Sibling (c d : Record) : Prop :=
  ∃ (u : Record) (f g : Ident → Ident), u.isStreamless ∧ c = u.relabel f ∧ d = u.relabel g

variable {xs ys cs ds : List Record}

theorem Record.Sibling.equals {c d : Record} (h : c.Sibling d) :
    c.equals d ∧ c.encode.equals d.encode := by
  obtain ⟨u, f, g, hu, rfl, rfl⟩ := h
  have hencoded := u.encode.equals_relabel f g (u.isStreamless_encode hu)
  rw [← Record.encode_relabel, ← Record.encode_relabel] at hencoded
  exact ⟨u.equals_relabel f g hu, hencoded⟩

theorem Field.matches_children
    (h : List.Forall₂ (fun c d : Record => c.equals d ∧ c.encode.equals d.encode) cs ds) :
    Field.children.Matches (.tuple (cs.map .record)) (.tuple (ds.map .record)) := by
  have hitems : equalItems (cs.map .record) (ds.map .record) ∧
      equalItems (encodeItems (cs.map .record)) (encodeItems (ds.map .record)) := by
    induction h with
    | nil => exact ⟨by simp [equalItems], by simp [encodeItems, equalItems]⟩
    | cons hcd _ ih =>
      obtain ⟨hrecords, hencoded⟩ := hcd
      constructor
      · rw [List.map_cons, List.map_cons, equalItems, Value.equals, hrecords, ih.1]
        rfl
      · rw [List.map_cons, List.map_cons, encodeItems, encodeItems, equalItems, hencoded, ih.2]
        rfl
  constructor
  · rfl
  · rw [Value.equals]
    exact hitems.1
  · show (Value.list _).equals (.list _)
    rw [Value.equals]
    exact hitems.2
  · exact fun hne => absurd (by decide) hne

theorem Copies.refl (cs : List Record) : Copies cs cs :=
  List.forall₂_same.2 fun c _ => ⟨id, (c.relabel_of_fixed fun _ _ => rfl).symm, fun _ _ _ _ => id⟩

theorem Copies.siblings (h : Copies cs ds) (hs : ∀ c ∈ cs, c.isStreamless) :
    List.Forall₂ Record.Sibling ds cs :=
  h.forall₂ fun c hc new =>
    ⟨c, new, id, hs c hc, rfl, (c.relabel_of_fixed fun _ _ => rfl).symm⟩

theorem Copies.siblings_of_copies (hxy : Copies xs ys) (hyd : Copies ys ds) (hxc : Copies xs cs)
    (hs : ∀ x ∈ xs, x.isStreamless) : List.Forall₂ Record.Sibling ds cs := by
  induction hxy generalizing ds cs with
  | nil =>
    cases hyd
    cases hxc
    exact .nil
  | cons hfirst _ ih =>
    cases hyd with
    | cons hsecond hyd =>
      cases hxc with
      | cons hother hxc =>
        obtain ⟨hx, hxs⟩ := List.forall_mem_cons.1 hs
        obtain ⟨f, rfl, -⟩ := hfirst
        obtain ⟨g, rfl, -⟩ := hsecond
        obtain ⟨new, rfl, -⟩ := hother
        exact .cons ⟨_, g ∘ f, new, hx, Record.relabel_relabel f g _, rfl⟩ (ih hyd hxc hxs)

end Matches

section Written

theorem Value.equals_map_of_forall₂ {es fs : Entries}
    (h : List.Forall₂ (fun e f => e.1.equals f.1 ∧ e.2.equals f.2) es fs) :
    (Value.map es).equals (.map fs) := by
  rw [Value.equals, decide_eq_true h.length_eq, Bool.true_and]
  apply entriesAmong_of_forall
  intro e he
  obtain ⟨i, hi, rfl⟩ := List.mem_iff_getElem.1 he
  have hlt : i < fs.length := h.length_eq ▸ hi
  exact ⟨fs[i], List.getElem_mem hlt, h.get hi hlt⟩

variable {q r : Record}

theorem Record.Stable.encode_eq (h : r.Stable) : r.encode = .map r.written := by
  apply Record.encode_eq
  rintro ⟨f, v⟩ hp rfl
  rw [fields_eq_map r.form.nodup_fields h.fields] at hp
  obtain ⟨s, hs, he⟩ := List.mem_map.1 hp
  obtain ⟨hf, rfl⟩ := Prod.mk.inj he
  exact ⟨r.children, by rw [hf, h.tuple (r.form.branch_of_children s hs hf)]⟩

theorem Record.Fieldwise.encode_equals (h : q.Fieldwise Field.Matches r) (hq : q.Stable)
    (hr : r.Stable) : q.encode.equals r.encode := by
  rw [hq.encode_eq, hr.encode_eq]
  apply Value.equals_map_of_forall₂
  refine List.rel_filterMap ?_ h.fields
  rintro ⟨f, v⟩ ⟨f', w⟩ ⟨rfl, hvw⟩
  change f.Matches v w at hvw
  show Option.Rel _ (if v.isNull then none else some (Value.str f.key, f.written v))
    (if w.isNull then none else some (Value.str f.key, f.written w))
  rw [hvw.isNull_eq]
  split
  · exact .none
  · exact .some ⟨Value.equals_refl _, hvw.written⟩

end Written

theorem Record.Fieldwise.checkCoupled_eq {form : Form} (h : q.Fieldwise Field.Matches r)
    (hn : form.isNode) : checkCoupled form q = checkCoupled form r := by
  have hsame {f : Field} (hf : f ∉ [.position, .metadata, .children, .properties]) :
      q.get f = r.get f :=
    (h.get (.refl f .null)).same hf
  exact checkCoupled_congr (Form.ne_position_of_isNode hn) fun _ =>
    ⟨hsame (by decide), hsame (by decide)⟩

section Accept

variable {form : Form} {es fs : Entries} {s : FieldSpec} {m m' : Ident} {v : Value}

theorem FieldSpec.accept_matching (hn : form.isNode) (hs : s ∈ form.specs) (m m' : Ident)
    (v : Value) : Outcomes Violation.Alike (Outcomes Eq s.field.Matches)
      (Rule.accept form (checkPlace m) s.rule v) (Rule.accept form (checkPlace m') s.rule v) := by
  refine Rule.accept_outcomes (Field.Matches.refl s.field) (fun f hf v => ?_) v
  obtain rfl := Form.position_of_place hs hn hf
  rw [form.field_of_position s hs hf]
  exact (checkPosition_outcomes m m' v).imp fun _ _ _ _ => Field.matches_position

theorem FieldSpec.Takes.exists_matching (h : s.Takes form (checkPlace m) es v)
    (hk : form.kind?.isSome) (hn : form.isNode) (hs : s ∈ form.specs)
    (hf : s.field.find? es = s.field.find? fs) (m' : Ident) :
    ∃ w, s.Takes form (checkPlace m') fs w ∧ s.field.Matches v w := by
  have hread := FieldSpec.read_outcomes (Field.Matches.refl s.field) hf
    (FieldSpec.accept_matching hn hs m m')
  rw [(FieldSpec.takes_iff fun _ => hk).2 h] at hread
  obtain ⟨verdict, hverdict, hmatches⟩ := hread.exists_ok
  cases hmatches with
  | ok hvw => exact ⟨_, (FieldSpec.takes_iff fun _ => hk).1 hverdict, hvw⟩

end Accept

section Streamless

theorem Value.isStreamless_of_elements? {v : Value} {xs : List Value} {c : Record}
    (hv : v.isStreamless) (hxs : v.elements? = some xs) (hc : .record c ∈ xs) :
    c.isStreamless := by
  cases v with
  | null | bool | int | float => cases hxs
  | str | bytes | record =>
    obtain rfl := Option.some.inj hxs
    simp at hc
  | list ys | tuple ys | set ys =>
    obtain rfl := Option.some.inj hxs
    exact streamlessItems_iff.1 hv _ hc
  | map es =>
    obtain rfl := Option.some.inj hxs
    obtain ⟨e, he, hkey⟩ := List.mem_map.1 hc
    have hstreamless : e.1.isStreamless := (streamlessEntries_iff.1 hv e he).1
    rwa [hkey] at hstreamless
  | stream => cases hv

theorem Record.isStreamless_childNodes {r c : Record} (hr : r.isStreamless)
    (hc : c ∈ r.childNodes) : c.isStreamless := by
  obtain ⟨v, hv, hnode⟩ := List.mem_filterMap.1 hc
  obtain ⟨rfl, -⟩ := Value.node?_eq_some.1 hnode
  unfold children at hv
  split at hv
  · have hget : (r.get .children).isStreamless := by
      obtain ⟨id, form, fields⟩ := r
      show ((fields.lookup .children).getD .null).isStreamless
      cases hl : fields.lookup .children with
      | none => rfl
      | some w =>
        obtain ⟨before, after, rfl, -⟩ := List.lookup_eq_some_iff.1 hl
        exact streamlessFields_iff.1 hr (.children, w) (by simp)
    cases hxs : (r.get .children).items? with
    | none => simp [Value.items, hxs] at hv
    | some xs =>
      rw [Value.items, hxs] at hv
      exact Value.isStreamless_of_elements? hget (Value.elements?_of_items? hxs) hv
  · cases hv

theorem isStreamless_of_gatherChildren {form : Form} {v : Value} {cs : List Record}
    (hv : v.isStreamless) (h : gatherChildren form v = .ok (.tuple (cs.map .record))) :
    ∀ c ∈ cs, c.isStreamless := by
  obtain ⟨xs, hxs, he, -⟩ := gatherChildren_eq_ok_iff.1 h
  obtain rfl := Value.tuple.inj he
  exact fun c hc => Value.isStreamless_of_elements? hv (Value.elements?_of_sequence? hxs)
    (List.mem_map_of_mem hc)

end Streamless

namespace Record

variable {x y q : Record} {a b : Entries} {next mid k l : Ident}

/-- The changes that a node accepts name its fields by their labels: an alias beside the label,
which is given anyway, would be unknown. -/
theorem Stable.labels_of_changes {names : List String} (hx : x.Stable) (hnamed : a.Named names)
    (hn : names.Nodup) (hy : x.evolve a next = .ok (y, mid)) :
    ∀ name ∈ names, ∃ s ∈ x.form.specs, s.field.label = name := by
  obtain ⟨val, m, -, -, ha⟩ := hx.assembled hy
  have hkeys := (x.form.named_labelled val).update hnamed hn
  have hlabel (s : FieldSpec) (hs : s ∈ x.form.specs) :
      s.field.label ∈ x.form.specs.map fun s => s.field.label :=
    List.mem_map_of_mem hs
  have hall := hkeys.label_of_known (fun s hs => List.mem_append_left _ (hlabel s hs)) ha.known
  intro name hname
  apply hall
  by_cases hmem : name ∈ x.form.specs.map fun s => s.field.label
  · exact List.mem_append_left _ hmem
  · exact List.mem_append_right _ (List.mem_filter.2 ⟨hname, by simpa using hmem⟩)

theorem Stable.get?_alias_eq_none (hx : x.Stable) (ha : a.Keywords)
    (hy : x.evolve a next = .ok (y, mid)) {s : FieldSpec} (hs : s ∈ x.form.specs) {key : String}
    (hkey : s.field.alias? = some key) : a.get? key = none := by
  obtain ⟨names, hnamed, hn⟩ := ha
  rw [hnamed.get?_eq_none_iff]
  intro hmem
  obtain ⟨t, ht, hlabel⟩ := hx.labels_of_changes hnamed hn hy key hmem
  exact x.form.alias_ne_label s hs t ht (hlabel ▸ hkey)

theorem Stable.map_fst_update_update (hx : x.Stable) (ha : a.Keywords) (hb : b.Keywords)
    (hy : x.evolve a next = .ok (y, mid)) (val val' : FieldSpec → Value) :
    (Entries.update (x.form.labelled val) b).map Prod.fst =
      (Entries.update (x.form.labelled val') (Entries.update a b)).map Prod.fst := by
  obtain ⟨names, hnamed, hn⟩ := ha
  obtain ⟨changed, hchanged, hcn⟩ := hb
  have hleft := (x.form.named_labelled val).update hchanged hcn
  have hright := (x.form.named_labelled val').update (hnamed.update hchanged hcn)
    (Entries.nodup_changed hn hcn)
  have hlabels : ∀ name ∈ names, name ∈ x.form.specs.map fun s => s.field.label := by
    intro name hname
    obtain ⟨s, hs, rfl⟩ := hx.labels_of_changes hnamed hn hy name hname
    exact List.mem_map_of_mem hs
  rw [hleft, hright]
  generalize (x.form.specs.map fun s => s.field.label) = labels at hlabels
  have hnone : names.filter (· ∉ labels) = [] :=
    List.filter_eq_nil_iff.2 fun name hname => by simpa using hlabels name hname
  have hsame : changed.filter (· ∉ labels) =
      (changed.filter (· ∉ names)).filter (· ∉ labels) := by
    rw [List.filter_filter]
    refine List.filter_congr fun name _ => ?_
    by_cases hmem : name ∈ names
    · simp [hlabels name hmem]
    · simp [hmem]
  rw [List.filter_append, hnone, List.nil_append, ← hsame]

theorem find?_update_labelled {form : Form} (val : FieldSpec → Value) (hb : b.Keywords)
    {s : FieldSpec} (hs : s ∈ form.specs) :
    s.field.find? (Entries.update (form.labelled val) b) =
      (s.field.find? b).or (some (s.field.label, val s)) := by
  rw [Field.find?_update hb fun _ hkey => Form.get?_labelled_alias val hs hkey,
    Form.find?_labelled val hs]

theorem Stable.find?_update_update (hx : x.Stable) (ha : a.Keywords) (hb : b.Keywords)
    (hy : x.evolve a next = .ok (y, mid)) (val : FieldSpec → Value) {s : FieldSpec}
    (hs : s ∈ x.form.specs) :
    s.field.find? (Entries.update (x.form.labelled val) (Entries.update a b)) =
      (s.field.find? b).or ((s.field.find? a).or (some (s.field.label, val s))) := by
  rw [find?_update_labelled val (ha.update hb) hs,
    Field.find?_update hb fun _ hkey => hx.get?_alias_eq_none ha hy hs hkey, Option.or_assoc]

/-- A field that no second change names, children apart, takes what the first evolution has stored
in it, and if both changes are made at once, what matches that. -/
theorem Stable.takes_matching (hx : x.Stable) (ha : a.Keywords) (hb : b.Keywords)
    (hy : x.evolve a next = .ok (y, mid)) {m m' : Ident} {val val' : FieldSpec → Value}
    (hval : y.Restates b k m val) (hval' : x.Restates (Entries.update a b) l m' val')
    {s : FieldSpec} (hs : s ∈ x.form.specs) (hc : s.field ≠ .children)
    (hno : s.field.find? b = none) : ∃ w,
      s.Takes x.form (checkPlace m) (Entries.update (x.form.labelled val) b) (y.get s.field) ∧
      s.Takes x.form (checkPlace m')
        (Entries.update (x.form.labelled val') (Entries.update a b)) w ∧
      s.field.Matches (y.get s.field) w := by
  obtain ⟨vals, n, -, -, hassembled⟩ := hx.assembled hy
  have hy' := hx.evolved hy
  have hsy : s ∈ y.form.specs := hy'.form_eq ▸ hs
  have hleft : s.Takes x.form (checkPlace m) (Entries.update (x.form.labelled val) b)
      (y.get s.field) := by
    have hfind := find?_update_labelled val hb hs
    rw [hno, Option.none_or, hval.kept s hsy hc] at hfind
    have hkeeps := hy'.stable.keeps s hsy hc
    rw [hy'.form_eq] at hkeeps
    exact hkeeps.takes hfind m
  have hboth := hx.find?_update_update ha hb hy val' hs
  have honce := find?_update_labelled vals ha hs
  rw [hno, Option.none_or] at hboth
  cases hfind : s.field.find? a with
  | none =>
    -- no change names the field: both ways hold what the node stores
    rw [hfind, Option.none_or, hval'.kept s hs hc] at hboth
    have hkept : y.get s.field = x.get s.field :=
      hy'.kept s hs hc (Field.find?_eq_none_iff.1 hfind)
    refine ⟨_, hleft, (hx.keeps s hs hc).takes hboth m', ?_⟩
    rw [hkept]
    exact .refl _ _
  | some p =>
    -- the first change is read once more, with other identities for a position
    rw [hfind, Option.some_or] at honce hboth
    obtain ⟨w, hw, hmatches⟩ := (hassembled.takes s hs).exists_matching hx.concrete hx.isNode hs
      (honce.trans hboth.symm) m'
    exact ⟨w, hleft, hw, hmatches⟩

theorem Stable.gathers_given (hx : x.Stable) (ha : a.Keywords) (hy : x.evolve a next = .ok (y, mid))
    {s : FieldSpec} (hs : s ∈ x.form.specs) (hc : s.field = .children) {key : String} {v : Value}
    (hfind : s.field.find? a = some (key, v)) :
    gatherChildren x.form v = .ok (.tuple (y.childNodes.map .record)) := by
  obtain ⟨val, m, -, -, hassembled⟩ := hx.assembled hy
  have hy' := hx.evolved hy
  have hb := x.form.branch_of_children s hs hc
  have honce := find?_update_labelled val ha hs
  rw [hfind, Option.some_or, hc] at honce
  obtain ⟨hmem, hget⟩ := Field.find?_eq_some honce
  obtain rfl : key = "children" := List.mem_singleton.1 hmem
  rw [← hy'.stable.get_children (hy'.form_eq ▸ hb)]
  exact hassembled.gathers hb hget

/-- Likewise for the children: what the first evolution holds is copied by the second, and matches
the nodes given by the changes or copied at once. -/
theorem Stable.takes_children (hx : x.Stable) (hxs : x.isStreamless) (ha : a.Keywords)
    (hb : b.Keywords) (has : streamlessEntries a) (hy : x.evolve a next = .ok (y, mid))
    {m m' : Ident} {val val' : FieldSpec → Value} (hval : y.Restates b k m val)
    (hval' : x.Restates (Entries.update a b) l m' val') {s : FieldSpec} (hs : s ∈ x.form.specs)
    (hc : s.field = .children) (hno : s.field.find? b = none) : ∃ v w,
      s.Takes x.form (checkPlace m) (Entries.update (x.form.labelled val) b) v ∧
      s.Takes x.form (checkPlace m')
        (Entries.update (x.form.labelled val') (Entries.update a b)) w ∧
      s.field.Matches v w := by
  have hy' := hx.evolved hy
  have hkey : "children" ∈ s.field.keys := by
    rw [hc]
    exact List.mem_singleton_self _
  have hgetb := Field.find?_eq_none_iff.1 hno _ hkey
  obtain ⟨ds, hds, hcopied⟩ :=
    hval.copied s (hy'.form_eq ▸ hs) hc (Entries.contains_eq_false_iff.2 hgetb)
  have hleft : s.Takes x.form (checkPlace m) (Entries.update (x.form.labelled val) b)
      (.tuple (ds.map .record)) := by
    have hfind := find?_update_labelled val hb hs
    rw [hno, Option.none_or, hds] at hfind
    rw [← hy'.form_eq] at hs hfind ⊢
    exact hy'.stable.takes_copies hs hc hfind hcopied
  have hboth := hx.find?_update_update ha hb hy val' hs
  rw [hno, Option.none_or] at hboth
  cases hfind : s.field.find? a with
  | none =>
    rw [hfind, Option.none_or] at hboth
    have hgeta := Field.find?_eq_none_iff.1 hfind _ hkey
    have hgetab : (Entries.update a b).get? "children" = none := by
      rw [Entries.get?_update_of_none hgetb, hgeta]
    -- the children are copied twice one way and once the other
    obtain ⟨cs, hcs, hothers⟩ :=
      hval'.copied s hs hc (Entries.contains_eq_false_iff.2 hgetab)
    have hfirst := (hy'.copied (Entries.contains_eq_false_iff.2 hgeta)).1
    rw [hcs] at hboth
    refine ⟨_, _, hleft, hx.takes_copies hs hc hboth hothers, ?_⟩
    rw [hc]
    exact Field.matches_children ((hfirst.siblings_of_copies hcopied.copies hothers.copies fun c =>
      isStreamless_childNodes hxs).imp fun _ _ => Record.Sibling.equals)
  | some p =>
    obtain ⟨key, v⟩ := p
    rw [hfind, Option.some_or] at hboth
    -- the given nodes are copied by the second evolution and stand as they are if made at once
    have hgathers := hx.gathers_given ha hy hs hc hfind
    have hv : v.isStreamless :=
      (streamlessEntries_iff.1 has _ (Entries.mem_of_get? (Field.find?_eq_some hfind).2)).2
    refine ⟨_, .tuple (y.childNodes.map .record), hleft, .given hboth ?_ ?_, ?_⟩
    · rintro ⟨-, rfl⟩
      cases hgathers
    · rw [x.form.rule_of_children s hs hc]
      exact hgathers
    · rw [hc]
      exact Field.matches_children ((hcopied.copies.siblings
        (isStreamless_of_gatherChildren hv hgathers)).imp fun _ _ => Record.Sibling.equals)

theorem Stable.read_matching (hx : x.Stable) (hxs : x.isStreamless) (ha : a.Keywords)
    (hb : b.Keywords) (has : streamlessEntries a) (hy : x.evolve a next = .ok (y, mid))
    {m m' : Ident} {val val' : FieldSpec → Value} (hval : y.Restates b k m val)
    (hval' : x.Restates (Entries.update a b) l m' val') {s : FieldSpec} (hs : s ∈ x.form.specs) :
    Outcomes Violation.Alike (Outcomes Eq s.field.Matches)
      (s.read (Rule.accept x.form (checkPlace m)) (Entries.update (x.form.labelled val) b))
      (s.read (Rule.accept x.form (checkPlace m'))
        (Entries.update (x.form.labelled val') (Entries.update a b))) := by
  cases hno : s.field.find? b with
  | some p =>
    -- the second change decides alone, whether it is accepted or refused
    have hleft := find?_update_labelled val hb hs
    have hright := hx.find?_update_update ha hb hy val' hs
    rw [hno, Option.some_or] at hleft hright
    exact FieldSpec.read_outcomes (.refl s.field) (hleft.trans hright.symm)
      (FieldSpec.accept_matching hx.isNode hs m m')
  | none =>
    have htakes : ∃ v w,
        s.Takes x.form (checkPlace m) (Entries.update (x.form.labelled val) b) v ∧
        s.Takes x.form (checkPlace m')
          (Entries.update (x.form.labelled val') (Entries.update a b)) w ∧ s.field.Matches v w := by
      by_cases hc : s.field = .children
      · exact hx.takes_children hxs ha hb has hy hval hval' hs hc hno
      · exact ⟨_, hx.takes_matching ha hb hy hval hval' hs hc hno⟩
    obtain ⟨v, w, hv, hw, hmatches⟩ := htakes
    rw [(FieldSpec.takes_iff fun _ => hx.concrete).2 hv,
      (FieldSpec.takes_iff fun _ => hx.concrete).2 hw]
    exact .ok (.ok hmatches)

theorem Stable.evolve_outcomes (hx : x.Stable) (hxs : x.isStreamless) (ha : a.Keywords)
    (hb : b.Keywords) (has : streamlessEntries a) (hy : x.evolve a next = .ok (y, mid))
    (k l : Ident) :
    Outcomes Violation.Alike (fun q r => q.1.Fieldwise Field.Matches r.1) (y.evolve b k)
      (x.evolve (Entries.update a b) l) := by
  have hy' := hx.evolved hy
  obtain ⟨val, m, hval, hleft⟩ := hy'.stable.evolve_eq b k
  obtain ⟨val', m', hval', hright⟩ := hx.evolve_eq (Entries.update a b) l
  rw [hy'.form_eq] at hleft
  rw [hleft, hright]
  refine Outcomes.map (checkWith_map_outcomes_of_keys (hx.map_fst_update_update ha hb hy val val')
    (fun s hs => ?_) (fun s hs => hx.read_matching hxs ha hb has hy hval hval' hs)
    fun q r hqr => ?_) fun _ _ h => h
  · rw [find?_update_labelled val hb hs, hx.find?_update_update ha hb hy val' hs]
    cases hfind : s.field.find? b with
    | some p => rfl
    | none =>
      cases hfind' : s.field.find? a with
      | some p =>
        obtain ⟨hmem, hget⟩ := Field.find?_eq_some hfind'
        rcases List.mem_append.1 hmem with hkey | hkey
        · have hnone := hx.get?_alias_eq_none ha hy hs (Option.mem_toList.1 hkey)
          cases hnone.symm.trans hget
        · exact congrArg some (List.mem_singleton.1 hkey).symm
      | none => rfl
  · rw [hqr.checkCoupled_eq hx.isNode]
    exact .refl .refl (fun _ => rfl) _

/-- What a stable node stores in a field equals what another one does if it is the same, or in the
case of children, if they are siblings of the children there. -/
theorem Stable.get_equals (hq : q.Stable) (hx : x.Stable) (hform : q.form = x.form) {s : FieldSpec}
    (hs : s ∈ x.form.specs) (hkept : s.field ≠ .children → q.get s.field = x.get s.field)
    (hcopied : s.field = .children → List.Forall₂ Sibling q.childNodes x.childNodes) :
    (q.get s.field).equals (x.get s.field) := by
  by_cases hc : s.field = .children
  · have hb := x.form.branch_of_children s hs hc
    rw [hc, hq.get_children (hform ▸ hb), hx.get_children hb]
    exact (Field.matches_children ((hcopied hc).imp fun _ _ => Record.Sibling.equals)).equals
  · rw [hkept hc]
    exact Value.equals_refl _

/-- Two results of changing a node in two ways: they have its form, are equal and are written alike,
and what neither change names equals what the node stores. -/
structure ChangedAlike (x : Record) (a b : Entries) (q r : Record) : Prop where
  forms : q.form = x.form ∧ r.form = x.form
  equals : q.equals r
  encode_equals : q.encode.equals r.encode
  unnamed : ∀ s ∈ x.form.specs, (∀ key ∈ s.field.keys, a.get? key = none ∧ b.get? key = none) →
    (q.get s.field).equals (x.get s.field) ∧ (r.get s.field).equals (x.get s.field)

/-- Changing a node and then changing the result has the same outcome as making both changes at
once: two nodes changed alike, or two violations of one class, with the same message and the same
errors. Which identities are new does not matter. -/
theorem WellFormed.evolve_evolve (hx : x.WellFormed) (hxs : x.isStreamless) (ha : a.Keywords)
    (hb : b.Keywords) (has : streamlessEntries a) (hy : x.evolve a next = .ok (y, mid))
    (k l : Ident) :
    Outcomes Violation.Alike (fun q r => x.ChangedAlike a b q.1 r.1) (y.evolve b k)
      (x.evolve (Entries.update a b) l) := by
  have hst := hx.stable
  have hy' := hst.evolved hy
  have hstreamless (c : Record) (hc : c ∈ x.childNodes) : c.isStreamless :=
    isStreamless_childNodes hxs hc
  refine (hst.evolve_outcomes hxs ha hb has hy k l).imp fun q r hq hr h => ?_
  obtain ⟨q, k'⟩ := q
  obtain ⟨r, l'⟩ := r
  have hq' := hy'.stable.evolved hq
  have hr' := hst.evolved hr
  have hqx : q.form = x.form := hq'.form_eq.trans hy'.form_eq
  refine ⟨⟨hqx, hr'.form_eq⟩, h.equals fun _ _ _ hvw => hvw.equals,
    h.encode_equals hq'.stable hr'.stable, fun s hs hno => ?_⟩
  have hnone (key : String) (hkey : key ∈ s.field.keys) :
      (Entries.update a b).get? key = none := by
    rw [Entries.get?_update_of_none (hno key hkey).2, (hno key hkey).1]
  have hcontains {es : Entries} (hc : s.field = .children)
      (h : ∀ key ∈ s.field.keys, es.get? key = none) : es.contains "children" = false :=
    Entries.contains_eq_false_iff.2 (h "children" (hc ▸ List.mem_singleton_self _))
  constructor
  · refine hq'.stable.get_equals hst hqx hs (fun hc => ?_) fun hc => ?_
    · rw [hq'.kept s (hy'.form_eq ▸ hs) hc fun key hkey => (hno key hkey).2,
        hy'.kept s hs hc fun key hkey => (hno key hkey).1]
    · have hfirst := (hy'.copied (hcontains hc fun key hkey => (hno key hkey).1)).1
      have hsecond := (hq'.copied (hcontains hc fun key hkey => (hno key hkey).2)).1
      exact hfirst.siblings_of_copies hsecond (.refl x.childNodes) hstreamless
  · refine hr'.stable.get_equals hst hr'.form_eq hs (fun hc => hr'.kept s hs hc hnone) fun hc => ?_
    exact (hr'.copied (hcontains hc hnone)).1.siblings hstreamless

/-- A list with one item; it is not ordered, and so may start at a negative number. -/
def countdown : Record :=
  ⟨1, .list, [(.kind, .str "list"), (.position, .null), (.metadata, .null),
    (.children, .tuple [.record ⟨0, .listItem, [(.kind, .str "listItem"), (.position, .null),
      (.metadata, .null), (.children, .tuple []), (.checked, .null), (.spread, .bool false)]⟩]),
    (.ordered, .bool false), (.start, .int (-1)), (.spread, .bool false)]⟩

/-- Ordering the list is refused because of the number it starts at, whatever else is changed
before, and accepted once that number is changed. -/
theorem evolve_evolve_countdown :
    let ordered : Entries := [(.str "ordered", .bool true)]
    let spread : Entries := [(.str "spread", .bool true)]
    let start : Entries := [(.str "start", .int 3)]
    countdown.WellFormed ∧ countdown.isStreamless ∧ ordered.Keywords ∧
    (spread.Keywords ∧ streamlessEntries spread ∧ ∃ y mid,
      countdown.evolve spread 2 = .ok (y, mid) ∧
      y.evolve ordered mid = .error (.negativeStart (.int (-1))) ∧
      Outcomes Violation.Alike (fun q r => countdown.ChangedAlike spread ordered q.1 r.1)
        (y.evolve ordered mid) (countdown.evolve (Entries.update spread ordered) 2)) ∧
    start.Keywords ∧ streamlessEntries start ∧ ∃ y mid,
      countdown.evolve start 2 = .ok (y, mid) ∧ (∃ q, y.evolve ordered mid = .ok q) ∧
      Outcomes Violation.Alike (fun q r => countdown.ChangedAlike start ordered q.1 r.1)
        (y.evolve ordered mid) (countdown.evolve (Entries.update start ordered) 2) := by
  intro ordered spread start
  have hdecode : Family.mdast.decode countdown.encode 0 = .ok (countdown, 2) := by cbv
  have hsettled : countdown.encode.Settled 0 := by
    have hencode : countdown.encode.outerRecords = [] := by cbv
    simp [Value.Settled, hencode]
  have hx : countdown.WellFormed := (load_established _ hsettled hdecode).2.node rfl
  have hxs : countdown.isStreamless := by cbv
  have hordered : ordered.Keywords := ⟨["ordered"], rfl, by decide⟩
  have hspread : spread.Keywords := ⟨["spread"], rfl, by decide⟩
  have hstart : start.Keywords := ⟨["start"], rfl, by decide⟩
  have hfirst : ∃ y mid, countdown.evolve spread 2 = .ok (y, mid) ∧
      y.evolve ordered mid = .error (.negativeStart (.int (-1))) :=
    ⟨_, _, by cbv, by cbv⟩
  have hsecond : ∃ y mid, countdown.evolve start 2 = .ok (y, mid) ∧
      ∃ q, y.evolve ordered mid = .ok q :=
    ⟨_, _, by cbv, _, by cbv⟩
  obtain ⟨y, mid, hy, hrefused⟩ := hfirst
  obtain ⟨z, last, hz, haccepted⟩ := hsecond
  exact ⟨hx, hxs, hordered,
    ⟨hspread, rfl, y, mid, hy, hrefused, hx.evolve_evolve hxs hspread hordered rfl hy mid 2⟩,
    hstart, rfl, z, last, hz, haccepted, hx.evolve_evolve hxs hstart hordered rfl hz last 2⟩

end Record

end DocTree
