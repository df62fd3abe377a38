import DocTree.Proofs.Alike
import DocTree.Proofs.Building
import DocTree.Proofs.Session
import DocTree.Proofs.Writing

/-!
Reading undoes writing. Field by field, what is written for a stored value is accepted again and
gives the value back, with new identities for the places and the nodes in it; so, by induction on
the tree, a written node is read back as a node that differs in identities only. Main statements:
`Sound.exists_renewed`, `checkPlace_dump` and `WellFormed.exists_reloaded`.
-/
namespace DocTree

namespace Record

variable {q r : Record} {es : Entries} {id : Ident}
  {place : Form → Value → Except Violation Record}

/-- The value differs in identities only from what the field stores, and is written likewise. -/
def Renews (r : Record) (s : FieldSpec) (v : Value) : Prop :=
  v.Alike (r.get s.field) ∧ s.field.written v = s.field.written (r.get s.field)

theorem Sound.rule_stores (h : r.Sound) {s : FieldSpec} (hs : s ∈ r.form.specs)
    (hne : r.get s.field ≠ .null) : s.rule.Stores r.form (r.get s.field) := by
  rcases h.stores s hs with ⟨-, hnull⟩ | hstores
  · exact absurd hnull hne
  · exact hstores

theorem Sound.written_congr (hr : r.Sound) (hq : q.Sound) (hform : q.form = r.form)
    (h : ∀ s ∈ r.form.specs, r.Renews s (q.get s.field)) : q.written = r.written := by
  rw [hr.written_eq, hq.written_eq, hform]
  refine List.filterMap_congr fun s hs => ?_
  obtain ⟨halike, hwritten⟩ := h s hs
  rw [halike.isNull_eq, hwritten]

/-- A record can be built again from entries that give, for each of its fields that is not null,
what gives the field back. -/
theorem Sound.exists_renewed (h : r.Sound) (id : Ident) {given : FieldSpec → Value}
    (hshape : r.form.isNode →
      r.form.kind?.isSome ∧ (es.contains "children" → r.form.shape = .branch))
    (hknown : unknownKeys r.form.specs es = [])
    (hfind : ∀ s ∈ r.form.specs, s.field.find? es =
      if (r.get s.field).isNull then none else some (s.field.key, given s))
    (hgives : ∀ s ∈ r.form.specs, r.get s.field ≠ .null →
      given s ≠ .null ∧ ∃ v, s.rule.Gives r.form place (given s) v ∧ r.Renews s v)
    (hcoupled : ∀ q : Record, q.Alike r → checkCoupled r.form q = .ok ()) :
    ∃ q, Assembled r.form id place es q ∧ q.Alike r ∧ q.written = r.written := by
  have htakes : ∀ s ∈ r.form.specs, ∃ v, s.Takes r.form place es v ∧ r.Renews s v := by
    intro s hs
    have hf := hfind s hs
    by_cases hnull : r.get s.field = .null
    · rw [if_pos (Value.isNull_iff.2 hnull)] at hf
      have hnullable : s.nullable := by
        rcases h.stores s hs with ⟨hn, -⟩ | hstores
        · exact hn
        · exact absurd hnull hstores.ne_null
      refine ⟨.null, .default hf (default_of_nullable hs hnullable), ?_⟩
      rw [Renews, hnull]
      exact ⟨.same .null, rfl⟩
    · rw [if_neg (mt Value.isNull_iff.1 hnull)] at hf
      obtain ⟨hne, v, hv, hrenews⟩ := hgives s hs hnull
      exact ⟨v, .given hf (fun hn => hne hn.2) hv, hrenews⟩
  have halike (q : Record) (hform : q.form = r.form)
      (hfields : q.fields.map Prod.fst = r.form.specs.map FieldSpec.field)
      (hrenews : ∀ s ∈ r.form.specs, r.Renews s (q.get s.field)) : q.Alike r :=
    alike_of_get hform hfields h.fields fun s hs => (hrenews s hs).1
  obtain ⟨q, hq, hrenews⟩ := exists_assembled id hshape hknown htakes
    fun q hform hfields hrenews => hcoupled q (halike q hform hfields hrenews)
  have hqr : q.Alike r := halike q hq.form_eq hq.fields hrenews
  exact ⟨q, hq, hqr, h.written_congr (h.of_alike hqr) hq.form_eq hrenews⟩

end Record

section Gives

variable {form : Form} {place : Form → Value → Except Violation Record}

theorem Rule.Stores.gives {rule : Rule} {v : Value} (h : rule.Stores form v)
    (place : Form → Value → Except Violation Record) (hp : ∀ f, rule ≠ .place f)
    (hc : rule ≠ .children) :
    rule.Gives form place v v ∧ ∀ p, v ≠ .record p := by
  cases rule with
  | place f => exact absurd rfl (hp f)
  | children => exact absurd rfl hc
  | properties =>
    obtain ⟨es, rfl, hes⟩ := h
    exact ⟨gatherProperties_of_isProperty hes, nofun⟩
  | kind =>
    obtain ⟨kind, hk, rfl⟩ := h
    exact ⟨⟨rfl, kind, hk, rfl⟩, nofun⟩
  | text | integer | metadata =>
    obtain ⟨x, rfl, hx⟩ := h
    exact ⟨⟨rfl, x, rfl, hx⟩, nofun⟩
  | flag =>
    obtain ⟨b, rfl⟩ := h
    exact ⟨⟨rfl, b, rfl⟩, nofun⟩

theorem Rule.Stores.exists_record {f : Form} {v : Value} (h : (Rule.place f).Stores form v) :
    ∃ p, v = .record p := by
  cases f with
  | position =>
    obtain ⟨id, first, last, p, q, rfl, -⟩ := h
    exact ⟨_, rfl⟩
  | _ =>
    obtain ⟨p, ⟨id, rfl⟩, -⟩ := h
    exact ⟨_, rfl⟩

/-- What is written for a field, its children apart, gives the field back; `hplace` says so of
places. -/
theorem Record.Sound.gives_written {r : Record} {s : FieldSpec} (h : r.Sound)
    (hs : s ∈ r.form.specs) (hne : r.get s.field ≠ .null) (hc : s.field ≠ .children)
    (hplace : ∀ f p, s.rule = .place f → r.get s.field = .record p →
      ∃ q, place f p.dump = .ok q ∧ q.Alike p ∧ q.dump = p.dump) :
    s.field.written (r.get s.field) ≠ .null ∧
      ∃ v, s.rule.Gives r.form place (s.field.written (r.get s.field)) v ∧ r.Renews s v := by
  have hstores := h.rule_stores hs hne
  have hrecord (p : Record) : s.field.written (.record p) = p.dump := by
    rw [Field.written, if_neg hc]
  by_cases hp : ∃ f, s.rule = .place f
  · obtain ⟨f, hf⟩ := hp
    rw [hf] at hstores ⊢
    obtain ⟨p, hpv⟩ := hstores.exists_record
    obtain ⟨q, hq, halike, hdump⟩ := hplace f p hf hpv
    unfold Record.Renews
    rw [hpv, hrecord]
    refine ⟨?_, .record q, ⟨q, hq, rfl⟩, .record halike, by rw [hrecord, hdump]⟩
    obtain ⟨id, form, fields⟩ := p
    simp [Record.dump]
  · have hchildren : s.rule ≠ .children := mt (r.form.field_of_rule s hs).2 hc
    obtain ⟨hgives, hnot⟩ := hstores.gives place (fun f hf => hp ⟨f, hf⟩) hchildren
    have hw : s.field.written (r.get s.field) = r.get s.field := by
      rw [Field.written, if_neg hc]
      exact hnot
    rw [hw]
    exact ⟨hne, _, hgives, .same _, rfl⟩

end Gives

section Places

variable {v : Value} {r : Record}

theorem Value.IsPointAt.sound {p : Place} (h : (Value.record r).IsPointAt p) :
    r.Sound ∧ r.form = .point := by
  obtain ⟨⟨id, hr⟩, hl, hc, ho⟩ := h
  obtain rfl := Value.record.inj hr
  refine ⟨⟨rfl, ?_, by rintro ⟨⟩⟩, rfl⟩
  simp only [Form.specs, Form.isNode, Form.ownSpecs, Bool.false_eq_true, if_false,
    List.forall_mem_cons, List.not_mem_nil, false_implies, implies_true, and_true]
  refine ⟨.inr ⟨p.line, rfl, by simpa using hl, by simp⟩,
    .inr ⟨p.column, rfl, by simpa using hc, by simp⟩, ?_⟩
  obtain ⟨line, column, _ | offset⟩ := p
  · exact .inl ⟨rfl, rfl⟩
  · exact .inr ⟨offset, rfl, by simpa using ho, by simp⟩

theorem Value.IsPosition.sound (h : (Value.record r).IsPosition) :
    r.Sound ∧ r.form = .position := by
  obtain ⟨id, first, last, p, q, hr, hp, hq, -⟩ := h
  obtain rfl := Value.record.inj hr
  refine ⟨⟨rfl, ?_, by rintro ⟨⟩⟩, rfl⟩
  simp only [Form.specs, Form.isNode, Form.ownSpecs, Bool.false_eq_true, if_false,
    List.forall_mem_cons, List.not_mem_nil, false_implies, implies_true, and_true]
  exact ⟨.inr ⟨p, hp⟩, .inr ⟨q, hq⟩⟩

theorem checkWith_dump (id : Ident) (place : Form → Value → Except Violation Record)
    (h : r.Sound) (hn : r.form.isNode = false)
    (hplace : ∀ s ∈ r.form.specs, ∀ f p, s.rule = .place f → r.get s.field = .record p →
      ∃ q, place f p.dump = .ok q ∧ q.Alike p ∧ q.dump = p.dump)
    (hcoupled : ∀ q : Record, q.Alike r → checkCoupled r.form q = .ok ()) :
    ∃ q, checkWith r.form id place r.dump = .ok q ∧ q.Alike r ∧ q.dump = r.dump := by
  have hgives : ∀ s ∈ r.form.specs, r.get s.field ≠ .null →
      s.field.written (r.get s.field) ≠ .null ∧ ∃ v,
        s.rule.Gives r.form place (s.field.written (r.get s.field)) v ∧ r.Renews s v :=
    fun s hs hne => h.gives_written hs hne (r.form.label_eq_key hn s hs).2 (hplace s hs)
  obtain ⟨q, hq, halike, hwritten⟩ := h.exists_renewed id (by simp [hn])
    h.unknownKeys_written (fun s hs => h.find?_written hs) hgives hcoupled
  have hdump : q.dump = r.dump := by
    rw [h.dump_eq hn, (h.of_alike halike).dump_eq (by rw [halike.form_eq, hn]), hwritten]
  rw [h.dump_eq hn] at hdump ⊢
  exact ⟨q, checkWith_map_eq_ok_iff.2 hq, halike, hdump⟩

theorem checkPoint_dump {p : Place} (h : (Value.record r).IsPointAt p) (id : Ident) :
    ∃ q, checkPoint id r.dump = .ok q ∧ q.Alike r ∧ q.dump = r.dump := by
  obtain ⟨hsound, hform⟩ := h.sound
  have hnone : ∀ s ∈ r.form.specs, ∀ f, s.rule ≠ .place f := by
    rw [hform]
    exact Form.not_place_of_point
  have hdump := checkWith_dump id (fun form _ => .error (.badFields form [])) hsound
    (by rw [hform]; rfl) (fun s hs f _ hf => absurd hf (hnone s hs f))
    (fun q _ => by rw [hform]; rfl)
  rwa [hform] at hdump

theorem checkPlace_dump (h : (Value.record r).IsPosition) (id : Ident) :
    ∃ q, checkPlace id .position r.dump = .ok q ∧ q.Alike r ∧ q.dump = r.dump := by
  obtain ⟨hsound, hform⟩ := h.sound
  have hdump := checkWith_dump id (fun _ => checkPoint id) hsound
    (by rw [hform]; rfl) ?_ ?_
  · rwa [hform] at hdump
  · intro s hs f p hf hp
    have hpoint : ∃ spot, (Value.record p).IsPointAt spot := by
      have hstores := hsound.stores s hs
      rw [hp] at hstores
      rw [hform] at hs
      simp only [Form.specs, Form.isNode, Form.ownSpecs, Bool.false_eq_true, if_false,
        List.mem_cons, List.not_mem_nil, or_false] at hs
      rcases hs with rfl | rfl <;>
        exact hstores.resolve_left fun hnull => by simp at hnull
    obtain ⟨spot, hspot⟩ := hpoint
    exact checkPoint_dump hspot id
  · intro q hq
    rw [hform]
    obtain ⟨id, first, last, p, p', he, hp, hp', ho⟩ := h.of_alike (.record hq)
    obtain rfl := Value.record.inj he
    refine (checkCoupled_position_iff (p := p) (q := p') ?_ ?_).2 ho
    · exact hp
    · exact hp'

end Places

theorem Form.find?_registry {form : Form} {kind : String} (h : form.kind? = some kind) :
    form.family.registry.find? kind = some form := by
  cases form <;> cases h <;> rfl

namespace Record

variable {q r : Record} {id next mid : Ident} {place : Form → Value → Except Violation Record}

theorem Sound.formOf?_written (h : r.Sound) (hn : r.form.isNode) :
    r.form.family.registry.formOf? r.written = some r.form := by
  obtain ⟨kind, hkind, hget⟩ := h.kind_eq hn
  have htype : Entries.get? r.written "type" = some (.str kind) := by
    have hw := h.get?_written (Form.kind_mem_specs hn) (by rw [hget]; nofun)
    rw [hget] at hw
    exact hw
  rw [Registry.formOf?, htype]
  exact Form.find?_registry hkind

theorem Sound.get?_children_written (h : r.Sound) (hb : r.form.shape = .branch) :
    Entries.get? r.written "children" = some (.list (encodeItems r.children)) := by
  have hw := h.get?_written (Form.children_mem_specs hb) (by
    change r.get .children ≠ .null
    rw [h.children_eq hb]
    nofun)
  change Entries.get? r.written "children" = some (Field.children.written (r.get .children)) at hw
  rw [hw, h.children_eq hb]
  rfl

def loadedField (r : Record) (rs : List Record) (s : FieldSpec) : Value :=
  if s.field = .children then .list (rs.map .record) else s.field.written (r.get s.field)

theorem Sound.find?_loaded (h : r.Sound) (rs : List Record) {s : FieldSpec}
    (hs : s ∈ r.form.specs) : s.field.find? (Entries.withChildren r.written rs) =
      if (r.get s.field).isNull then none else some (s.field.key, r.loadedField rs s) := by
  by_cases hc : s.field = .children
  · have hb := r.form.branch_of_children s hs hc
    have hcontains := Entries.contains_of_get? (h.get?_children_written hb)
    rw [loadedField, if_pos hc, hc, h.children_eq hb, Field.find?_withChildren_children hcontains]
    rfl
  · rw [loadedField, if_neg hc, Field.find?_withChildren hc, h.find?_written hs]

theorem Sound.gives_loaded (h : r.Sound) (hn : r.form.isNode) {rs : List Record}
    (halike : AlikeItems (rs.map .record) r.children)
    (hwritten : encodeItems (rs.map .record) = encodeItems r.children)
    (hfit : ∀ v ∈ r.children, FitsUnder r.form v) (hfresh : Fresh next mid rs)
    (hwalk : ∀ c ∈ rs, c.Walkable) {s : FieldSpec}
    (hs : s ∈ r.form.specs) (hne : r.get s.field ≠ .null) : r.loadedField rs s ≠ .null ∧
      ∃ v, s.rule.Gives r.form (checkPlace mid) (r.loadedField rs s) v ∧ r.Renews s v := by
  by_cases hc : s.field = .children
  · have hb := r.form.branch_of_children s hs hc
    have hfits : ∀ c ∈ rs, FitsUnder r.form (.record c) :=
      List.forall_mem_map.1 (halike.fitsUnder hfit)
    unfold Renews
    rw [loadedField, if_pos hc, r.form.rule_of_children s hs hc, hc, h.children_eq hb]
    exact ⟨by simp, .tuple (rs.map .record), gatherChildren_of_fresh rfl hfresh hwalk hfits,
      .tuple halike, congrArg Value.list hwritten⟩
  · rw [loadedField, if_neg hc]
    apply h.gives_written hs hne hc
    intro f p hf hp
    obtain rfl := Form.position_of_place hs hn hf
    have hposition : (Value.record p).IsPosition := by
      have hstores := h.rule_stores hs hne
      rwa [hf, hp] at hstores
    exact checkPlace_dump hposition mid

theorem Sound.exists_rebuilt (h : r.Sound) (hn : r.form.isNode) {rs : List Record}
    (halike : AlikeItems (rs.map .record) r.children)
    (hwritten : encodeItems (rs.map .record) = encodeItems r.children)
    (hfit : ∀ v ∈ r.children, FitsUnder r.form v) (hfresh : Fresh next mid rs)
    (hwalk : ∀ c ∈ rs, c.Walkable) :
    ∃ q, Assembled r.form mid (checkPlace mid) (Entries.withChildren r.written rs) q ∧
      q.Alike r ∧ q.written = r.written := by
  refine h.exists_renewed mid (fun _ => ⟨?_, fun hc => ?_⟩)
    ((unknownKeys_withChildren _ rs).trans h.unknownKeys_written) (fun s hs => h.find?_loaded rs hs)
    (fun s hs hne => h.gives_loaded hn halike hwritten hfit hfresh hwalk hs hne) fun q hq => ?_
  · obtain ⟨kind, hkind, -⟩ := h.kind_eq hn
    rw [hkind]
    rfl
  · rw [Entries.contains_withChildren] at hc
    exact h.contains_written hc
  · have hsound := h.of_alike hq
    have hform := hq.form_eq
    have hp := Form.ne_position_of_isNode hn
    exact (checkCoupled_iff hp (hform ▸ hsound.stores)).2 (hform ▸ hsound.start)

structure Reloads (family : Family) (x y : Record) (next next' : Ident) : Prop where
  decoded : family.decode x.encode next = .ok (y, next')
  alike : y.Alike x
  encode_eq : y.encode = x.encode
  fresh : Fresh next next' [y]
  walkable : y.Walkable

theorem exists_reloaded_items {family : Family} (cs : List Record)
    (h : ∀ c ∈ cs, ∀ next, ∃ y next', Reloads family c y next next') (next : Ident) :
    ∃ rs next', loadItems family.registry family.name (encodeItems (cs.map .record)) next =
        .ok (rs.map .record, next') ∧
      AlikeItems (rs.map .record) (cs.map .record) ∧
        encodeItems (rs.map .record) = encodeItems (cs.map .record) ∧ Fresh next next' rs ∧
          ∀ r ∈ rs, r.Walkable := by
  induction cs generalizing next with
  | nil =>
    have hnil : encodeItems [] = [] := by rw [encodeItems]
    refine ⟨[], next, ?_, .nil, rfl, Fresh.nil, by simp⟩
    rw [List.map_nil, hnil, loadItems]
    rfl
  | cons c cs ih =>
    obtain ⟨hc, hcs⟩ := List.forall_mem_cons.1 h
    obtain ⟨y, mid, hy⟩ := hc next
    obtain ⟨rs, last, hrs, halike, hencode, hfresh, hwalk⟩ := ih hcs mid
    have hnode : c.encode.node? = none := by
      obtain ⟨id, form, fields⟩ := c
      rw [encode]
      rfl
    have hitem : loadItem family.registry family.name c.encode next = .ok (y, mid) :=
      loadItem_eq_ok_iff.2 (.inr ⟨hnode, hy.decoded⟩)
    refine ⟨y :: rs, last, ?_, .cons (.record hy.alike) halike, ?_, hy.fresh.cons hfresh,
      List.forall_mem_cons.2 ⟨hy.walkable, hwalk⟩⟩
    · rw [List.map_cons, encodeItems]
      exact loadItems_cons_eq_ok_iff.2 ⟨y, mid, _, hitem, hrs, rfl⟩
    · rw [List.map_cons, List.map_cons, encodeItems, encodeItems, hy.encode_eq, hencode]

theorem Sound.loadEntries_written (h : r.Sound) {forms : Registry} {name : String}
    {rs : List Record}
    (hitems : loadItems forms name (encodeItems r.children) next = .ok (rs.map .record, mid)) :
    loadEntries forms name r.form r.written next = .ok (Entries.withChildren r.written rs, mid) := by
  by_cases hb : r.form.shape = .branch
  · rw [loadEntries, if_pos hb]
    exact (loadChildren_eq_ok_iff (h.get?_children_written hb) (.inl rfl)).2 ⟨rs, hitems, rfl⟩
  · have hnone : Entries.get? r.written "children" = none := by
      cases hget : Entries.get? r.written "children" with
      | none => rfl
      | some v => exact absurd (h.contains_written (Entries.contains_of_get? hget)) hb
    have hempty : r.children = [] := by simp [children, isBranch, hb]
    rw [hempty, encodeItems, loadItems] at hitems
    obtain ⟨-, rfl⟩ := Build.pure_eq_ok_iff.1 hitems
    rw [loadEntries, if_neg hb, Entries.withChildren_of_get?_none hnone]
    rfl

theorem Sound.childNodes_rebuilt (h : r.Sound) {rs : List Record}
    (halike : AlikeItems (rs.map .record) r.children)
    (hq : Assembled r.form id place (Entries.withChildren r.written rs) q) : q.childNodes = rs := by
  by_cases hb : r.form.shape = .branch
  · have hcontains := Entries.contains_of_get? (h.get?_children_written hb)
    exact hq.childNodes_eq hb (Entries.get?_withChildren_children hcontains) rfl
  · have hempty : r.children = [] := by simp [children, isBranch, hb]
    have hnodes : q.childNodes = [] := by simp [childNodes, children, isBranch, hq.form_eq, hb]
    rw [hempty] at halike
    cases rs with
    | nil => exact hnodes
    | cons c rs => cases halike

/-- Induction on the tree: the children are read back before the node that holds them. -/
theorem WellFormed.exists_reloaded {x : Record} (h : x.WellFormed) (next : Ident) :
    ∃ y next', Reloads x.form.family x y next next' := by
  have hself : x ∈ x.preorder := mem_preorder_iff.2 (.inl rfl)
  have hsound := h.sound x hself
  have hchildren : ∀ c ∈ x.childNodes, ∀ next, ∃ y next',
      Reloads x.form.family c y next next' := by
    intro c hc next
    have hfamily : c.form.family = x.form.family := by
      have hmem : .record c ∈ x.children := by
        rw [h.children_eq]
        exact List.mem_map_of_mem hc
      obtain ⟨c', kind, he, -, hf, -⟩ := h.edges x hself _ hmem
      rwa [Value.record.inj he]
    rw [← hfamily]
    exact (h.childNode hc).exists_reloaded next
  obtain ⟨rs, mid, hitems, halike, hencode, hfresh, hwalk⟩ :=
    exists_reloaded_items x.childNodes hchildren next
  rw [← h.children_eq] at hitems halike hencode
  obtain ⟨y, hy, hyx, hwritten⟩ :=
    hsound.exists_rebuilt h.isNode halike hencode (h.edges x hself) hfresh hwalk
  have hnodes : y.childNodes = rs := hsound.childNodes_rebuilt halike hy
  have hcreated : create x.form (.map (Entries.withChildren x.written rs)) mid = .ok (y, mid + 1) :=
    create_eq_ok_iff.2 ⟨checkWith_map_eq_ok_iff.2 hy, rfl⟩
  refine ⟨y, mid + 1, ?_, hyx, ?_, Fresh.node hy.ident (hnodes ▸ hfresh),
    hy.walkable (hnodes ▸ hwalk)⟩
  · rw [hsound.encode_eq]
    exact load_map_eq_ok_iff.2 ⟨x.form, _, mid, hsound.formOf?_written h.isNode,
      hsound.loadEntries_written hitems, hcreated⟩
  · rw [hsound.encode_eq, (hsound.of_alike hyx).encode_eq, hwritten]
termination_by x.count
decreasing_by exact count_lt_of_mem_childNodes hc

/-- A well-formed node is read back from what is written for it, in its family and with identities
from `next` on. It comes back the same but for the identities: it is equal to the node, is
written in the same way, and shares no node with it. -/
theorem WellFormed.decode_encode {x : Record} (h : x.WellFormed) {next : Ident}
    (hnext : ∀ n ∈ x.walk, n.id < next) :
    ∃ y next', x.form.family.decode x.encode next = .ok (y, next') ∧ y.Alike x ∧ y.equals x ∧
      y.encode = x.encode ∧ ∀ n ∈ y.walk, ∀ m ∈ x.walk, n.id ≠ m.id := by
  obtain ⟨y, next', hy⟩ := h.exists_reloaded next
  refine ⟨y, next', hy.decoded, hy.alike, hy.alike.equals, hy.encode_eq, fun n hn m hm => ?_⟩
  rw [walk_eq_preorder] at hn
  have hwithin : next ≤ n.id := (hy.fresh.within n (by simpa using hn)).1
  exact Nat.ne_of_gt (Nat.lt_of_lt_of_le (hnext m hm) hwithin)

def notedParagraph : Record :=
  ⟨1, .paragraph, [(.kind, .str "paragraph"),
    (.position, .record ⟨1, .position,
      [(.start, .record ⟨1, .point, [(.line, .int 1), (.column, .int 1), (.offset, .int 0)]⟩),
        (.stop, .record ⟨1, .point, [(.line, .int 1), (.column, .int 5), (.offset, .null)]⟩)]⟩),
    (.metadata, .map []),
    (.children, .tuple [.record ⟨0, .mdastText, [(.kind, .str "text"), (.position, .null),
      (.metadata, .null), (.value, .str "x")]⟩])]⟩

theorem decode_encode_notedParagraph :
    notedParagraph.WellFormed ∧ (∀ n ∈ notedParagraph.walk, n.id < 2) ∧
      ∃ y next', Family.mdast.decode notedParagraph.encode 2 = .ok (y, next') ∧
        y.Alike notedParagraph ∧ y.equals notedParagraph ∧ y.encode = notedParagraph.encode ∧
          ∀ n ∈ y.walk, ∀ m ∈ notedParagraph.walk, n.id ≠ m.id := by
  have hdecode : Family.mdast.decode notedParagraph.encode 0 = .ok (notedParagraph, 2) := by
    cbv
  have hsettled : notedParagraph.encode.Settled 0 := by
    have hencode : notedParagraph.encode.outerRecords = [] := by cbv
    simp [Value.Settled, hencode]
  have hest := (load_established _ hsettled hdecode).2
  have hwf := hest.node rfl
  have hids : ∀ n ∈ notedParagraph.walk, n.id < 2 := by
    rw [walk_eq_preorder]
    exact hest.used rfl
  exact ⟨hwf, hids, hwf.decode_encode hids⟩

end Record

end DocTree
