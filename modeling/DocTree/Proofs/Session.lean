import Mathlib
import DocTree.Proofs.Building

/-!
Everything that sessions build is well-formed. Each operation makes an established record out of
established ones and never uses an identity again, so the records of a pool stay established as
the session goes on. Main statements: `load_established`, `evolve_established`,
`convert_established` and `Session.established`.
-/
namespace DocTree

/-- All records that stand in the value are established. -/
def Value.Settled (next : Ident) (v : Value) : Prop :=
  ∀ q ∈ v.outerRecords, q.Established next

def Entries.Settled (next : Ident) (es : Entries) : Prop :=
  ∀ q ∈ outerRecordsOfEntries es, q.Established next

section Settled

variable {next next' : Ident}

theorem Value.Settled.mono {v : Value} (h : v.Settled next) (hle : next ≤ next') :
    v.Settled next' :=
  fun q hq => (h q hq).mono hle

theorem Entries.Settled.mono {es : Entries} (h : Entries.Settled next es) (hle : next ≤ next') :
    Entries.Settled next' es :=
  fun q hq => (h q hq).mono hle

theorem settled_list {xs : List Value} :
    (Value.list xs).Settled next ↔ ∀ x ∈ xs, x.Settled next := by
  simp only [Value.Settled, Value.outerRecords, mem_outerRecordsOfItems]
  refine ⟨fun h x hx q hq => h q ⟨x, hx, hq⟩, ?_⟩
  rintro h q ⟨x, hx, hq⟩
  exact h x hx q hq

theorem Entries.settled_cons {e : Value × Value} {es : Entries} :
    Entries.Settled next (e :: es) ↔
      e.1.Settled next ∧ e.2.Settled next ∧ Entries.Settled next es := by
  simp only [Entries.Settled, Value.Settled, outerRecordsOfEntries, List.mem_append, or_imp,
    forall_and, and_assoc]

@[simp] theorem Entries.settled_nil : Entries.Settled next [] := by
  simp [Entries.Settled, outerRecordsOfEntries]

@[simp] theorem Value.settled_str {s : String} : (Value.str s).Settled next := by
  simp [Value.Settled, Value.outerRecords]

@[simp] theorem Value.settled_record {r : Record} :
    (Value.record r).Settled next ↔ r.Established next := by
  simp [Value.Settled, Value.outerRecords]

theorem create_established {form : Form} {v : Value} {r : Record} (hv : v.Settled next)
    (h : create form v next = .ok (r, next')) : next ≤ next' ∧ r.Established next' := by
  obtain ⟨hr, rfl⟩ := create_eq_ok_iff.1 h
  exact ⟨Nat.le_succ next, check_established (usable_of_outerRecords hv) hr⟩

theorem Entries.settled_append {es fs : Entries} :
    Entries.Settled next (es ++ fs) ↔ Entries.Settled next es ∧ Entries.Settled next fs := by
  induction es with
  | nil => simp
  | cons e es ih => simp only [List.cons_append, settled_cons, ih, and_assoc]

end Settled

section Load

variable {forms : Registry} {family : String}

mutual

theorem load_established (v : Value) {r : Record} {next next' : Ident} (hv : v.Settled next)
    (h : load forms family v next = .ok (r, next')) : next ≤ next' ∧ r.Established next' := by
  cases v with
  | map es =>
    obtain ⟨form, loaded, mid, -, hl, hc⟩ := load_map_eq_ok_iff.1 h
    have hstep : next ≤ mid ∧ Entries.Settled mid loaded := by
      unfold loadEntries at hl
      split at hl
      · exact loadChildren_settled es hv hl
      · obtain ⟨rfl, rfl⟩ := Build.pure_eq_ok_iff.1 hl
        exact ⟨Nat.le_refl next, hv⟩
    obtain ⟨hle, hr⟩ := create_established (v := .map loaded) hstep.2 hc
    exact ⟨Nat.le_trans hstep.1 hle, hr⟩
  | _ => cases h
termination_by 2 * sizeOf v

theorem loadChildren_settled (es : Entries) {loaded : Entries} {next next' : Ident}
    (he : Entries.Settled next es) (h : loadChildren forms family es next = .ok (loaded, next')) :
    next ≤ next' ∧ Entries.Settled next' loaded := by
  rcases loadChildren_cases forms family es with
    ⟨-, hl⟩ | ⟨before, v, after, xs, rfl, -, hv, hl⟩
  · rw [hl] at h
    obtain ⟨rfl, rfl⟩ := Build.pure_eq_ok_iff.1 h
    exact ⟨Nat.le_refl next, he⟩
  · rw [hl] at h
    obtain ⟨nodes, mid, hn, hp⟩ := Build.bind_eq_ok_iff.1 h
    obtain ⟨rfl, rfl⟩ := Build.pure_eq_ok_iff.1 hp
    obtain ⟨hbefore, hcons⟩ := Entries.settled_append.1 he
    obtain ⟨hkey, hval, hafter⟩ := Entries.settled_cons.1 hcons
    have hxs : ∀ x ∈ xs, x.Settled next := by
      rcases hv with rfl | rfl <;> exact settled_list.1 hval
    have hmem : (.str "children", v) ∈ before ++ (.str "children", v) :: after := by simp
    have hlt := sizeOf_items_lt hmem hv
    obtain ⟨hle, hnodes⟩ := loadItems_settled xs hxs hn
    exact ⟨hle, Entries.settled_append.2 ⟨hbefore.mono hle,
      Entries.settled_cons.2 ⟨hkey.mono hle, settled_list.2 hnodes, hafter.mono hle⟩⟩⟩
termination_by 2 * sizeOf es + 1

theorem loadItems_settled (xs : List Value) {nodes : List Value} {next next' : Ident}
    (hx : ∀ x ∈ xs, x.Settled next) (h : loadItems forms family xs next = .ok (nodes, next')) :
    next ≤ next' ∧ ∀ y ∈ nodes, y.Settled next' := by
  cases xs with
  | nil =>
    rw [loadItems] at h
    obtain ⟨rfl, rfl⟩ := Build.pure_eq_ok_iff.1 h
    simp
  | cons x xs =>
    obtain ⟨r, mid, rest, hr, hrest, rfl⟩ := loadItems_cons_eq_ok_iff.1 h
    obtain ⟨hfirst, hothers⟩ := List.forall_mem_cons.1 hx
    have hstep : next ≤ mid ∧ r.Established mid := by
      rcases loadItem_eq_ok_iff.1 hr with ⟨⟨rfl, -⟩, rfl⟩ | ⟨-, hr⟩
      · exact ⟨Nat.le_refl next, Value.settled_record.1 hfirst⟩
      · exact load_established x hfirst hr
    obtain ⟨hle, hnodes⟩ := loadItems_settled xs (fun y hy => (hothers y hy).mono hstep.1) hrest
    exact ⟨Nat.le_trans hstep.1 hle, List.forall_mem_cons.2
      ⟨Value.settled_record.2 (hstep.2.mono hle), hnodes⟩⟩
termination_by 2 * sizeOf xs

end

end Load

section Evolve

variable {r r' : Record} {next next' : Ident}

theorem Value.IsProperty.settled {v : Value} (h : v.IsProperty) : v.Settled next := by
  cases h with
  | list hxs =>
    refine settled_list.2 fun x hx => ?_
    rcases hxs x hx with ⟨n, rfl⟩ | ⟨y, rfl⟩ | ⟨s, rfl⟩ <;>
      simp [Value.Settled, Value.outerRecords]
  | _ => simp [Value.Settled, Value.outerRecords]

theorem Record.Placed.established {q : Record} (hq : q.Placed) (hf : q.form.isNode = false) :
    q.Established next :=
  ⟨hq, by simp [hf], by simp [hf]⟩

theorem Record.placed_of_isNode {q : Record} (hn : q.form.isNode) : q.Placed := by
  constructor <;> intro hf <;> simp [hf, Form.isNode] at hn

theorem Rule.Stores.settled {form : Form} {rule : Rule} {v : Value} (h : rule.Stores form v)
    (hm : rule ≠ .metadata) (hc : rule ≠ .children) : v.Settled next := by
  cases rule with
  | kind =>
    obtain ⟨kind, -, rfl⟩ := h
    exact Value.settled_str
  | text =>
    obtain ⟨s, rfl, -⟩ := h
    exact Value.settled_str
  | integer =>
    obtain ⟨n, rfl, -⟩ := h
    simp [Value.Settled, Value.outerRecords]
  | flag =>
    obtain ⟨b, rfl⟩ := h
    simp [Value.Settled, Value.outerRecords]
  | metadata => exact absurd rfl hm
  | place f =>
    have hpoint {v : Value} (hv : ∃ p, v.IsPointAt p) : v.Settled next := by
      obtain ⟨p, hp⟩ := id hv
      obtain ⟨⟨id, rfl⟩, -⟩ := hp
      exact Value.settled_record.2 (Record.Placed.established ⟨fun _ => hv, by simp⟩ rfl)
    cases f with
    | position =>
      have hposition : v.IsPosition := h
      obtain ⟨id, first, last, p, q, rfl, -⟩ := h
      exact Value.settled_record.2 (Record.Placed.established ⟨by simp, fun _ => hposition⟩ rfl)
    | _ => exact hpoint h
  | children => exact absurd rfl hc
  | properties =>
    obtain ⟨es, rfl, hall⟩ := h
    intro q hq
    obtain ⟨e, he, hq⟩ := mem_outerRecordsOfEntries.1 hq
    obtain ⟨⟨t, ht⟩, hp⟩ := hall e he
    rcases hq with hq | hq
    · simp [ht, Value.outerRecords] at hq
    · exact hp.settled q hq

/-- Of all that a node stores, only its children are nodes; metadata may hold anything. -/
theorem Record.Sound.settled (h : r.Sound) {s : FieldSpec} (hs : s ∈ r.form.specs)
    (hm : s.field ≠ .metadata) (hc : s.field ≠ .children) : (r.get s.field).Settled next := by
  obtain ⟨hmeta, hchild⟩ := r.form.field_of_rule s hs
  rcases h.stores s hs with ⟨-, hnull⟩ | hv
  · simp [hnull, Value.Settled, Value.outerRecords]
  · exact hv.settled (mt hmeta hm) (mt hchild hc)

theorem Record.Established.place {q : Record} {f : Field} (h : r.Established next)
    (hf : f ∈ [.position, .start, .stop]) (hq : r.get f = .record q) : q.Established next := by
  by_cases hn : r.form.isNode
  · have hsound := (h.node hn).sound r (Record.mem_preorder_iff.2 (.inl rfl))
    obtain ⟨s, hs, rfl⟩ := hsound.exists_spec (f := f) (by simp [hq])
    have hsettled : (r.get s.field).Settled next :=
      hsound.settled hs (fun he => by simp [he] at hf) fun he => by simp [he] at hf
    rw [hq] at hsettled
    exact Value.settled_record.1 hsettled
  · have hform : r.form = .point ∨ r.form = .position := by
      cases hr : r.form <;> simp [hr, Form.isNode] at hn ⊢
    rcases hform with hr | hr
    · obtain ⟨p, hp⟩ := h.point hr
      obtain ⟨⟨id, he⟩, -⟩ := hp
      obtain rfl := Value.record.inj he
      simp only [List.mem_cons, List.not_mem_nil, or_false] at hf
      rcases hf with rfl | rfl | rfl <;> cases hq
    · obtain ⟨id, first, last, p, p', he, hp, hp', -⟩ := h.position hr
      obtain rfl := Value.record.inj he
      simp only [List.mem_cons, List.not_mem_nil, or_false] at hf
      have hpoint {v : Value} {p : Place} (hv : v.IsPointAt p) : v.Settled next := by
        have hstores : (Rule.place .point).Stores .position v := ⟨p, hv⟩
        exact hstores.settled (by simp) (by simp)
      rcases hf with rfl | rfl | rfl
      · cases hq
      · obtain rfl : first = .record q := hq
        exact Value.settled_record.1 (hpoint hp)
      · obtain rfl : last = .record q := hq
        exact Value.settled_record.1 (hpoint hp')

theorem copies_settled {cs : List Record} {copies : List Value} (hcs : ∀ c ∈ cs, c.WellFormed)
    (h : ((cs.map .record).mapM Value.copyMember : Build (List Value)) next = .ok (copies, next')) :
    next ≤ next' ∧ ∀ y ∈ copies, y.Settled next' := by
  obtain ⟨ds, mid, hds, hcopied⟩ := exists_copies cs next
  obtain ⟨rfl, rfl⟩ := Prod.mk.inj (Except.ok.inj (hds.symm.trans h))
  have hfresh := hcopied.fresh fun c hc => (hcs c hc).distinct
  refine ⟨hcopied.le, List.forall_mem_map.2 fun d hd => Value.settled_record.2 ?_⟩
  have hwf : d.WellFormed := hcopied.copies.wellFormed hcs d hd
  have hids : ∀ n ∈ d.preorder, n.id < mid := fun n hn =>
    (hfresh.within n (List.mem_flatMap.2 ⟨d, hd, hn⟩)).2
  exact ⟨Record.placed_of_isNode hwf.isNode, fun _ => hwf, fun _ => hids⟩

/-- The entries to which changes are applied are settled, except that the children may be those of
the node itself if they are changed anyway. -/
theorem baseEntries_settled {changes fields : Entries} (hr : r.Established next)
    (hn : r.form.isNode) (h : r.baseEntries changes next = .ok (fields, next')) :
    next ≤ next' ∧ ∀ key v, (.str key, v) ∈ fields → key ∉ Field.metadata.keys →
      (key = "children" → changes.contains "children" = false) → v.Settled next' := by
  have hwf := hr.node hn
  have hsound := hwf.sound r (Record.mem_preorder_iff.2 (.inl rfl))
  rw [Record.baseEntries_eq hsound.fields] at h
  split at h
  · rename_i hcond
    have hb : r.form.shape = .branch := by simpa [Record.isBranch] using (Bool.and_eq_true_iff.1 hcond).1
    obtain ⟨copies, mid, hcopies, hp⟩ := Build.bind_eq_ok_iff.1 h
    obtain ⟨rfl, rfl⟩ := Build.pure_eq_ok_iff.1 hp
    rw [Record.copyChildren_eq (hsound.children_eq hb), hwf.children_eq] at hcopies
    obtain ⟨hle, hall⟩ := copies_settled (fun c hc => hwf.childNode hc) hcopies
    refine ⟨hle, fun key v hm hkey _ => ?_⟩
    obtain ⟨e, he, heq⟩ := List.mem_map.1 hm
    split at heq
    · obtain ⟨-, rfl⟩ := Prod.mk.inj heq
      exact settled_list.2 hall
    · rename_i hnot
      obtain rfl := heq
      obtain ⟨s, hs, rfl, rfl⟩ := hsound.mem_entries he
      refine hsound.settled hs (fun hmeta => hkey ?_) fun hchild => hnot ?_
      · simp [hmeta, Field.keys, Field.label]
      · simp [hchild, Field.label]
  · rename_i hcond
    obtain ⟨rfl, rfl⟩ := Build.pure_eq_ok_iff.1 h
    refine ⟨Nat.le_refl next, fun key v hm hkey hchanged => ?_⟩
    obtain ⟨s, hs, rfl, rfl⟩ := hsound.mem_entries hm
    refine hsound.settled hs (fun hmeta => hkey ?_) fun hchild => hcond ?_
    · simp [hmeta, Field.keys, Field.label]
    · have hb := r.form.branch_of_children s hs hchild
      have hno : changes.contains "children" = false := hchanged (by rw [hchild]; rfl)
      simp [Record.isBranch, hb, hno]

theorem evolve_established {changes : Entries} (hr : r.Established next) (hn : r.form.isNode)
    (hc : Entries.Settled next changes) (h : r.evolve changes next = .ok (r', next')) :
    next ≤ next' ∧ r'.Established next' := by
  unfold Record.evolve at h
  obtain ⟨fields, mid, hf, hnew⟩ := Build.bind_eq_ok_iff.1 h
  obtain ⟨hle, hfields⟩ := baseEntries_settled hr hn hf
  have husable : (Value.map (Entries.update fields changes)).Usable mid := by
    intro key v hget hkey
    rcases Entries.get?_update_eq_some hget with ⟨e, he, rfl⟩ | ⟨hno, hget⟩
    · exact fun q hq => (hc q (mem_outerRecordsOfEntries.2 ⟨e, he, .inr hq⟩)).mono hle
    · exact hfields key v (Entries.mem_of_get? hget) hkey fun hchild => hchild ▸ hno
  obtain ⟨hcheck, rfl⟩ := create_eq_ok_iff.1 hnew
  exact ⟨Nat.le_succ_of_le hle, check_established husable hcheck⟩

end Evolve

section Convert

open Markup

variable {keepBlank : Bool}

theorem new_established {form : Form} {es : Entries} {r : Record} {next next' : Ident}
    (he : Entries.Settled next es) (h : form.new es next = .ok (r, next')) :
    next ≤ next' ∧ r.Established next' :=
  create_established (v := .map es) he h

theorem newElement_established {name : Value} {attributes : Entries} {children : List Value}
    {r : Record} {next next' : Ident} (hname : name.Settled next)
    (hattributes : Entries.Settled next attributes) (hchildren : ∀ x ∈ children, x.Settled next)
    (h : newElement name attributes children next = .ok (r, next')) :
    next ≤ next' ∧ r.Established next' := by
  refine new_established ?_ h
  simp only [Entries.settled_cons, Value.settled_str, Entries.settled_nil, and_true, true_and]
  exact ⟨hname, hattributes, settled_list.2 hchildren⟩

theorem optionalText_settled {text? : Option String} {next : Ident} :
    (optionalText text?).Settled next := by
  cases text? <;> simp [optionalText, Value.Settled, Value.outerRecords]

theorem convertString_settled {holder : Holder} {cls : StringClass} {content : String}
    {out : Converted} {next next' : Ident}
    (h : convertString keepBlank holder cls content next = .ok (out, next')) :
    next ≤ next' ∧ ∀ x ∈ out.1, x.Settled next' := by
  have hnew {form : Form} {es : Entries} (he : Entries.Settled next es)
      (h : (form.new es >>= fun node => pure ([.record node], [])) next = .ok (out, next')) :
      next ≤ next' ∧ ∀ x ∈ out.1, x.Settled next' := by
    obtain ⟨r, mid, hr, hp⟩ := Build.bind_eq_ok_iff.1 h
    obtain ⟨rfl, rfl⟩ := Build.pure_eq_ok_iff.1 hp
    obtain ⟨hle, hest⟩ := new_established he hr
    exact ⟨hle, by simpa using hest⟩
  have hnone {notices : List Notice}
      (h : (pure ([], notices) : Build Converted) next = .ok (out, next')) :
      next ≤ next' ∧ ∀ x ∈ out.1, x.Settled next' := by
    obtain ⟨rfl, rfl⟩ := Build.pure_eq_ok_iff.1 h
    simp
  unfold convertString at h
  split at h
  · exact hnew (by simp [Entries.settled_cons, optionalText_settled]) h
  · exact hnew (by simp [Entries.settled_cons]) h
  · split at h
    · exact hnone h
    · split at h
      · exact hnew (by simp [Entries.settled_cons]) h
      · exact hnone h

mutual

theorem convertItem_settled (item : Item) {holder : Holder} {out : Converted}
    {next next' : Ident} (hi : ∀ q ∈ item.outerRecords, q.Established next)
    (h : convertItem keepBlank holder item next = .ok (out, next')) :
    next ≤ next' ∧ ∀ x ∈ out.1, x.Settled next' := by
  cases item with
  | tag name attributes children =>
    simp only [Item.outerRecords, List.mem_append, or_imp, forall_and] at hi
    obtain ⟨⟨hname, hattributes⟩, hchildren⟩ := hi
    rw [convertItem] at h
    obtain ⟨inner, mid, hinner, h⟩ := Build.bind_eq_ok_iff.1 h
    obtain ⟨r, last, hr, hp⟩ := Build.bind_eq_ok_iff.1 h
    obtain ⟨rfl, rfl⟩ := Build.pure_eq_ok_iff.1 hp
    obtain ⟨hle, hitems⟩ := convertItems_settled children hchildren hinner
    obtain ⟨hle', hest⟩ := newElement_established (Value.Settled.mono hname hle)
      (Entries.Settled.mono hattributes hle) hitems hr
    exact ⟨Nat.le_trans hle hle', by simpa using hest⟩
  | string cls content =>
    rw [convertItem] at h
    exact convertString_settled h
termination_by sizeOf item

theorem convertItems_settled (items : List Item) {holder : Holder} {out : Converted}
    {next next' : Ident} (hi : ∀ q ∈ outerRecordsInside items, q.Established next)
    (h : convertItems keepBlank holder items next = .ok (out, next')) :
    next ≤ next' ∧ ∀ x ∈ out.1, x.Settled next' := by
  cases items with
  | nil =>
    rw [convertItems] at h
    obtain ⟨rfl, rfl⟩ := Build.pure_eq_ok_iff.1 h
    simp
  | cons item rest =>
    simp only [outerRecordsInside, List.mem_append, or_imp, forall_and] at hi
    obtain ⟨hitem, hrest⟩ := hi
    rw [convertItems] at h
    obtain ⟨first, mid, hfirst, h⟩ := Build.bind_eq_ok_iff.1 h
    obtain ⟨others, last, hothers, hp⟩ := Build.bind_eq_ok_iff.1 h
    obtain ⟨rfl, rfl⟩ := Build.pure_eq_ok_iff.1 hp
    obtain ⟨hle, hx⟩ := convertItem_settled item hitem hfirst
    obtain ⟨hle', hy⟩ := convertItems_settled rest (fun q hq => (hrest q hq).mono hle) hothers
    refine ⟨Nat.le_trans hle hle', ?_⟩
    rw [List.forall_mem_append]
    exact ⟨fun x hm => (hx x hm).mono hle', hy⟩
termination_by sizeOf items

end

theorem convert_established {source : Source} {r : Record} {notices : List Notice}
    {next next' : Ident} (hs : ∀ q ∈ source.outerRecords, q.Established next)
    (h : source.convert keepBlank next = .ok ((r, notices), next')) :
    next ≤ next' ∧ r.Established next' := by
  cases source with
  | document children =>
    obtain ⟨inner, mid, hinner, h⟩ := Build.bind_eq_ok_iff.1 h
    obtain ⟨root, last, hr, hp⟩ := Build.bind_eq_ok_iff.1 h
    obtain ⟨he, rfl⟩ := Build.pure_eq_ok_iff.1 hp
    obtain ⟨rfl, -⟩ := Prod.mk.inj he
    obtain ⟨hle, hitems⟩ := convertItems_settled children hs hinner
    have hes : Entries.Settled mid [(.str "children", .list inner.1)] := by
      simp only [Entries.settled_cons, Value.settled_str, Entries.settled_nil, and_true, true_and]
      exact settled_list.2 hitems
    obtain ⟨hle', hest⟩ := new_established hes hr
    exact ⟨Nat.le_trans hle hle', hest⟩
  | tag name attributes children =>
    simp only [Source.outerRecords, Item.outerRecords, List.mem_append, or_imp,
      forall_and] at hs
    obtain ⟨⟨hname, hattributes⟩, hchildren⟩ := hs
    obtain ⟨inner, mid, hinner, h⟩ := Build.bind_eq_ok_iff.1 h
    obtain ⟨element, last, hr, hp⟩ := Build.bind_eq_ok_iff.1 h
    obtain ⟨he, rfl⟩ := Build.pure_eq_ok_iff.1 hp
    obtain ⟨rfl, -⟩ := Prod.mk.inj he
    obtain ⟨hle, hitems⟩ := convertItems_settled children hchildren hinner
    obtain ⟨hle', hest⟩ := newElement_established (Value.Settled.mono hname hle)
      (Entries.Settled.mono hattributes hle) hitems hr
    exact ⟨Nat.le_trans hle hle', hest⟩

end Convert

namespace Session

variable {next : Ident} {pool : List Record}

/-- Induction on the operations of the session: each adds an established record, and the records
that were in the pool before stay established. -/
theorem established (h : Session next pool) : ∀ r ∈ pool, r.Established next := by
  induction h with
  | start => simp
  | create form v _ hv hr ih =>
    obtain ⟨hle, hest⟩ := create_established (fun q hq => ih q (hv hq)) hr
    exact List.forall_mem_cons.2 ⟨hest, fun q hq => (ih q hq).mono hle⟩
  | load forms family v _ hv hr ih =>
    obtain ⟨hle, hest⟩ := load_established v (fun q hq => ih q (hv hq)) hr
    exact List.forall_mem_cons.2 ⟨hest, fun q hq => (ih q hq).mono hle⟩
  | evolve changes _ hm hn hc hr ih =>
    obtain ⟨hle, hest⟩ := evolve_established (ih _ hm) hn (fun q hq => ih q (hc hq)) hr
    exact List.forall_mem_cons.2 ⟨hest, fun q hq => (ih q hq).mono hle⟩
  | descendant path _ hm hd ih =>
    exact List.forall_mem_cons.2 ⟨(ih _ hm).descendant hd, ih⟩
  | place f _ hm hf hq ih =>
    exact List.forall_mem_cons.2 ⟨(ih _ hm).place hf hq, ih⟩
  | convert keepBlank source _ hs hr ih =>
    obtain ⟨hle, hest⟩ := convert_established (fun q hq => ih q (hs hq)) hr
    exact List.forall_mem_cons.2 ⟨hest, fun q hq => (ih q hq).mono hle⟩

/-- Every node that a session leads to is the top of a well-formed tree, and the audit passes it
and counts its nodes. -/
theorem wellFormed_of_mem (h : Session next pool) {r : Record} (hm : r ∈ pool)
    (hn : r.form.isNode) : r.WellFormed ∧ r.audit = .ok r.walk.length :=
  have hwf := (h.established r hm).node hn
  ⟨hwf, hwf.audit_eq⟩

def loneText (id : Ident) : Record :=
  ⟨id, .hastText,
    [(.kind, .str "text"), (.position, .null), (.metadata, .null), (.value, .str "x")]⟩

theorem established_loneText : (loneText 0).Established 1 := by
  have hcreate : DocTree.create .hastText (.map [(.str "value", .str "x")]) 0 =
      .ok (loneText 0, 1) := by cbv
  refine (create_established ?_ hcreate).2
  simp [Value.Settled, Value.outerRecords, outerRecordsOfEntries]

def loneComment (id : Ident) : Record :=
  ⟨id, .comment,
    [(.kind, .str "comment"), (.position, .null), (.metadata, .null), (.value, .str "y")]⟩

def mixedElement (id : Ident) (name : String) (text comment : Ident) : Record :=
  ⟨id, .element, [(.kind, .str "element"), (.position, .null), (.metadata, .null),
    (.children, .tuple [.record (loneText text), .record (loneComment comment)]),
    (.tagName, .str name), (.properties, .map [])]⟩

/-- A text is built and used again in loaded data, and what was loaded is renamed, which copies
its children. -/
theorem wellFormed_of_mem_mixedElement :
    Session 6 [mixedElement 5 "b" 3 4, mixedElement 2 "p" 0 1, loneText 0] ∧
      (mixedElement 5 "b" 3 4).WellFormed ∧
        (mixedElement 5 "b" 3 4).audit = .ok (mixedElement 5 "b" 3 4).walk.length := by
  have htext : Session 1 [loneText 0] := by
    refine .create .hastText (.map [(.str "value", .str "x")]) .start ?_ (by cbv)
    simp [Value.outerRecords, outerRecordsOfEntries]
  have hloaded : Session 3 [mixedElement 2 "p" 0 1, loneText 0] := by
    refine .load .hast "hast" (.map [(.str "type", .str "element"), (.str "tagName", .str "p"),
      (.str "children", .list [.record (loneText 0),
        .map [(.str "type", .str "comment"), (.str "value", .str "y")]])]) htext ?_ (by cbv)
    simp [Value.outerRecords, outerRecordsOfEntries, outerRecordsOfItems]
  have hrenamed : Session 6 [mixedElement 5 "b" 3 4, mixedElement 2 "p" 0 1, loneText 0] := by
    have hmem : mixedElement 2 "p" 0 1 ∈ [mixedElement 2 "p" 0 1, loneText 0] := by simp
    refine .evolve [(.str "tag_name", .str "b")] hloaded hmem rfl ?_ (by cbv)
    simp [Value.outerRecords, outerRecordsOfEntries]
  exact ⟨hrenamed, hrenamed.wellFormed_of_mem (by simp) rfl⟩

end Session

end DocTree
