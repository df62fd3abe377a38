import Mathlib.Data.List.Nodup
import DocTree.Evolve
import DocTree.Proofs.Schema
import DocTree.Proofs.Visiting

/-!
Copies of trees. New identities change nothing else about a tree: the copy has the same nodes in
the same order, and is well-formed if the tree is and no two of its identities become one. Main
statements: `preorder_relabel`, `WellFormed.relabel` and `copy_record`.
-/
namespace DocTree

variable {new : Ident → Ident}

theorem relabelItems_eq (xs : List Value) : relabelItems new xs = xs.map (Value.relabel new) := by
  induction xs with
  | nil => rfl
  | cons x xs ih =>
    rw [List.map_cons, ← ih]
    rfl

theorem relabelEntries_eq (es : Entries) :
    relabelEntries new es = es.map fun e => (e.1.relabel new, e.2.relabel new) := by
  induction es with
  | nil => rfl
  | cons e es ih =>
    rw [List.map_cons, ← ih]
    rfl

theorem relabelFields_eq (fields : List (Field × Value)) :
    relabelFields new fields = fields.map fun p => (p.1, p.2.relabel new) := by
  induction fields with
  | nil => rfl
  | cons p fields ih =>
    rw [List.map_cons, ← ih]
    rfl

theorem mem_identsOfItems {i : Ident} {xs : List Value} :
    i ∈ identsOfItems xs ↔ ∃ x ∈ xs, i ∈ x.idents := by
  induction xs with
  | nil => exact ⟨nofun, nofun⟩
  | cons x xs ih =>
    have hcons : identsOfItems (x :: xs) = x.idents ++ identsOfItems xs := rfl
    rw [hcons, List.mem_append, ih, List.exists_mem_cons_iff]

theorem mem_identsOfEntries {i : Ident} {es : Entries} :
    i ∈ identsOfEntries es ↔ ∃ e ∈ es, i ∈ e.1.idents ++ e.2.idents := by
  induction es with
  | nil => exact ⟨nofun, nofun⟩
  | cons e es ih =>
    have hcons : identsOfEntries (e :: es) = e.1.idents ++ e.2.idents ++ identsOfEntries es := rfl
    rw [hcons, List.mem_append, ih, List.exists_mem_cons_iff]

theorem mem_identsOfFields {i : Ident} {fields : List (Field × Value)} :
    i ∈ identsOfFields fields ↔ ∃ p ∈ fields, i ∈ p.2.idents := by
  induction fields with
  | nil => exact ⟨nofun, nofun⟩
  | cons p fields ih =>
    have hcons : identsOfFields (p :: fields) = p.2.idents ++ identsOfFields fields := rfl
    rw [hcons, List.mem_append, ih, List.exists_mem_cons_iff]

namespace Value

theorem relabel_record (r : Record) : (record r).relabel new = record (r.relabel new) := rfl

@[simp] theorem relabel_eq_null_iff {v : Value} : v.relabel new = null ↔ v = null := by
  refine ⟨fun h => ?_, by rintro rfl; rfl⟩
  cases v with
  | null => rfl
  | _ => cases h

@[simp] theorem relabel_eq_bool_iff {v : Value} {b : Bool} :
    v.relabel new = bool b ↔ v = bool b := by
  refine ⟨fun h => ?_, by rintro rfl; rfl⟩
  cases v with
  | bool => exact h
  | _ => cases h

@[simp] theorem relabel_eq_int_iff {v : Value} {n : Int} : v.relabel new = int n ↔ v = int n := by
  refine ⟨fun h => ?_, by rintro rfl; rfl⟩
  cases v with
  | int => exact h
  | _ => cases h

@[simp] theorem relabel_str (s : String) : (str s).relabel new = str s := rfl

theorem node?_relabel (v : Value) :
    (v.relabel new).node? = v.node?.map (Record.relabel new) := by
  cases v with
  | record r =>
    obtain ⟨id, form, fields⟩ := r
    rw [relabel_record, node?_record, node?_record, apply_ite (Option.map (Record.relabel new))]
    rfl
  | _ => rfl

theorem items?_relabel (v : Value) :
    (v.relabel new).items? = v.items?.map (List.map (relabel new)) := by
  cases v with
  | list xs | tuple xs => exact congrArg some (relabelItems_eq xs)
  | map es => simp [relabel, items?, relabelEntries_eq]
  | str | bytes => simp [relabel, items?]
  | _ => rfl

theorem items_relabel (v : Value) : (v.relabel new).items = v.items.map (relabel new) := by
  unfold items
  rw [items?_relabel]
  cases v.items? <;> rfl

theorem mem_idents_of_items {v x : Value} {i : Ident} (hx : x ∈ v.items) (hi : i ∈ x.idents) :
    i ∈ v.idents := by
  cases v with
  | list xs | tuple xs => exact mem_identsOfItems.2 ⟨x, hx, hi⟩
  | map es =>
    obtain ⟨e, he, rfl⟩ := List.mem_map.1 hx
    exact mem_identsOfEntries.2 ⟨e, he, List.mem_append_left _ hi⟩
  | str | bytes =>
    obtain ⟨c, -, rfl⟩ := List.mem_map.1 hx
    cases hi
  | _ => cases hx

end Value

namespace Record

@[simp] theorem id_relabel (r : Record) : (r.relabel new).id = new r.id := by
  obtain ⟨id, form, fields⟩ := r
  rfl

@[simp] theorem form_relabel (r : Record) : (r.relabel new).form = r.form := by
  obtain ⟨id, form, fields⟩ := r
  rfl

theorem fields_relabel (r : Record) :
    (r.relabel new).fields = r.fields.map fun p => (p.1, p.2.relabel new) := by
  obtain ⟨id, form, fields⟩ := r
  exact relabelFields_eq fields

theorem get?_relabel (r : Record) (f : Field) :
    (r.relabel new).get? f = (r.get? f).map (Value.relabel new) := by
  unfold get?
  rw [fields_relabel]
  induction r.fields with
  | nil => rfl
  | cons p fields ih =>
    rw [List.map_cons, List.lookup_cons, List.lookup_cons]
    cases f == p.1 <;> simp [ih]

theorem get_relabel (r : Record) (f : Field) : (r.relabel new).get f = (r.get f).relabel new := by
  unfold get
  rw [get?_relabel]
  cases r.get? f <;> rfl

theorem children_relabel (r : Record) :
    (r.relabel new).children = r.children.map (Value.relabel new) := by
  unfold children isBranch
  rw [form_relabel, get_relabel, Value.items_relabel]
  split <;> simp

theorem childNodes_relabel (r : Record) :
    (r.relabel new).childNodes = r.childNodes.map (relabel new) := by
  unfold childNodes
  rw [children_relabel, List.filterMap_map, List.map_filterMap]
  congr 1
  funext v
  exact Value.node?_relabel v

/-- A copy has the same nodes in the same order. -/
theorem preorder_relabel (r : Record) :
    (r.relabel new).preorder = r.preorder.map (relabel new) := by
  rw [preorder_eq (r.relabel new), preorder_eq r, childNodes_relabel, List.map_cons,
    List.flatMap_map, List.map_flatMap]
  congr 1
  refine List.flatMap_congr fun c hc => ?_
  exact preorder_relabel c
termination_by r.count
decreasing_by exact count_lt_of_mem_childNodes hc

theorem mem_idents_of_children {r : Record} {x : Value} {i : Ident} (hx : x ∈ r.children)
    (hi : i ∈ x.idents) : i ∈ r.idents := by
  unfold children at hx
  split at hx
  · have hmem : i ∈ (r.get .children).idents :=
      Value.mem_idents_of_items hx hi
    obtain ⟨id, form, fields⟩ := r
    change i ∈ ((fields.lookup .children).getD .null).idents at hmem
    cases hl : fields.lookup .children with
    | none =>
      rw [hl] at hmem
      cases hmem
    | some v =>
      rw [hl] at hmem
      have hp : (Field.children, v) ∈ fields := by
        obtain ⟨before, after, rfl, -⟩ := List.lookup_eq_some_iff.1 hl
        simp
      exact List.mem_cons_of_mem _ (mem_identsOfFields.2 ⟨_, hp, hmem⟩)
  · simp at hx

theorem mem_idents_of_childNodes {r c : Record} {i : Ident} (hc : c ∈ r.childNodes)
    (hi : i ∈ c.idents) : i ∈ r.idents := by
  obtain ⟨x, hx, hn⟩ := List.mem_filterMap.1 hc
  obtain ⟨rfl, -⟩ := Value.node?_eq_some.1 hn
  exact mem_idents_of_children hx hi

theorem id_mem_idents_self (r : Record) : r.id ∈ r.idents := by
  obtain ⟨id, form, fields⟩ := r
  exact List.mem_cons_self

theorem id_mem_idents {r n : Record} (h : n ∈ r.preorder) : n.id ∈ r.idents := by
  rcases mem_preorder_iff.1 h with rfl | h
  · exact n.id_mem_idents_self
  · induction h with
    | @child a d hd => exact mem_idents_of_childNodes hd d.id_mem_idents_self
    | @deeper a c d hc hcd ih =>
      exact mem_idents_of_childNodes hc (ih (mem_preorder_of_above hcd))

end Record

section Visits

def Visit.relabel (new : Ident → Ident) : Visit → Visit
  | .met v => .met (v.relabel new)
  | .stuck (.noAttribute owner name) => .stuck (.noAttribute (owner.relabel new) name)
  | .stuck (.notReversible v) => .stuck (.notReversible (v.relabel new))
  | .stuck cause => .stuck cause

theorem Visit.relabel_eq_met {visit : Visit} {w : Value} (h : visit.relabel new = .met w) :
    ∃ v, visit = .met v ∧ w = v.relabel new := by
  cases visit with
  | met v => exact ⟨v, rfl, (Visit.met.inj h).symm⟩
  | stuck cause => cases cause <;> cases h

namespace Value

theorem visits_of_node?_eq_none {v : Value} (h : v.node? = none) : v.visits = [.met v] := by
  cases v with
  | record r =>
    have hb : ¬ r.isBranch := fun hb => by
      simp [Form.isNode_of_branch (of_decide_eq_true hb)] at h
    change r.visits = _
    rw [r.visits_eq, if_neg hb]
  | _ => rfl

/-- What tells a record or a stream from all others. -/
def ident? : Value → Option Ident
  | record r => some r.id
  | stream i _ => some i
  | _ => none

theorem mem_idents_of_ident? (v : Value) {i : Ident} (hi : i ∈ v.ident?) : i ∈ v.idents := by
  cases v with
  | record r =>
    obtain rfl := Option.some.inj hi
    exact r.id_mem_idents_self
  | stream j xs =>
    obtain rfl := Option.some.inj hi
    exact List.mem_cons_self
  | _ => cases hi

theorem ident?_relabel (v : Value) : (v.relabel new).ident? = v.ident?.map new := by
  cases v with
  | record r => exact congrArg some r.id_relabel
  | _ => rfl

theorem ident?_eq_of_isSame {v w : Value} (h : v.isSame w) : v.ident? = w.ident? := by
  cases v <;> cases w <;> simp_all [isSame, ident?]

theorem isSame_relabel_of_ident?_eq_none {new' : Ident → Ident} {v w : Value}
    (hv : v.ident? = none) (h : (v.relabel new).isSame (w.relabel new')) : v.isSame w := by
  have hw : w.ident? = none := by
    have he := ident?_eq_of_isSame h
    rw [ident?_relabel, ident?_relabel, hv] at he
    simpa using he.symm
  cases v with
  | record | stream => cases hv
  | tuple xs =>
    cases w with
    | tuple ys => cases xs <;> cases ys <;> simp_all [relabel, relabelItems, isSame]
    | _ => simp_all [relabel, isSame]
  | _ => cases w <;> exact h

/-- Different values stay different in a copy in which no two identities become one. -/
theorem isSame_of_relabel {v w : Value}
    (hnew : ∀ i ∈ v.ident?, ∀ j ∈ w.ident?, new i = new j → i = j)
    (h : (v.relabel new).isSame (w.relabel new)) : v.isSame w := by
  cases hv : v.ident? with
  | none => exact isSame_relabel_of_ident?_eq_none hv h
  | some i =>
    have he := ident?_eq_of_isSame h
    rw [ident?_relabel, ident?_relabel, hv] at he
    obtain ⟨j, hj, hij⟩ := Option.map_eq_some_iff.1 he.symm
    obtain rfl := hnew i hv j hj hij.symm
    cases v <;> cases w <;> simp_all [relabel, isSame, ident?]

end Value

namespace Record

theorem visits_relabel (r : Record) : (r.relabel new).visits = r.visits.map (Visit.relabel new) := by
  have hbranch : (r.relabel new).isBranch = r.isBranch := by rw [isBranch, isBranch, form_relabel]
  rw [visits_eq (r.relabel new), visits_eq r, List.map_cons, hbranch, get?_relabel]
  congr 1
  by_cases hb : r.isBranch
  · rw [if_pos hb, if_pos hb]
    cases hv : r.get? .children with
    | none => rfl
    | some v =>
      simp only [Option.map_some, Value.visitsBelow, Value.items?_relabel]
      cases hxs : v.items? with
      | none => rfl
      | some xs =>
        have hchildren : r.children = xs := by
          simp [children, hb, get, hv, Value.items, hxs]
        simp only [Option.map_some, List.flatMap_map, List.map_flatMap]
        refine List.flatMap_congr fun x hx => ?_
        cases hn : x.node? with
        | none =>
          have hn' : (x.relabel new).node? = none := by rw [Value.node?_relabel, hn]; rfl
          rw [Value.visits_of_node?_eq_none hn, Value.visits_of_node?_eq_none hn']
          rfl
        | some c =>
          have hc : c ∈ r.childNodes := List.mem_filterMap.2 ⟨x, hchildren ▸ hx, hn⟩
          obtain ⟨rfl, -⟩ := Value.node?_eq_some.1 hn
          exact visits_relabel c
  · rw [if_neg hb, if_neg hb]
    rfl
termination_by r.count
decreasing_by exact count_lt_of_mem_childNodes hc

theorem mem_idents_of_met {r : Record} {v : Value} {i : Ident} (hv : .met v ∈ r.visits)
    (hi : i ∈ v.ident?) : i ∈ r.idents := by
  rw [visits_eq] at hv
  rcases List.mem_cons.1 hv with hself | hv
  · obtain rfl := Visit.met.inj hself
    exact (Value.record r).mem_idents_of_ident? hi
  · by_cases hb : r.isBranch
    · rw [if_pos hb] at hv
      cases hstored : r.get? .children with
      | none => simp [hstored] at hv
      | some stored =>
        simp only [hstored, Value.visitsBelow] at hv
        cases hxs : stored.items? with
        | none => simp [hxs] at hv
        | some xs =>
          have hchildren : r.children = xs := by
            simp [children, hb, get, hstored, Value.items, hxs]
          simp only [hxs] at hv
          obtain ⟨x, hx, hvx⟩ := List.mem_flatMap.1 hv
          rw [← hchildren] at hx
          cases hn : x.node? with
          | none =>
            rw [Value.visits_of_node?_eq_none hn] at hvx
            obtain rfl := Visit.met.inj (List.mem_singleton.1 hvx)
            exact mem_idents_of_children hx (v.mem_idents_of_ident? hi)
          | some c =>
            have hc : c ∈ r.childNodes := List.mem_filterMap.2 ⟨x, hx, hn⟩
            obtain ⟨rfl, -⟩ := Value.node?_eq_some.1 hn
            exact mem_idents_of_childNodes hc (mem_idents_of_met hvx hi)
    · rw [if_neg hb] at hv
      cases hv
termination_by r.count
decreasing_by exact count_lt_of_mem_childNodes hc

end Record

theorem Visitable.relabel {r : Record} (h : Visitable r.visits)
    (hnew : ∀ i ∈ r.idents, ∀ j ∈ r.idents, new i = new j → i = j) :
    Visitable (r.relabel new).visits := by
  obtain ⟨met, hmet, hpairs⟩ := h
  refine ⟨met.map (Value.relabel new), ?_, ?_⟩
  · rw [Record.visits_relabel, hmet, List.map_map, List.map_map]
    rfl
  · rw [List.pairwise_map]
    refine hpairs.imp_of_mem fun {v w} hv hw hvw hsame => hvw ?_
    have hmem {x : Value} (hx : x ∈ met) : .met x ∈ r.visits := hmet ▸ List.mem_map_of_mem hx
    refine Value.isSame_of_relabel (fun i hi j hj he => ?_) hsame
    exact hnew i (Record.mem_idents_of_met (hmem hw) hi) j
      (Record.mem_idents_of_met (hmem hv) hj) he

end Visits

section Stored

variable {v : Value}

theorem Place.offsetValue_relabel (p : Place) : p.offsetValue.relabel new = p.offsetValue := by
  obtain ⟨line, column, _ | offset⟩ := p <;> rfl

theorem Value.IsPointAt.relabel {p : Place} (h : v.IsPointAt p) :
    (v.relabel new).IsPointAt p := by
  obtain ⟨⟨id, rfl⟩, hp⟩ := h
  refine ⟨⟨new id, ?_⟩, hp⟩
  change record ⟨new id, .point, [(.line, .int p.line), (.column, .int p.column),
    (.offset, p.offsetValue.relabel new)]⟩ = _
  rw [p.offsetValue_relabel]

theorem Value.IsPosition.relabel (h : v.IsPosition) : (v.relabel new).IsPosition := by
  obtain ⟨id, first, last, p, q, rfl, hp, hq, ho⟩ := h
  exact ⟨new id, first.relabel new, last.relabel new, p, q, rfl, hp.relabel, hq.relabel, ho⟩

theorem Value.IsProperty.relabel_eq (h : v.IsProperty) : v.relabel new = v := by
  cases h with
  | @list xs hxs =>
    have hmap : xs.map (Value.relabel new) = xs.map fun x => x := by
      apply List.map_congr_left
      intro x hx
      rcases hxs x hx with ⟨n, rfl⟩ | ⟨y, rfl⟩ | ⟨s, rfl⟩ <;> rfl
    change Value.list (relabelItems new xs) = Value.list xs
    rw [relabelItems_eq, hmap, List.map_id']
  | _ => rfl

theorem Rule.Stores.relabel {form : Form} {rule : Rule} (h : rule.Stores form v) :
    rule.Stores form (v.relabel new) := by
  cases rule with
  | kind =>
    obtain ⟨kind, hk, rfl⟩ := h
    exact ⟨kind, hk, by simp⟩
  | text =>
    obtain ⟨s, rfl, hs⟩ := h
    exact ⟨s, by simp, hs⟩
  | integer =>
    obtain ⟨n, rfl, hn⟩ := h
    exact ⟨n, by simp, hn⟩
  | flag =>
    obtain ⟨b, rfl⟩ := h
    exact ⟨b, by simp⟩
  | metadata =>
    obtain ⟨es, rfl, hes⟩ := h
    refine ⟨relabelEntries new es, rfl, ?_⟩
    rw [relabelEntries_eq, List.forall_mem_map]
    intro e he
    obtain ⟨s, hs⟩ := hes e he
    exact ⟨s, by simp [hs]⟩
  | place f =>
    cases f with
    | position => exact Value.IsPosition.relabel h
    | _ => exact h.imp fun p hp => hp.relabel
  | children =>
    obtain ⟨xs, rfl⟩ := h
    exact ⟨relabelItems new xs, rfl⟩
  | properties =>
    obtain ⟨es, rfl, hes⟩ := h
    refine ⟨relabelEntries new es, rfl, ?_⟩
    rw [relabelEntries_eq, List.forall_mem_map]
    intro e he
    obtain ⟨⟨s, hs⟩, hp⟩ := hes e he
    exact ⟨⟨s, by simp [hs]⟩, by rwa [hp.relabel_eq]⟩

theorem FieldSpec.Stores.relabel {form : Form} {s : FieldSpec} (h : s.Stores form v) :
    s.Stores form (v.relabel new) := by
  rcases h with ⟨hn, rfl⟩ | h
  · exact .inl ⟨hn, by simp⟩
  · exact .inr h.relabel

end Stored

namespace Record

theorem Sound.relabel {r : Record} (h : r.Sound) : (r.relabel new).Sound := by
  constructor
  · rw [fields_relabel, form_relabel, List.map_map, ← h.fields]
    rfl
  · intro s hs
    rw [form_relabel] at hs ⊢
    rw [get_relabel]
    exact (h.stores s hs).relabel
  · intro hlist hordered n hn
    rw [form_relabel] at hlist
    rw [get_relabel, Value.relabel_eq_bool_iff] at hordered
    rw [get_relabel, Value.relabel_eq_int_iff] at hn
    exact h.start hlist hordered n hn

theorem FitsUnder.relabel {holder : Form} {v : Value} (h : FitsUnder holder v) :
    FitsUnder holder (v.relabel new) := by
  obtain ⟨child, kind, rfl, hn, hf, hk, hm⟩ := h
  refine ⟨child.relabel new, kind, Value.relabel_record child, ?_, ?_, ?_, hm⟩
  · rwa [form_relabel]
  · rwa [form_relabel]
  · have hkind : child.get .kind = .str kind := hk
    change (child.relabel new).get .kind = .str kind
    rw [get_relabel, hkind, Value.relabel_str]

theorem nodup_relabel {r : Record} (h : (r.preorder.map id).Nodup)
    (hnew : ∀ i ∈ r.idents, ∀ j ∈ r.idents, new i = new j → i = j) :
    ((r.relabel new).preorder.map id).Nodup := by
  have hids : (r.relabel new).preorder.map id = (r.preorder.map id).map new := by
    rw [preorder_relabel, List.map_map, List.map_map]
    apply List.map_congr_left
    intro n _
    exact id_relabel n
  rw [hids]
  apply List.Nodup.map_on _ h
  intro i hi j hj he
  obtain ⟨n, hn, rfl⟩ := List.mem_map.1 hi
  obtain ⟨m, hm, rfl⟩ := List.mem_map.1 hj
  exact hnew _ (id_mem_idents hn) _ (id_mem_idents hm) he

/-- Copying keeps trees well-formed; distinct nodes have to stay distinct. -/
theorem WellFormed.relabel {r : Record} (h : r.WellFormed)
    (hnew : ∀ i ∈ r.idents, ∀ j ∈ r.idents, new i = new j → i = j) :
    (r.relabel new).WellFormed := by
  constructor
  · rw [form_relabel]
    exact h.isNode
  · rw [preorder_relabel, List.forall_mem_map]
    exact fun n hn => (h.sound n hn).relabel
  · rw [preorder_relabel, List.forall_mem_map]
    intro n hn
    rw [children_relabel, form_relabel, List.forall_mem_map]
    exact fun v hv => (h.edges n hn v hv).relabel
  · exact nodup_relabel h.distinct hnew

/-- A tree can always be copied. All identities in the copy are new, and distinct ones stay
distinct. -/
theorem copy_record (r : Record) (next : Ident) :
    ∃ new next', (Value.record r).copy next = .ok (.record (r.relabel new), next') ∧
      next ≤ next' ∧ (∀ i ∈ r.idents, next ≤ new i ∧ new i < next') ∧
        ∀ i ∈ r.idents, ∀ j ∈ r.idents, new i = new j → i = j := by
  let olds := r.idents.eraseDups
  have hlt : ∀ i ∈ r.idents, olds.idxOf i < olds.length := fun i hi =>
    List.idxOf_lt_length_of_mem (List.mem_eraseDups.2 hi)
  refine ⟨fun i => next + olds.idxOf i, next + olds.length, rfl, Nat.le_add_right _ _, ?_, ?_⟩
  · exact fun i hi => ⟨Nat.le_add_right _ _, Nat.add_lt_add_left (hlt i hi) next⟩
  · intro i hi j hj he
    have hidx : olds.idxOf i = olds.idxOf j := Nat.add_left_cancel he
    exact (List.idxOf_inj (List.mem_eraseDups.2 hi)).1 hidx

end Record

end DocTree
