import DocTree.Proofs.Copying
import DocTree.Proofs.Loading
import DocTree.Proofs.WellFormed

/-!
From data that has all that is asked for to a record. If every field can be taken from the entries
the record is assembled, and newly built nodes never clash with each other, as each of them and
everything below it has identities of its own. Main statements: `exists_assembled`,
`loadEntries_cases`, `Fresh.node`, `gatherChildren_of_fresh` and `exists_copies`.
-/
namespace DocTree

theorem exists_fields {specs : List FieldSpec} {P : FieldSpec → Value → Prop}
    (h : ∀ s ∈ specs, ∃ v, P s v) :
    ∃ fields : List (Field × Value),
      List.Forall₂ (fun s p => p.1 = s.field ∧ P s p.2) specs fields := by
  induction specs with
  | nil => exact ⟨[], .nil⟩
  | cons s specs ih =>
    obtain ⟨⟨v, hv⟩, hrest⟩ := List.forall_mem_cons.1 h
    obtain ⟨fields, hfields⟩ := ih hrest
    exact ⟨(s.field, v) :: fields, .cons ⟨rfl, hv⟩ hfields⟩

section Assembled

variable {form : Form} {id : Ident} {place : Form → Value → Except Violation Record}
  {es : Entries}

/-- If each field can take a value with some property, there is a record whose fields have it. -/
theorem exists_assembled (id : Ident) {P : FieldSpec → Value → Prop}
    (hshape : form.isNode → form.kind?.isSome ∧ (es.contains "children" → form.shape = .branch))
    (hknown : unknownKeys form.specs es = [])
    (htakes : ∀ s ∈ form.specs, ∃ v, s.Takes form place es v ∧ P s v)
    (hcoupled : ∀ r : Record, r.form = form →
      r.fields.map Prod.fst = form.specs.map FieldSpec.field →
        (∀ s ∈ form.specs, P s (r.get s.field)) → checkCoupled form r = .ok ()) :
    ∃ r, Assembled form id place es r ∧ ∀ s ∈ form.specs, P s (r.get s.field) := by
  obtain ⟨fields, hfields⟩ := exists_fields htakes
  obtain ⟨hmap, hall⟩ := (forall₂_fields_iff (P := fun s v => s.Takes form place es v ∧ P s v)
    form.nodup_fields).1 hfields
  have hP : ∀ s ∈ form.specs, P s ((Record.mk id form fields).get s.field) :=
    fun s hs => (hall s hs).2
  exact ⟨⟨id, form, fields⟩, ⟨hshape, hknown, rfl, rfl, hmap, fun s hs => (hall s hs).1,
    hcoupled _ rfl hmap hP⟩, hP⟩

theorem Field.find?_congr {f : Field} {fs : Entries} (hf : f ≠ .children)
    (h : ∀ key, key ≠ "children" → fs.get? key = es.get? key) : f.find? fs = f.find? es := by
  unfold find?
  have hkeys := Field.children_not_mem_keys hf
  generalize f.keys = keys at hkeys
  induction keys with
  | nil => rfl
  | cons key keys ih =>
    obtain ⟨hkey, hrest⟩ := not_or.1 (mt List.mem_cons.2 hkeys)
    rw [List.findSome?_cons, List.findSome?_cons, h key (Ne.symm hkey), ih hrest]

theorem Field.find?_withChildren {f : Field} {rs : List Record} (hf : f ≠ .children) :
    f.find? (Entries.withChildren es rs) = f.find? es :=
  Field.find?_congr hf fun _ => Entries.get?_withChildren

theorem Field.find?_withChildren_children {rs : List Record} (h : es.contains "children") :
    Field.children.find? (Entries.withChildren es rs) =
      some ("children", .list (rs.map .record)) :=
  Field.find?_of_get?_key (f := .children) (Entries.get?_withChildren_children h)

theorem unknownKeys_withChildren (specs : List FieldSpec) (rs : List Record) :
    unknownKeys specs (Entries.withChildren es rs) = unknownKeys specs es := by
  apply unknownKeys_congr Entries.map_fst_withChildren
  intro s hs
  by_cases hc : s.field = .children
  · rw [hc]
    cases hget : es.get? "children" with
    | none => rw [Entries.withChildren_of_get?_none hget]
    | some v =>
      rw [Field.find?_withChildren_children (Entries.contains_of_get? hget),
        Field.find?_of_get?_key (f := .children) hget]
      rfl
  · rw [Field.find?_withChildren hc]

theorem checkCoupled_position_eq {r : Record} {p q : Place}
    (hp : (r.get .start).IsPointAt p) (hq : (r.get .stop).IsPointAt q) :
    checkCoupled .position r = checkPoints (r.get .start) (r.get .stop) := by
  obtain ⟨start, hs, -⟩ := hp.denotes
  obtain ⟨stop, he, -⟩ := hq.denotes
  have hfirst := Value.attribute_of_get? (Record.get?_of_get hs (by simp))
  have hlast := Value.attribute_of_get? (Record.get?_of_get he (by simp))
  simp only [checkCoupled, checkOrder, hs, he, hfirst, hlast, bind, Except.bind]

theorem checkCoupled_position_iff {r : Record} {p q : Place}
    (hp : (r.get .start).IsPointAt p) (hq : (r.get .stop).IsPointAt q) :
    checkCoupled .position r = .ok () ↔ p.Ordered q := by
  obtain ⟨start, -, hstart⟩ := hp.denotes
  obtain ⟨stop, -, hstop⟩ := hq.denotes
  rw [checkCoupled_position_eq hp hq]
  exact checkPoints_eq_ok_iff hstart hstop

theorem filterMap_node?_map {rs : List Record} (h : ∀ r ∈ rs, r.form.isNode) :
    (rs.map Value.record).filterMap Value.node? = rs := by
  induction rs with
  | nil => rfl
  | cons r rs ih =>
    obtain ⟨hr, hrs⟩ := List.forall_mem_cons.1 h
    rw [List.map_cons, List.filterMap_cons_some (Value.node?_eq_some.2 ⟨rfl, hr⟩), ih hrs]

theorem Assembled.gathers {r : Record} {v : Value} (h : Assembled form id place es r)
    (hb : form.shape = .branch) (hget : es.get? "children" = some v) :
    gatherChildren form v = .ok (r.get .children) := by
  rcases h.gathered hb with ⟨hnone, -⟩ | ⟨w, hw, hg⟩
  · cases hnone.symm.trans hget
  · rwa [Option.some.inj (hget.symm.trans hw)]

theorem Assembled.childNodes_eq {r : Record} {v : Value} {rs : List Record}
    (h : Assembled form id place es r) (hb : form.shape = .branch)
    (hget : es.get? "children" = some v) (hv : v.sequence? = some (rs.map .record)) :
    r.childNodes = rs := by
  obtain ⟨xs, hxs, hitems, hfit, -⟩ := gatherChildren_eq_ok_iff.1 (h.gathers hb hget)
  obtain rfl := Option.some.inj (hv.symm.trans hxs)
  have hnode : ∀ c ∈ rs, c.form.isNode := by
    intro c hc
    obtain ⟨c', kind, he, hn, -⟩ := hfit _ (List.mem_map_of_mem hc)
    rwa [Value.record.inj he]
  have hchildren : r.children = rs.map .record := by
    simp [Record.children, Record.isBranch, h.form_eq, hb, hitems]
  rw [Record.childNodes, hchildren, filterMap_node?_map hnode]

/-- The entries from which a mapping that lists its children is assembled: the given ones if there
are no children, and otherwise those with the loaded nodes in place of what is listed. -/
theorem loadEntries_cases {forms : Registry} {family : String} {loaded : Entries} {r : Record}
    {next mid : Ident} (hn : form.isNode)
    (hlist : ∀ w, es.get? "children" = some w → ∃ xs, w = .list xs ∨ w = .tuple xs)
    (hl : loadEntries forms family form es next = .ok (loaded, mid))
    (h : Assembled form id place loaded r) :
    es.get? "children" = none ∧ loaded = es ∧ mid = next ∨
      ∃ w xs rs, es.get? "children" = some w ∧ (w = .list xs ∨ w = .tuple xs) ∧
        form.shape = .branch ∧ loadItems forms family xs next = .ok (rs.map .record, mid) ∧
          loaded = Entries.withChildren es rs := by
  unfold loadEntries at hl
  cases hget : es.get? "children" with
  | none =>
    have hpure : (pure es : Build Entries) next = .ok (loaded, mid) := by
      rwa [loadChildren_of_get?_none hget, ite_self] at hl
    obtain ⟨rfl, rfl⟩ := Build.pure_eq_ok_iff.1 hpure
    exact .inl ⟨rfl, rfl, rfl⟩
  | some w =>
    obtain ⟨xs, hw⟩ := hlist w hget
    by_cases hb : form.shape = .branch
    · rw [if_pos hb] at hl
      obtain ⟨rs, hrs, hloaded⟩ := (loadChildren_eq_ok_iff hget hw).1 hl
      exact .inr ⟨w, xs, rs, rfl, hw, hb, hrs, hloaded⟩
    · rw [if_neg hb] at hl
      obtain ⟨rfl, -⟩ := Build.pure_eq_ok_iff.1 hl
      exact absurd ((h.shape hn).2 (Entries.contains_of_get? hget)) hb

end Assembled

/-- All nodes at and below the given ones have identities from `next` up to `next'`, and no two
have the same. -/
structure Fresh (next next' : Ident) (rs : List Record) : Prop where
  le : next ≤ next'
  within : ∀ n ∈ rs.flatMap Record.preorder, next ≤ n.id ∧ n.id < next'
  nodup : ((rs.flatMap Record.preorder).map Record.id).Nodup

namespace Fresh

variable {next mid next' : Ident} {r : Record} {rs : List Record}

theorem nil : Fresh next next [] :=
  ⟨Nat.le_refl next, by simp, by simp⟩

theorem append {before after : List Record} (hb : Fresh next mid before)
    (ha : Fresh mid next' after) : Fresh next next' (before ++ after) := by
  constructor
  · exact Nat.le_trans hb.le ha.le
  · rw [List.flatMap_append, List.forall_mem_append]
    exact ⟨fun n hn => ⟨(hb.within n hn).1, Nat.lt_of_lt_of_le (hb.within n hn).2 ha.le⟩,
      fun n hn => ⟨Nat.le_trans hb.le (ha.within n hn).1, (ha.within n hn).2⟩⟩
  · rw [List.flatMap_append, List.map_append, List.nodup_append]
    refine ⟨hb.nodup, ha.nodup, ?_⟩
    intro i hi j hj
    obtain ⟨n, hn, rfl⟩ := List.mem_map.1 hi
    obtain ⟨m, hm, rfl⟩ := List.mem_map.1 hj
    exact Nat.ne_of_lt (Nat.lt_of_lt_of_le (hb.within n hn).2 (ha.within m hm).1)

theorem cons (hr : Fresh next mid [r]) (hrs : Fresh mid next' rs) : Fresh next next' (r :: rs) :=
  hr.append hrs

/-- A node is built after its children, and with the next identity. -/
theorem node (hid : r.id = mid) (hc : Fresh next mid r.childNodes) : Fresh next (mid + 1) [r] := by
  have hone : [r].flatMap Record.preorder = r :: r.childNodes.flatMap Record.preorder := by
    rw [List.flatMap_singleton, Record.preorder_eq]
  constructor
  · exact Nat.le_succ_of_le hc.le
  · rw [hone, List.forall_mem_cons, hid]
    exact ⟨⟨hc.le, Nat.lt_succ_self mid⟩,
      fun n hn => ⟨(hc.within n hn).1, Nat.lt_succ_of_lt (hc.within n hn).2⟩⟩
  · rw [hone, List.map_cons, List.nodup_cons, hid]
    refine ⟨fun hmem => ?_, hc.nodup⟩
    obtain ⟨n, hn, he⟩ := List.mem_map.1 hmem
    exact absurd he (Nat.ne_of_lt (hc.within n hn).2)

end Fresh

theorem Assembled.walkable {form : Form} {id : Ident} {es : Entries} {r : Record}
    {place : Form → Value → Except Violation Record} (h : Assembled form id place es r)
    (hc : ∀ c ∈ r.childNodes, c.Walkable) : r.Walkable := by
  refine .of_children (fun hb => ?_) hc
  have hshape : form.shape = .branch := by simpa [Record.isBranch, h.form_eq] using hb
  rw [h.children_eq hshape, Record.children_eq_of_fitsUnder h.children.1]

theorem gatherChildren_of_visitable {form : Form} {v : Value} {rs : List Record}
    (hv : v.sequence? = some (rs.map .record)) (hrs : Visitable (visitsOfItems (rs.map .record)))
    (hfit : ∀ r ∈ rs, Record.FitsUnder form (.record r)) :
    gatherChildren form v = .ok (.tuple (rs.map .record)) :=
  gatherChildren_eq_ok_iff.2 ⟨rs.map .record, hv, rfl, List.forall_mem_map.2 hfit, hrs⟩

/-- New nodes are accepted as children where each of them may stand, in whichever sequence. -/
theorem gatherChildren_of_fresh {form : Form} {next next' : Ident} {v : Value} {rs : List Record}
    (hv : v.sequence? = some (rs.map .record)) (hrs : Fresh next next' rs)
    (hwalk : ∀ r ∈ rs, r.Walkable) (hfit : ∀ r ∈ rs, Record.FitsUnder form (.record r)) :
    gatherChildren form v = .ok (.tuple (rs.map .record)) :=
  gatherChildren_of_visitable hv (visitable_of_walkable hwalk hrs.nodup) hfit

/-- Each of the second nodes is a copy of the first one at its place, in which no two identities of
that one have become one. -/
def Copies (cs ds : List Record) : Prop :=
  List.Forall₂ (fun c d => ∃ new : Ident → Ident, d = c.relabel new ∧
    ∀ i ∈ c.idents, ∀ j ∈ c.idents, new i = new j → i = j) cs ds

namespace Copies

variable {cs ds : List Record}

theorem forall_mem {P : Record → Prop} (h : Copies cs ds)
    (hP : ∀ c ∈ cs, ∀ new : Ident → Ident,
      (∀ i ∈ c.idents, ∀ j ∈ c.idents, new i = new j → i = j) → P (c.relabel new)) :
    ∀ d ∈ ds, P d := by
  induction h with
  | nil => simp
  | cons hcd _ ih =>
    obtain ⟨new, rfl, hinj⟩ := hcd
    obtain ⟨hc, hrest⟩ := List.forall_mem_cons.1 hP
    exact List.forall_mem_cons.2 ⟨hc new hinj, ih hrest⟩

theorem forall₂ {R : Record → Record → Prop} (h : Copies cs ds)
    (hR : ∀ c ∈ cs, ∀ new : Ident → Ident, R (c.relabel new) c) : List.Forall₂ R ds cs := by
  induction h with
  | nil => exact .nil
  | cons hcd _ ih =>
    obtain ⟨new, rfl, -⟩ := hcd
    obtain ⟨hc, hrest⟩ := List.forall_mem_cons.1 hR
    exact .cons (hc new) (ih hrest)

theorem wellFormed (h : Copies cs ds) (hcs : ∀ c ∈ cs, c.WellFormed) : ∀ d ∈ ds, d.WellFormed :=
  h.forall_mem fun c hc _ hinj => (hcs c hc).relabel hinj

theorem fitsUnder (h : Copies cs ds) {holder : Form}
    (hcs : ∀ c ∈ cs, Record.FitsUnder holder (.record c)) :
    ∀ d ∈ ds, Record.FitsUnder holder (.record d) :=
  h.forall_mem fun c hc _ _ => (hcs c hc).relabel

end Copies

/-- The second nodes are copies of the first ones, made one after the other: of the identities from
`next` up to `next'`, each copy has those that follow the ones of the copies before it. -/
inductive Copied : Ident → Ident → List Record → List Record → Prop
  | nil {next : Ident} : Copied next next [] []
  | cons {next mid next' : Ident} {c : Record} {cs ds : List Record} {new : Ident → Ident} :
    next ≤ mid → (∀ i ∈ c.idents, next ≤ new i ∧ new i < mid) →
    (∀ i ∈ c.idents, ∀ j ∈ c.idents, new i = new j → i = j) → Copied mid next' cs ds →
    Copied next next' (c :: cs) (c.relabel new :: ds)

def Visit.atom? : Visit → Option Value
  | .met v => if v.ident?.isNone then some v else none
  | .stuck _ => none

/-- Copies of the nodes can be gone through: each of the nodes can be by itself, and what has no
identity is met once at most. Nodes that they have in common do not matter. -/
structure Copyable (cs : List Record) : Prop where
  each : ∀ c ∈ cs, Visitable c.visits
  atoms : ((visitsOfItems (cs.map .record)).filterMap Visit.atom?).Pairwise
    fun v w => ¬ w.isSame v

theorem visitsOfItems_cons_record (r : Record) (xs : List Value) :
    visitsOfItems (.record r :: xs) = r.visits ++ visitsOfItems xs := by
  rw [visitsOfItems]

theorem Copyable.of_visitable {cs : List Record}
    (h : Visitable (visitsOfItems (cs.map .record))) : Copyable cs := by
  constructor
  · intro c hc
    obtain ⟨before, after, rfl⟩ := List.append_of_mem hc
    rw [List.map_append, List.map_cons, visitsOfItems_eq, List.flatMap_append,
      List.flatMap_cons] at h
    exact (visitable_append.1 (visitable_append.1 h).2.1).1
  · obtain ⟨met, hmet, hpairs⟩ := h
    rw [hmet, List.filterMap_map, List.pairwise_filterMap]
    refine hpairs.imp fun {v w} hvw x hx y hy => ?_
    have hv : v = x := by simpa [Visit.atom?] using (Option.ite_none_right_eq_some.1 hx).2
    have hw : w = y := by simpa [Visit.atom?] using (Option.ite_none_right_eq_some.1 hy).2
    rwa [← hv, ← hw]

theorem Copyable.of_walkable {cs : List Record} (h : ∀ c ∈ cs, c.Walkable)
    (hnodup : ∀ c ∈ cs, (c.preorder.map Record.id).Nodup) : Copyable cs := by
  constructor
  · intro c hc
    rw [(h c hc).visits_eq, visitable_nodes_iff]
    exact hnodup c hc
  · have hnone : (visitsOfItems (cs.map .record)).filterMap Visit.atom? = [] := by
      rw [visitsOfItems_of_walkable h, List.filterMap_map]
      exact List.filterMap_eq_nil_iff.2 fun n _ => rfl
    rw [hnone]
    exact .nil

theorem Copyable.distinct {cs : List Record} (h : Copyable cs) :
    ∀ c ∈ cs, (c.preorder.map Record.id).Nodup :=
  fun c hc => (h.each c hc).nodup.sublist (c.preorder_sublist_visits.map Record.id)

namespace Copied

variable {next next' : Ident} {cs ds : List Record}

theorem le (h : Copied next next' cs ds) : next ≤ next' := by
  induction h with
  | nil => exact Nat.le_refl _
  | cons hle _ _ _ ih => exact Nat.le_trans hle ih

theorem copies (h : Copied next next' cs ds) : Copies cs ds := by
  induction h with
  | nil => exact .nil
  | cons _ _ hinj _ ih => exact .cons ⟨_, rfl, hinj⟩ ih

/-- Copies are new nodes. What the nodes have in common does not matter, as each of them is copied
by itself. -/
theorem fresh (h : Copied next next' cs ds) (hcs : ∀ c ∈ cs, (c.preorder.map Record.id).Nodup) :
    Fresh next next' ds := by
  induction h with
  | nil => exact .nil
  | @cons next mid next' c cs ds new hle hids hinj _ ih =>
    obtain ⟨hc, hcs⟩ := List.forall_mem_cons.1 hcs
    have hone : Fresh next mid [c.relabel new] := by
      constructor
      · exact hle
      · rw [List.flatMap_singleton, Record.preorder_relabel, List.forall_mem_map]
        intro n hn
        rw [Record.id_relabel]
        exact hids _ (Record.id_mem_idents hn)
      · simpa using Record.nodup_relabel hc hinj
    exact hone.cons (ih hcs)

theorem exists_of_met (h : Copied next next' cs ds) {w : Value}
    (hw : .met w ∈ visitsOfItems (ds.map .record)) :
    ∃ v new, w = v.relabel new ∧ .met v ∈ visitsOfItems (cs.map .record) ∧
      ∀ i ∈ w.ident?, next ≤ i ∧ i < next' := by
  induction h with
  | nil => simp [visitsOfItems] at hw
  | @cons next mid next' c cs ds new hle hids hinj hrest ih =>
    rw [List.map_cons, visitsOfItems_cons_record] at hw ⊢
    rcases List.mem_append.1 hw with hw | hw
    · rw [Record.visits_relabel] at hw
      obtain ⟨visit, hvisit, he⟩ := List.mem_map.1 hw
      obtain ⟨v, rfl, rfl⟩ := Visit.relabel_eq_met he
      refine ⟨v, new, rfl, List.mem_append_left _ hvisit, fun i hi => ?_⟩
      rw [Value.ident?_relabel] at hi
      obtain ⟨j, hj, rfl⟩ := Option.map_eq_some_iff.1 hi
      obtain ⟨hlo, hhi⟩ := hids j (Record.mem_idents_of_met hvisit hj)
      exact ⟨hlo, Nat.lt_of_lt_of_le hhi hrest.le⟩
    · obtain ⟨v, new', rfl, hv, hi⟩ := ih hw
      exact ⟨v, new', rfl, List.mem_append_right _ hv,
        fun i hm => ⟨Nat.le_trans hle (hi i hm).1, (hi i hm).2⟩⟩

theorem visitable (h : Copied next next' cs ds) (hcs : Copyable cs) :
    Visitable (visitsOfItems (ds.map .record)) := by
  induction h with
  | nil => exact ⟨[], by simp [visitsOfItems], .nil⟩
  | @cons next mid next' c cs ds new hle hids hinj hrest ih =>
    obtain ⟨heach, hatoms⟩ := hcs
    obtain ⟨hc, heach⟩ := List.forall_mem_cons.1 heach
    rw [List.map_cons, visitsOfItems_cons_record, List.filterMap_append] at hatoms
    obtain ⟨-, hatoms, hcross⟩ := List.pairwise_append.1 hatoms
    rw [List.map_cons, visitsOfItems_cons_record]
    refine visitable_append.2 ⟨hc.relabel hinj, ih ⟨heach, hatoms⟩, fun v w hv hw hsame => ?_⟩
    obtain ⟨y, new', rfl, hy, hident⟩ := hrest.exists_of_met hw
    rw [Record.visits_relabel] at hv
    obtain ⟨visit, hvisit, he⟩ := List.mem_map.1 hv
    obtain ⟨x, rfl, rfl⟩ := Visit.relabel_eq_met he
    have hidents := Value.ident?_eq_of_isSame hsame
    cases hyi : y.ident? with
    | none =>
      -- without an identity the copies are the values themselves, which are not met twice
      have hxi : x.ident? = none := by
        rw [Value.ident?_relabel, Value.ident?_relabel, hyi] at hidents
        simpa using hidents.symm
      refine hcross x ?_ y ?_ (Value.isSame_relabel_of_ident?_eq_none hyi hsame)
      · exact List.mem_filterMap.2 ⟨_, hvisit, by simp [Visit.atom?, hxi]⟩
      · exact List.mem_filterMap.2 ⟨_, hy, by simp [Visit.atom?, hyi]⟩
    | some i =>
      -- the identities of the first copy end where those of the others begin
      rw [Value.ident?_relabel y, hyi] at hidents hident
      rw [Value.ident?_relabel x] at hidents
      obtain ⟨j, hj, he⟩ := Option.map_eq_some_iff.1 hidents.symm
      have hlt := (hids j (Record.mem_idents_of_met hvisit hj)).2
      have hge := (hident _ rfl).1
      exact absurd (he ▸ hlt) (Nat.not_lt.2 hge)

end Copied

/-- Nodes can always be copied. -/
theorem exists_copies (cs : List Record) (next : Ident) :
    ∃ ds next', ((cs.map .record).mapM Value.copyMember : Build (List Value)) next =
      .ok (ds.map .record, next') ∧ Copied next next' cs ds := by
  induction cs generalizing next with
  | nil => exact ⟨[], next, rfl, .nil⟩
  | cons c cs ih =>
    obtain ⟨new, mid, hcopy, hle, hids, hinj⟩ := c.copy_record next
    obtain ⟨ds, next', hds, hcopied⟩ := ih mid
    refine ⟨c.relabel new :: ds, next', ?_, .cons hle hids hinj hcopied⟩
    rw [List.map_cons, List.mapM_cons]
    exact Build.bind_eq_ok_iff.2 ⟨_, mid, hcopy, Build.bind_eq_ok_iff.2
      ⟨_, next', hds, Build.pure_eq_ok_iff.2 ⟨rfl, rfl⟩⟩⟩

end DocTree
