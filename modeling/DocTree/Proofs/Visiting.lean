import Mathlib.Data.List.Nodup
import DocTree.Proofs.Edges

/-!
What is met when a tree is gone through. The nodes of the walk are met in their order, whatever
else is; so if nothing is met twice then no node stands at two places. A tree whose children are
nodes throughout is walkable, and nothing but its nodes is met in it. Main statements:
`checkVisits_eq_ok_iff`, `Walkable.visits_eq` and `checkVisits_nodes`.
-/
namespace DocTree

variable {form : Form}

/-- The first node whose identity occurred before, in the nodes or among those seen. -/
def firstRepeated? (seen : List Ident) : List Record → Option Record
  | [] => none
  | r :: rest => if r.id ∈ seen then some r else firstRepeated? (r.id :: seen) rest

theorem firstRepeated?_eq_none_iff {seen : List Ident} {nodes : List Record} :
    firstRepeated? seen nodes = none ↔
      (nodes.map Record.id).Nodup ∧ ∀ r ∈ nodes, r.id ∉ seen := by
  induction nodes generalizing seen with
  | nil => simp [firstRepeated?]
  | cons r rest ih =>
    by_cases h : r.id ∈ seen
    · simp [firstRepeated?, h]
    · simp only [firstRepeated?, h, if_false, ih, List.map_cons, List.nodup_cons, List.mem_map,
        List.mem_cons, forall_eq_or_imp, not_or, not_false_eq_true, true_and, not_exists, not_and]
      constructor
      · rintro ⟨hn, hr⟩
        exact ⟨⟨fun x hx he => (hr x hx).1 he, hn⟩, fun x hx => (hr x hx).2⟩
      · rintro ⟨⟨hr, hn⟩, hs⟩
        exact ⟨hn, fun x hx => ⟨hr x hx, hs x hx⟩⟩

theorem mem_of_firstRepeated? {seen : List Ident} {nodes : List Record} {r : Record}
    (h : firstRepeated? seen nodes = some r) : r ∈ nodes := by
  induction nodes generalizing seen with
  | nil => cases h
  | cons n nodes ih =>
    rw [firstRepeated?] at h
    split at h
    · obtain rfl := Option.some.inj h
      exact List.mem_cons_self
    · exact List.mem_cons_of_mem n (ih h)

def Visit.record? : Visit → Option Record
  | .met (.record r) => some r
  | _ => none

/-- The visits go on to the end and meet nothing twice. -/
def Visitable (visits : List Visit) : Prop :=
  ∃ met : List Value, visits = met.map .met ∧ met.Pairwise fun v w => ¬ w.isSame v

theorem checkVisits_eq_ok_iff {seen : List Value} {visits : List Visit} :
    checkVisits form seen visits = .ok () ↔
      ∃ met : List Value, visits = met.map .met ∧ (met.Pairwise fun v w => ¬ w.isSame v) ∧
        ∀ v ∈ met, ∀ s ∈ seen, ¬ v.isSame s := by
  induction visits generalizing seen with
  | nil => exact ⟨fun _ => ⟨[], rfl, .nil, by simp⟩, fun _ => rfl⟩
  | cons visit visits ih =>
    cases visit with
    | stuck cause =>
      refine ⟨nofun, ?_⟩
      rintro ⟨_ | ⟨v, met⟩, hmet, -⟩ <;> simp at hmet
    | met v =>
      rw [checkVisits]
      by_cases hseen : seen.any v.isSame
      · obtain ⟨s, hs, hsame⟩ := List.any_eq_true.1 hseen
        rw [if_pos hseen]
        constructor
        · intro h
          cases hk : v.attribute .kind <;> rw [hk] at h <;> cases h
        · rintro ⟨_ | ⟨w, met⟩, hmet, -, hfresh⟩ <;> simp at hmet
          obtain ⟨rfl, rfl⟩ := hmet
          exact absurd hsame (hfresh v List.mem_cons_self s hs)
      · have hno : ∀ s ∈ seen, ¬ v.isSame s := fun s hs hsame =>
          hseen (List.any_eq_true.2 ⟨s, hs, hsame⟩)
        rw [if_neg hseen, ih]
        constructor
        · rintro ⟨met, rfl, hpairs, hfresh⟩
          refine ⟨v :: met, rfl, List.pairwise_cons.2 ⟨fun w hw => ?_, hpairs⟩, ?_⟩
          · exact hfresh w hw v List.mem_cons_self
          · exact List.forall_mem_cons.2
              ⟨hno, fun w hw s hs => hfresh w hw s (List.mem_cons_of_mem v hs)⟩
        · rintro ⟨_ | ⟨w, met⟩, hmet, hpairs, hfresh⟩ <;> simp at hmet
          obtain ⟨rfl, rfl⟩ := hmet
          obtain ⟨hv, hpairs⟩ := List.pairwise_cons.1 hpairs
          refine ⟨met, rfl, hpairs, fun w hw => List.forall_mem_cons.2 ⟨hv w hw, ?_⟩⟩
          exact hfresh w (List.mem_cons_of_mem v hw)

theorem checkVisits_nil_eq_ok_iff {visits : List Visit} :
    checkVisits form [] visits = .ok () ↔ Visitable visits := by
  simp [checkVisits_eq_ok_iff, Visitable]

theorem visitable_append {before after : List Visit} :
    Visitable (before ++ after) ↔ Visitable before ∧ Visitable after ∧
      ∀ v w, .met v ∈ before → .met w ∈ after → ¬ w.isSame v := by
  constructor
  · rintro ⟨met, hmet, hpairs⟩
    obtain ⟨xs, ys, rfl, rfl, rfl⟩ := List.append_eq_map_iff.1 hmet
    obtain ⟨hxs, hys, hcross⟩ := List.pairwise_append.1 hpairs
    refine ⟨⟨xs, rfl, hxs⟩, ⟨ys, rfl, hys⟩, fun v w hv hw => hcross v ?_ w ?_⟩
    · simpa using hv
    · simpa using hw
  · rintro ⟨⟨xs, rfl, hxs⟩, ⟨ys, rfl, hys⟩, hcross⟩
    refine ⟨xs ++ ys, (List.map_append).symm, List.pairwise_append.2 ⟨hxs, hys, ?_⟩⟩
    exact fun v hv w hw => hcross v w (List.mem_map_of_mem hv) (List.mem_map_of_mem hw)

theorem Visitable.nodup {visits : List Visit} (h : Visitable visits) :
    ((visits.filterMap Visit.record?).map Record.id).Nodup := by
  obtain ⟨met, rfl, hpairs⟩ := h
  rw [List.filterMap_map, List.Nodup, List.pairwise_map, List.pairwise_filterMap]
  refine hpairs.imp fun {v w} hvw q hq r hr he => hvw ?_
  cases v <;> cases hq
  cases w <;> cases hr
  simp [Value.isSame, he]

theorem visitable_nodes_iff {nodes : List Record} :
    Visitable (nodes.map fun n => .met (.record n)) ↔ (nodes.map Record.id).Nodup := by
  have hmap : (nodes.map fun n => Visit.met (.record n)) = (nodes.map .record).map .met := by
    rw [List.map_map]
    rfl
  constructor
  · intro h
    have hnodup := h.nodup
    rwa [List.filterMap_map, show Visit.record? ∘ (fun n => .met (.record n)) = some from rfl,
      List.filterMap_some] at hnodup
  · intro h
    refine ⟨nodes.map .record, hmap, ?_⟩
    rw [List.pairwise_map]
    rw [List.Nodup, List.pairwise_map] at h
    exact h.imp fun hne => by simpa [Value.isSame, eq_comm] using hne

theorem flatMap_preorder_sublist {xs : List Value}
    (h : ∀ c, .record c ∈ xs → c.form.isNode →
      c.preorder.Sublist (c.visits.filterMap Visit.record?)) :
    ((xs.filterMap Value.node?).flatMap Record.preorder).Sublist
      ((xs.flatMap Value.visits).filterMap Visit.record?) := by
  induction xs with
  | nil => simp
  | cons x xs ih =>
    have hrest := ih fun c hc => h c (List.mem_cons_of_mem x hc)
    rw [List.flatMap_cons, List.filterMap_append]
    cases hx : x.node? with
    | none =>
      rw [List.filterMap_cons_none hx]
      exact hrest.trans (List.sublist_append_right _ _)
    | some c =>
      obtain ⟨rfl, hc⟩ := Value.node?_eq_some.1 hx
      rw [List.filterMap_cons_some hx, List.flatMap_cons]
      exact (h c List.mem_cons_self hc).append hrest

namespace Record

theorem preorder_sublist_visits (r : Record) :
    r.preorder.Sublist (r.visits.filterMap Visit.record?) := by
  rw [preorder_eq, visits_eq]
  refine List.Sublist.cons_cons r ?_
  by_cases hb : r.isBranch
  · rw [if_pos hb]
    cases hv : r.get? .children with
    | none => simp [childNodes, children, hb, get, hv, Value.items, Value.items?]
    | some v =>
      have hc : r.childNodes = v.items.filterMap Value.node? := by
        simp [childNodes, children, hb, get, hv]
      cases hxs : v.items? with
      | none => simp [hc, Value.items, hxs]
      | some xs =>
        have hitems : v.items = xs := by simp [Value.items, hxs]
        rw [hc, hitems]
        simp only [Value.visitsBelow, hxs]
        refine flatMap_preorder_sublist fun c hmem hn => ?_
        have hchild : c ∈ r.childNodes := by
          rw [hc, hitems]
          exact List.mem_filterMap.2 ⟨_, hmem, Value.node?_eq_some.2 ⟨rfl, hn⟩⟩
        exact preorder_sublist_visits c
  · simp [childNodes, children, hb]
termination_by r.count
decreasing_by exact count_lt_of_mem_childNodes hchild

end Record

theorem Visitable.nodup_preorder {xs : List Value} (h : Visitable (visitsOfItems xs)) :
    (((xs.filterMap Value.node?).flatMap Record.preorder).map Record.id).Nodup := by
  rw [visitsOfItems_eq] at h
  exact h.nodup.sublist
    ((flatMap_preorder_sublist fun c _ _ => c.preorder_sublist_visits).map Record.id)

namespace Record

/-- All children in the tree are nodes, and one can go through them from the end. -/
structure Walkable (r : Record) : Prop where
  reversible : ∀ n ∈ r.preorder, n.Reversible
  nodes : ∀ n ∈ r.preorder, ∀ v ∈ n.children, v.node?.isSome

theorem Walkable.childNode {r c : Record} (h : r.Walkable) (hc : c ∈ r.childNodes) :
    c.Walkable := by
  have hmem : ∀ n ∈ c.preorder, n ∈ r.preorder := by
    intro n hn
    rw [preorder_eq r]
    exact List.mem_cons_of_mem r (List.mem_flatMap.2 ⟨c, hc, hn⟩)
  exact ⟨fun n hn => h.reversible n (hmem n hn), fun n hn => h.nodes n (hmem n hn)⟩

theorem Walkable.of_children {r : Record}
    (hstored : r.isBranch → r.get .children = .tuple (r.childNodes.map .record))
    (hc : ∀ c ∈ r.childNodes, c.Walkable) : r.Walkable := by
  have hself : r.Reversible ∧ ∀ v ∈ r.children, v.node?.isSome := by
    refine ⟨fun hb => ⟨_, _, get?_of_get (hstored hb) nofun, rfl⟩, fun v hv => ?_⟩
    by_cases hb : r.isBranch
    · rw [children, if_pos hb, hstored hb, Value.items_tuple] at hv
      obtain ⟨c, hcm, rfl⟩ := List.mem_map.1 hv
      obtain ⟨x, -, hx⟩ := List.mem_filterMap.1 hcm
      rw [← (Value.node?_eq_some.1 hx).1, hx]
      rfl
    · rw [children, if_neg hb] at hv
      cases hv
  constructor <;> intro n hn <;> rw [preorder_eq] at hn <;>
    rcases List.mem_cons.1 hn with rfl | hn
  · exact hself.1
  · obtain ⟨c, hcm, hn⟩ := List.mem_flatMap.1 hn
    exact (hc c hcm).reversible n hn
  · exact hself.2
  · obtain ⟨c, hcm, hn⟩ := List.mem_flatMap.1 hn
    exact (hc c hcm).nodes n hn

theorem eq_map_record_of_nodes {xs : List Value} (h : ∀ v ∈ xs, v.node?.isSome) :
    xs = (xs.filterMap Value.node?).map .record := by
  induction xs with
  | nil => rfl
  | cons x xs ih =>
    obtain ⟨hx, hrest⟩ := List.forall_mem_cons.1 h
    obtain ⟨c, hc⟩ := Option.isSome_iff_exists.1 hx
    rw [List.filterMap_cons_some hc, List.map_cons, ← ih hrest, (Value.node?_eq_some.1 hc).1]

theorem eq_map_record_of_fitsUnder {holder : Form} {xs : List Value}
    (h : ∀ v ∈ xs, FitsUnder holder v) : xs = (xs.filterMap Value.node?).map .record :=
  eq_map_record_of_nodes fun v hv => by
    obtain ⟨c, kind, rfl, hn, -⟩ := h v hv
    exact Option.isSome_iff_exists.2 ⟨c, Value.node?_eq_some.2 ⟨rfl, hn⟩⟩

theorem Walkable.visits_eq {r : Record} (h : r.Walkable) :
    r.visits = r.preorder.map fun n => .met (.record n) := by
  have hself : r ∈ r.preorder := mem_preorder_iff.2 (.inl rfl)
  rw [Record.visits_eq, preorder_eq, List.map_cons, List.map_flatMap]
  congr 1
  by_cases hb : r.isBranch
  · obtain ⟨v, xs, hv, hxs⟩ := h.reversible r hself hb
    have hchildren : r.children = xs := by simp [children, hb, get, hv, Value.items, hxs]
    have hnodes : xs = r.childNodes.map .record := by
      rw [childNodes, hchildren]
      exact eq_map_record_of_nodes (hchildren ▸ h.nodes r hself)
    rw [if_pos hb, hv]
    simp only [Value.visitsBelow, hxs]
    rw [hnodes, List.flatMap_map]
    exact List.flatMap_congr fun c hc => (h.childNode hc).visits_eq
  · simp [hb, childNodes, children]
termination_by r.count
decreasing_by exact count_lt_of_mem_childNodes hc

end Record

theorem visitsOfItems_of_walkable {nodes : List Record} (h : ∀ r ∈ nodes, r.Walkable) :
    visitsOfItems (nodes.map .record) =
      (nodes.flatMap Record.preorder).map fun n => .met (.record n) := by
  rw [visitsOfItems_eq, List.flatMap_map, List.map_flatMap]
  exact List.flatMap_congr fun r hr => (h r hr).visits_eq

/-- Of nodes alone, the first that repeats another is refused. -/
theorem checkVisits_nodes (seen nodes : List Record) :
    checkVisits form (seen.map .record) (nodes.map fun n => .met (.record n)) =
      match firstRepeated? (seen.map Record.id) nodes with
      | none => .ok ()
      | some r => .error (r.byKind (.repeatedNode form)) := by
  induction nodes generalizing seen with
  | nil => rfl
  | cons r nodes ih =>
    have hseen : (seen.map Value.record).any (Value.record r).isSame ↔ r.id ∈ seen.map Record.id := by
      rw [List.any_map, List.any_eq_true, List.mem_map]
      exact exists_congr fun s => and_congr_right fun _ => by
        rw [Function.comp_apply, Value.isSame, decide_eq_true_eq, eq_comm]
    rw [List.map_cons, checkVisits, firstRepeated?]
    by_cases hr : r.id ∈ seen.map Record.id
    · rw [if_pos (hseen.2 hr), if_pos hr]
      exact r.attribute_kind_bind (.repeatedNode form)
    · rw [if_neg (mt hseen.1 hr), if_neg hr]
      exact ih (r :: seen)

theorem visitable_of_walkable {nodes : List Record} (h : ∀ r ∈ nodes, r.Walkable)
    (hnodup : ((nodes.flatMap Record.preorder).map Record.id).Nodup) :
    Visitable (visitsOfItems (nodes.map .record)) := by
  rw [visitsOfItems_of_walkable h, visitable_nodes_iff]
  exact hnodup

end DocTree
