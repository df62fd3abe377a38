import DocTree.Proofs.Session
import DocTree.Proofs.Sharing

/-!
The check of a node's children when it is built, and the audit of the same node put together
without any check. Where every child passes an audit of its own, nothing is left for the audit of
the whole but the edges at the top and nodes that are met again, and that is what the constructor
looks at. Main statements: `auditFrom_eq_of_passesAlone`, `audit_uncheckedRecord`
and `new_agrees_with_audit`.
-/
namespace DocTree

namespace Record

variable {seen : List Ident} {stack : List Record} {r : Record}

/-- Nothing is wrong at the node by itself, whatever was met before it. -/
def PassesAlone (r : Record) : Prop :=
  r.inspect [] = .ok ()

theorem inspect_eq (seen : List Ident) (r : Record) :
    r.inspect seen = if r.id ∈ seen then .error (r.byKind .sharedNode) else r.inspect [] := by
  by_cases hr : r.id ∈ seen
  · rw [inspect_of_mem hr, if_pos hr]
  · rw [inspect, if_neg hr, if_neg hr, inspect, if_neg List.not_mem_nil]

theorem passesAlone_iff : r.PassesAlone ↔
    r.checkPosition = .ok () ∧ r.Reversible ∧ ∀ v ∈ r.contents, FitsUnder r.form v := by
  have hcontents : r.checkContents = .ok () ↔
      r.Reversible ∧ ∀ v ∈ r.contents, FitsUnder r.form v := by
    constructor
    · intro h
      have hr := reversible_of_checkContents h
      rw [hr.checkContents_eq, ← hr.contents_eq] at h
      exact ⟨hr, checkChildren_eq_ok_iff.1 h⟩
    · rintro ⟨hr, hfit⟩
      rw [hr.checkContents_eq, ← hr.contents_eq]
      exact checkChildren_eq_ok_iff.2 hfit
  unfold PassesAlone inspect
  rw [if_neg List.not_mem_nil, ← hcontents]
  cases r.checkPosition with
  | error w => exact ⟨nofun, fun h => nomatch h.1⟩
  | ok u => exact ⟨fun h => ⟨rfl, h⟩, fun h => h.2⟩

theorem walkable_of_passesAlone (h : ∀ m ∈ r.preorder, m.PassesAlone) : r.Walkable where
  reversible m hm := (passesAlone_iff.1 (h m hm)).2.1
  nodes m hm v hv := by
    obtain ⟨-, hr, hfit⟩ := passesAlone_iff.1 (h m hm)
    obtain ⟨c, kind, rfl, hn, -⟩ := hfit v (hr.contents_eq ▸ hv)
    rw [Value.node?_eq_some.2 ⟨rfl, hn⟩]
    rfl

theorem PassesAlone.fits_childNodes (h : r.PassesAlone) :
    ∀ c ∈ r.childNodes, FitsUnder r.form (.record c) := by
  intro c hc
  obtain ⟨-, hr, hfit⟩ := passesAlone_iff.1 h
  obtain ⟨x, hx, hn⟩ := List.mem_filterMap.1 hc
  obtain ⟨rfl, -⟩ := Value.node?_eq_some.1 hn
  exact hfit _ (hr.contents_eq ▸ hx)

theorem FitsUnder.get?_kind {holder : Form} {c : Record} (h : FitsUnder holder (.record c)) :
    c.get? .kind = some c.kind := by
  obtain ⟨c', kind, he, -, -, hk, -⟩ := h
  obtain rfl := Value.record.inj he
  exact get?_kind_of_text hk

theorem get?_kind_of_passesAlone (h : ∀ m ∈ r.preorder, m.PassesAlone)
    (hr : r.get? .kind = some r.kind) : ∀ n ∈ r.preorder, n.get? .kind = some n.kind := by
  intro n hn
  rcases mem_preorder_iff.1 hn with rfl | habove
  · exact hr
  clear hn hr
  induction habove with
  | @child r n hc => exact ((h r (mem_preorder_iff.2 (.inl rfl))).fits_childNodes n hc).get?_kind
  | @deeper r c n hc _ ih => exact ih fun m hm => h m ((preorder_sublist hc).subset hm)

theorem passesAlone_of_auditFrom {n : Nat} (h : auditFrom seen stack = .ok n) :
    ∀ m ∈ walkFrom stack, m.PassesAlone := by
  induction stack using walkFrom.induct generalizing seen with
  | case1 => simp [walkFrom]
  | case2 r stack ih =>
    rw [auditFrom_cons, inspect_eq] at h
    rw [walkFrom, List.forall_mem_cons]
    by_cases hr : r.id ∈ seen
    · rw [if_pos hr] at h
      cases h
    · rw [if_neg hr] at h
      cases hi : r.inspect [] with
      | error w =>
        rw [hi] at h
        cases h
      | ok u =>
        rw [hi] at h
        exact ⟨hi, ih h⟩

/-- Where every node passes by itself, the audit finds nothing but nodes that are met again. -/
theorem auditFrom_eq_of_passesAlone (h : ∀ m ∈ walkFrom stack, m.PassesAlone) :
    auditFrom seen stack =
      match firstRepeated? seen (walkFrom stack) with
      | some n => .error (n.byKind .sharedNode)
      | none => .ok (seen.length + (walkFrom stack).length) := by
  induction stack using walkFrom.induct generalizing seen with
  | case1 => simp [auditFrom, walkFrom, firstRepeated?]
  | case2 r stack ih =>
    rw [walkFrom, List.forall_mem_cons] at h
    rw [auditFrom_cons, inspect_eq, walkFrom, firstRepeated?]
    by_cases hr : r.id ∈ seen
    · rw [if_pos hr, if_pos hr]
    · have hi : r.inspect [] = .ok () := h.1
      rw [if_neg hr, if_neg hr, hi]
      change auditFrom (r.id :: seen) (r.childNodes ++ stack) = _
      rw [ih h.2, List.length_cons, List.length_cons, Nat.add_right_comm, Nat.add_assoc]

end Record

section Unchecked

variable {form : Form} {id : Ident} {es : Entries}

theorem lookup_filterMap_field {specs : List FieldSpec} {s : FieldSpec} (hs : s ∈ specs)
    (hnodup : (specs.map FieldSpec.field).Nodup) (val : FieldSpec → Option Value) :
    (specs.filterMap fun s => (val s).map fun v => (s.field, v)).lookup s.field = val s := by
  induction specs with
  | nil => cases hs
  | cons t specs ih =>
    rw [List.map_cons, List.nodup_cons] at hnodup
    obtain ⟨ht, hrest⟩ := hnodup
    rcases List.mem_cons.1 hs with rfl | hs
    · cases hv : val s with
      | some v => simp [hv]
      | none =>
        rw [List.filterMap_cons_none (by simp [hv]), List.lookup_eq_none_iff]
        intro p hp
        obtain ⟨t, ht', he⟩ := List.mem_filterMap.1 hp
        obtain ⟨v, -, rfl⟩ := Option.map_eq_some_iff.1 he
        have hne : s.field ≠ t.field := fun hf => ht (hf ▸ List.mem_map_of_mem ht')
        simpa using hne
    · have hne : (s.field == t.field) = false := by
        have hne : s.field ≠ t.field := fun hf => ht (hf ▸ List.mem_map_of_mem hs)
        simpa using hne
      cases hv : val t with
      | some v =>
        rw [List.filterMap_cons_some (by rw [hv, Option.map_some]), List.lookup_cons, hne]
        exact ih hs hrest
      | none =>
        rw [List.filterMap_cons_none (by simp [hv])]
        exact ih hs hrest

theorem get_uncheckedRecord {s : FieldSpec} (hs : s ∈ form.specs) :
    (uncheckedRecord form id es).get s.field =
      (((s.field.find? es).map Prod.snd).or s.default?).getD .null := by
  have hfields : (uncheckedRecord form id es).fields = form.specs.filterMap fun s =>
      (((s.field.find? es).map Prod.snd).or s.default?).map fun v => (s.field, v) := by
    refine List.filterMap_congr fun s _ => ?_
    cases s.field.find? es <;> rfl
  rw [Record.get, Record.get?, hfields, lookup_filterMap_field hs form.nodup_fields]

end Unchecked

section Agreement

variable {form : Form} {fields : Entries} {cs : List Value} {next : Ident}

theorem children_uncheckedRecord (hb : form.shape = .branch) :
    (uncheckedRecord form next ((.str "children", .list cs) :: fields)).get .children =
      .list cs := by
  have hget := @get_uncheckedRecord form next ((.str "children", .list cs) :: fields) _
    (Form.children_mem_specs hb)
  rw [show (FieldSpec.defaulted .children .children (.tuple [])).field = .children from rfl,
    Field.find?_children_cons] at hget
  exact hget

theorem position_uncheckedRecord (hb : form.shape = .branch) (v : Value)
    (hposition : (fields.get? "position").getD .null = .null) :
    (uncheckedRecord form next ((.str "children", v) :: fields)).get .position = .null := by
  have hget := @get_uncheckedRecord form next ((.str "children", v) :: fields) _
    (Form.position_mem_specs (Form.isNode_of_branch hb))
  rw [show (FieldSpec.optional .position (.place .position)).field = .position from rfl,
    Field.find?_cons_children _ (by decide)] at hget
  rw [hget]
  cases hf : fields.get? "position" with
  | none => simp [Field.find?, Field.keys, Field.alias?, Field.label, hf, FieldSpec.optional]
  | some w => simpa [Field.find?, Field.keys, Field.alias?, Field.label, hf] using hposition

theorem children_eq_uncheckedRecord (hb : form.shape = .branch) :
    (uncheckedRecord form next ((.str "children", .list cs) :: fields)).children = cs := by
  have hbranch : (uncheckedRecord form next ((.str "children", .list cs) :: fields)).isBranch :=
    decide_eq_true hb
  rw [Record.children, if_pos hbranch, children_uncheckedRecord hb, Value.items_list]

theorem childNodes_uncheckedRecord (hb : form.shape = .branch) :
    (uncheckedRecord form next ((.str "children", .list cs) :: fields)).childNodes =
      cs.filterMap Value.node? := by
  rw [Record.childNodes, children_eq_uncheckedRecord hb]

theorem inspect_uncheckedRecord (hb : form.shape = .branch)
    (hposition : (fields.get? "position").getD .null = .null) :
    (uncheckedRecord form next ((.str "children", .list cs) :: fields)).inspect [] =
      checkChildren form cs := by
  have hplace : (uncheckedRecord form next
      ((.str "children", .list cs) :: fields)).checkPosition = .ok () := by
    rw [Record.checkPosition, Record.hasPosition, position_uncheckedRecord hb _ hposition]
    rfl
  have hreversible : (uncheckedRecord form next
      ((.str "children", .list cs) :: fields)).Reversible := fun _ =>
    ⟨_, cs, Record.get?_of_get (children_uncheckedRecord hb) nofun, rfl⟩
  rw [Record.inspect, if_neg List.not_mem_nil, hplace, hreversible.checkContents_eq,
    children_eq_uncheckedRecord hb]
  rfl

theorem walk_uncheckedRecord (hb : form.shape = .branch) :
    (uncheckedRecord form next ((.str "children", .list cs) :: fields)).walk =
      uncheckedRecord form next ((.str "children", .list cs) :: fields) :: nodesBelow cs := by
  rw [Record.walk, Record.walkFrom, childNodes_uncheckedRecord hb, List.append_nil]
  rfl

theorem mem_nodesBelow {n : Record} :
    n ∈ nodesBelow cs ↔ ∃ c ∈ cs, ∃ r, c.node? = some r ∧ n ∈ r.walk := by
  simp only [nodesBelow, Record.walkFrom_eq_preorder, List.mem_flatMap, List.mem_filterMap,
    Record.walk_eq_preorder]
  constructor
  · rintro ⟨r, ⟨c, hc, hr⟩, hn⟩
    exact ⟨c, hc, r, hr, hn⟩
  · rintro ⟨c, hc, r, hr, hn⟩
    exact ⟨r, ⟨c, hc, hr⟩, hn⟩

theorem firstRepeated?_walk_uncheckedRecord (hb : form.shape = .branch)
    (hunused : ∀ n ∈ nodesBelow cs, n.id < next) :
    firstRepeated? [] (uncheckedRecord form next ((.str "children", .list cs) :: fields)).walk =
      firstRepeated? [] (nodesBelow cs) := by
  rw [walk_uncheckedRecord hb, firstRepeated?, if_neg List.not_mem_nil]
  refine firstRepeated?_congr fun n hn => ?_
  have hne : n.id ≠ next := Nat.ne_of_lt (hunused n hn)
  simpa [uncheckedRecord] using hne

/-- The audit of a branch without a position looks at the edges at the top first, and then for
nodes that are met again. -/
theorem audit_uncheckedRecord (hb : form.shape = .branch)
    (hposition : (fields.get? "position").getD .null = .null)
    (hpass : ∀ n ∈ nodesBelow cs, n.PassesAlone) (hunused : ∀ n ∈ nodesBelow cs, n.id < next) :
    (uncheckedRecord form next ((.str "children", .list cs) :: fields)).audit =
      match checkChildren form cs with
      | .error w => .error w
      | .ok () =>
        match firstRepeated? [] (nodesBelow cs) with
        | some n => .error (n.byKind .sharedNode)
        | none => .ok (1 + (nodesBelow cs).length) := by
  have hwalk := @firstRepeated?_walk_uncheckedRecord form fields cs next hb hunused
  rw [walk_uncheckedRecord hb, firstRepeated?, if_neg List.not_mem_nil] at hwalk
  rw [Record.audit, Record.auditFrom_cons, inspect_uncheckedRecord hb hposition]
  cases checkChildren form cs with
  | error w => rfl
  | ok u =>
    dsimp only
    rw [childNodes_uncheckedRecord hb, List.append_nil,
      Record.auditFrom_eq_of_passesAlone hpass, ← nodesBelow, hwalk]
    rfl

/-- Children each of which may stand there and passes an audit of its own store kinds, and so do
all nodes below them. -/
theorem get?_kind_of_mem_nodesBelow (hfit : ∀ c ∈ cs, Record.FitsUnder form c)
    (hpass : ∀ n ∈ nodesBelow cs, n.PassesAlone) :
    ∀ n ∈ nodesBelow cs, n.get? .kind = some n.kind := by
  intro n hn
  obtain ⟨c, hc, r, hcr, hnr⟩ := mem_nodesBelow.1 hn
  obtain ⟨rfl, -⟩ := Value.node?_eq_some.1 hcr
  have hbelow : ∀ m ∈ r.preorder, m.PassesAlone := fun m hm =>
    hpass m (mem_nodesBelow.2 ⟨_, hc, r, hcr, r.walk_eq_preorder ▸ hm⟩)
  exact Record.get?_kind_of_passesAlone hbelow (hfit _ hc).get?_kind n (r.walk_eq_preorder ▸ hnr)

theorem gatherChildren_of_passesAlone (hpass : ∀ n ∈ nodesBelow cs, n.PassesAlone) :
    gatherChildren form (.list cs) =
      match checkChildren form cs with
      | .error w => .error w
      | .ok () =>
        match firstRepeated? [] (nodesBelow cs) with
        | some n => .error (n.byKind (.repeatedNode form))
        | none => .ok (.tuple cs) := by
  cases hc : checkChildren form cs with
  | error w => exact gatherChildren_of_error rfl hc
  | ok u =>
    have hwalk : ∀ r ∈ cs.filterMap Value.node?, r.Walkable := by
      intro r hr
      obtain ⟨c, hc, hcr⟩ := List.mem_filterMap.1 hr
      refine Record.walkable_of_passesAlone fun m hm => hpass m ?_
      exact mem_nodesBelow.2 ⟨c, hc, r, hcr, r.walk_eq_preorder ▸ hm⟩
    rw [gatherChildren_of_fits rfl (checkChildren_eq_ok_iff.1 hc) hwalk]
    cases firstRepeated? [] (nodesBelow cs) <;> rfl

theorem passesAlone_of_audits (hcs : ∀ c ∈ cs, ∀ r, c.node? = some r →
      (∃ n, r.audit = .ok n) ∧ ∀ n ∈ r.walk, n.id < next) :
    ∀ n ∈ nodesBelow cs, n.PassesAlone ∧ n.id < next := by
  intro n hn
  obtain ⟨c, hc, r, hcr, hn⟩ := mem_nodesBelow.1 hn
  obtain ⟨⟨k, hk⟩, hused⟩ := hcs c hc r hcr
  exact ⟨Record.passesAlone_of_auditFrom hk n hn, hused n hn⟩

/-- Take a branch whose fields are valid and without a position, and a list of children each of
which, if it is a node, passes an audit of its own; `next` is an identity that none of them has.
Then the node can be built from them if and only if the audit passes the node put together without
checks. If not, both fail in the same words if some child may not stand there, and otherwise for the
same node, the first in document order that was met before. Both refuse the structure, unless the
kind that a child stores is missing or cannot be looked up. -/
theorem new_agrees_with_audit (hb : form.shape = .branch)
    (hvalid : ∃ r, check form next (.map fields) = .ok r)
    (hnone : fields.get? "children" = none)
    (hposition : (fields.get? "position").getD .null = .null)
    (hcs : ∀ c ∈ cs, ∀ r, c.node? = some r →
      (∃ n, r.audit = .ok n) ∧ ∀ n ∈ r.walk, n.id < next) :
    let entries := (.str "children", .list cs) :: fields
    let tree := uncheckedRecord form next entries
    ((∃ r next', form.new entries next = .ok (r, next')) ↔ ∃ n, tree.audit = .ok n) ∧
    ∀ v w, form.new entries next = .error v → tree.audit = .error w →
      ((∃ c ∈ cs, checkChild form c ≠ .ok ()) → v = w) ∧
      ((∀ c ∈ cs, checkChild form c = .ok ()) → ∃ n, FirstShared tree.walk n ∧
        v = .repeatedNode form n.kind ∧ w = .sharedNode n.kind) ∧
      ((∀ c ∈ cs, ∀ r, c.node? = some r → r.Named) →
        v.faultClass = .shape ∧ w.faultClass = .shape) := by
  intro entries tree
  obtain ⟨r, hr⟩ := hvalid
  have hpass : ∀ n ∈ nodesBelow cs, n.PassesAlone := fun n hn => (passesAlone_of_audits hcs n hn).1
  have hunused : ∀ n ∈ nodesBelow cs, n.id < next := fun n hn => (passesAlone_of_audits hcs n hn).2
  have haudit : tree.audit = _ := audit_uncheckedRecord hb hposition hpass hunused
  have hgather := @gatherChildren_of_passesAlone form cs hpass
  cases hc : checkChildren form cs with
  | error w =>
    rw [hc] at haudit hgather
    have hnew : form.new entries next = .error w := new_eq_error_of_gather hb hr hgather
    refine ⟨by simp [hnew, haudit], fun v v' hv hv' => ?_⟩
    obtain rfl : w = v := Except.error.inj (hnew.symm.trans hv)
    obtain rfl : w = v' := Except.error.inj (haudit.symm.trans hv')
    obtain ⟨good, bad, rest, rfl, -, hfault⟩ := checkChildren_eq_error_iff.1 hc
    have hmem : bad ∈ good ++ bad :: rest := by simp
    refine ⟨fun _ => rfl, fun hall => ?_, fun hnamed => ?_⟩
    · cases (checkChild_eq_error_iff.2 hfault).symm.trans (hall bad hmem)
    · have hclass := hfault.faultClass (hnamed bad hmem)
      exact ⟨hclass, hclass⟩
  | ok u =>
    have hfit := checkChildren_eq_ok_iff.1 hc
    rw [hc] at haudit hgather
    cases hrepeated : firstRepeated? [] (nodesBelow cs) with
    | none =>
      rw [hrepeated] at hgather haudit
      obtain ⟨q, hnew, -⟩ := exists_new_of_gather hb hnone hr hgather
      refine ⟨⟨fun _ => ⟨_, haudit⟩, fun _ => ⟨q, _, hnew⟩⟩, fun v v' hv => ?_⟩
      cases hnew.symm.trans hv
    | some n =>
      have hkind : n.get? .kind = some n.kind := get?_kind_of_mem_nodesBelow hfit hpass n
        (mem_of_firstRepeated? hrepeated)
      rw [hrepeated] at hgather haudit
      dsimp only at hgather haudit
      rw [n.byKind_of_get? hkind] at hgather haudit
      have hnew : form.new entries next = .error (.repeatedNode form n.kind) :=
        new_eq_error_of_gather hb hr hgather
      refine ⟨by simp [hnew, haudit], fun v v' hv hv' => ?_⟩
      obtain rfl := Except.error.inj (hnew.symm.trans hv)
      obtain rfl := Except.error.inj (haudit.symm.trans hv')
      have hfirst : FirstShared tree.walk n := by
        rw [← firstRepeated?_eq_some_iff, firstRepeated?_walk_uncheckedRecord hb hunused]
        exact hrepeated
      refine ⟨fun ⟨c, hmem, hbad⟩ => ?_, fun _ => ⟨n, hfirst, rfl, rfl⟩, fun _ => ⟨rfl, rfl⟩⟩
      exact absurd (Record.checkChild_eq_ok_iff.2 (hfit c hmem)) hbad

def textTwice : List Value :=
  [.record (Session.mixedElement 2 "p" 0 1), .record (Session.loneText 0)]

theorem new_agrees_with_audit_textTwice :
    Form.hastRoot.shape = .branch ∧ (∃ r, check .hastRoot 3 (.map []) = .ok r) ∧
      (∀ c ∈ textTwice, ∀ r, c.node? = some r →
        (∃ n, r.audit = .ok n) ∧ ∀ n ∈ r.walk, n.id < 3) ∧
      (∀ c ∈ textTwice, ∀ r, c.node? = some r → r.Named) ∧
      ∃ n, FirstShared
          (uncheckedRecord .hastRoot 3 [(.str "children", .list textTwice)]).walk n ∧
        Form.hastRoot.new [(.str "children", .list textTwice)] 3 =
          .error (.repeatedNode .hastRoot n.kind) ∧
        (uncheckedRecord .hastRoot 3 [(.str "children", .list textTwice)]).audit =
          .error (.sharedNode n.kind) := by
  have hvalid : ∃ r, check .hastRoot 3 (.map []) = .ok r := ⟨_, rfl⟩
  have helement : (Session.mixedElement 2 "p" 0 1).audit = .ok 3 := by cbv
  have htext : (Session.loneText 0).audit = .ok 1 := by cbv
  have hcs : ∀ c ∈ textTwice, ∀ r, c.node? = some r →
      (∃ n, r.audit = .ok n) ∧ ∀ n ∈ r.walk, n.id < 3 := by
    have hids : ∀ n ∈ (Session.mixedElement 2 "p" 0 1).preorder, n.id < 3 := by decide
    have hid : ∀ n ∈ (Session.loneText 0).preorder, n.id < 3 := by decide
    simp only [textTwice, List.forall_mem_cons, List.not_mem_nil, false_implies, implies_true,
      and_true, Value.node?_record, Record.walk_eq_preorder]
    exact ⟨fun r hr => Option.some.inj hr ▸ ⟨⟨3, helement⟩, hids⟩,
      fun r hr => Option.some.inj hr ▸ ⟨⟨1, htext⟩, hid⟩⟩
  have hnamed : ∀ c ∈ textTwice, ∀ r, c.node? = some r → r.Named := by
    simp only [textTwice, List.forall_mem_cons, List.not_mem_nil, false_implies, implies_true,
      and_true]
    constructor <;> rintro r ⟨⟩ <;> exact ⟨.str _, rfl, fun _ => Value.not_barredBy_str⟩
  obtain ⟨hiff, hboth⟩ := new_agrees_with_audit rfl hvalid rfl rfl hcs
  have hnew : Form.hastRoot.new [(.str "children", .list textTwice)] 3 =
      .error (.repeatedNode .hastRoot (.str "text")) := by cbv
  cases haudit : (uncheckedRecord .hastRoot 3 [(.str "children", .list textTwice)]).audit with
  | ok n =>
    obtain ⟨r, next', hr⟩ := hiff.2 ⟨n, haudit⟩
    cases hnew.symm.trans hr
  | error w =>
    obtain ⟨-, hshared, -⟩ := hboth _ w hnew haudit
    have hall : ∀ c ∈ textTwice, checkChild .hastRoot c = .ok () := by
      simp only [textTwice, List.forall_mem_cons, List.not_mem_nil, false_implies, implies_true,
        and_true]
      exact ⟨rfl, rfl⟩
    obtain ⟨n, hn, hv, rfl⟩ := hshared hall
    exact ⟨rfl, hvalid, hcs, hnamed, n, hn, hnew.trans (congrArg _ hv), rfl⟩

end Agreement

end DocTree
