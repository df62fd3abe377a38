import DocTree.Proofs.Reading
import DocTree.Proofs.Schema
import DocTree.Proofs.Updating
import DocTree.Session

/-!
Checks let only sound records through. A record that a check assembles stores in every field what
the schema allows, provided that the records it keeps, as places or as children, are sound already.
Main statements: `Assembled.sound` and `check_established`.
-/
namespace DocTree

section Assembled

variable {form : Form} {id : Ident} {place : Form → Value → Except Violation Record}
  {es : Entries} {r : Record}

theorem isProperty_of_forall₂ {es fs : Entries}
    (h : List.Forall₂ (fun e f => ∃ name,
      e.1 = .str name ∧ f.1 = .str name ∧ e.2.property? = some f.2) es fs) :
    ∀ f ∈ fs, (∃ s, f.1 = .str s) ∧ f.2.IsProperty := by
  induction h with
  | nil => simp
  | cons hp _ ih =>
    obtain ⟨name, -, hf, hv⟩ := hp
    exact List.forall_mem_cons.2 ⟨⟨⟨name, hf⟩, (property?_eq_some_iff.1 hv).1⟩, ih⟩

/-- What a rule makes of a value may be stored; `hplace` says so of places. -/
theorem Rule.Gives.stores {rule : Rule} {v w : Value} (h : rule.Gives form place v w)
    (hplace : ∀ f q, rule = .place f → place f v = .ok q →
      (Rule.place f).Stores form (.record q)) : rule.Stores form w := by
  cases rule with
  | place f =>
    obtain ⟨q, hq, rfl⟩ := h
    exact hplace f q rfl hq
  | children =>
    obtain ⟨xs, -, rfl, -⟩ := gatherChildren_eq_ok_iff.1 h
    exact ⟨xs, rfl⟩
  | properties =>
    rcases gatherProperties_eq_ok_iff.1 h with ⟨-, rfl⟩ | ⟨es, fs, -, rfl, hall⟩
    · exact ⟨[], rfl, by simp⟩
    · exact ⟨fs, rfl, isProperty_of_forall₂ hall⟩
  | kind | text | integer | flag | metadata =>
    obtain ⟨rfl, hs⟩ := h
    exact hs

theorem FieldSpec.Takes.stores {s : FieldSpec} {v : Value} (h : s.Takes form place es v)
    (hk : form.isNode → form.kind?.isSome) (hs : s ∈ form.specs)
    (hplace : ∀ f key w q, s.rule = .place f → s.field.find? es = some (key, w) →
      place f w = .ok q → (Rule.place f).Stores form (.record q)) : s.Stores form v := by
  cases h with
  | default _ hd => exact default_stores hk hs hd
  | null _ hn => exact .inl ⟨hn, rfl⟩
  | given hf _ hg => exact .inr (hg.stores fun f q hr hq => hplace f _ _ q hr hf hq)

theorem stores_of_takes (hk : form.isNode → form.kind?.isSome)
    (h : ∀ s ∈ form.specs, s.Takes form place es (r.get s.field))
    (hplace : ∀ s ∈ form.specs, ∀ f key v q, s.rule = .place f →
      s.field.find? es = some (key, v) → place f v = .ok q →
        (Rule.place f).Stores form (.record q)) :
    ∀ s ∈ form.specs, s.Stores form (r.get s.field) :=
  fun s hs => (h s hs).stores hk hs (hplace s hs)

theorem checkCoupled_list_int {n : Int} (h : r.get .start = .int n) :
    checkCoupled .list r = if (r.get .ordered).isTruthy ∧ n < 0 then .error (.negativeStart (.int n))
      else .ok () := by
  rw [checkCoupled, h]
  by_cases hordered : (r.get .ordered).isTruthy
  · by_cases hneg : n < 0 <;>
      simp [hordered, Value.isNull, Value.isNegative, hneg, bind, Except.bind] <;> rfl
  · simp [hordered]

theorem checkCoupled_list_iff
    (hordered : (FieldSpec.defaulted .ordered .flag (.bool false)).Stores .list (r.get .ordered))
    (hstart : (FieldSpec.optional .start (.integer none none)).Stores .list (r.get .start)) :
    checkCoupled .list r = .ok () ↔
      (r.get .ordered = .bool true → ∀ n, r.get .start = .int n → 0 ≤ n) := by
  obtain ⟨b, hb⟩ : ∃ b, r.get .ordered = .bool b := by
    rcases hordered with ⟨hn, -⟩ | hb
    · cases hn
    · exact hb
  rcases hstart with ⟨-, hnull⟩ | ⟨n, hn, -⟩
  · simp [checkCoupled, hnull, Value.isNull]
  · rw [checkCoupled_list_int hn, hb]
    cases b with
    | false => simp [Value.isTruthy]
    | true => by_cases hneg : n < 0 <;> simp [Value.isTruthy, hn, hneg]; omega

theorem checkCoupled_of_ne (hp : form ≠ .position) (hl : form ≠ .list) :
    checkCoupled form r = .ok () := by
  unfold checkCoupled
  split
  · exact absurd rfl hp
  · exact absurd rfl hl
  · rfl

theorem checkCoupled_iff (hp : form ≠ .position)
    (h : ∀ s ∈ form.specs, s.Stores form (r.get s.field)) :
    checkCoupled form r = .ok () ↔ (form = .list → r.get .ordered = .bool true →
      ∀ n, r.get .start = .int n → 0 ≤ n) := by
  by_cases hlist : form = .list
  · subst hlist
    rw [checkCoupled_list_iff (h _ Form.ordered_mem_specs) (h _ Form.start_mem_specs)]
    simp
  · simp [checkCoupled_of_ne hp hlist, hlist]

theorem Assembled.sound (h : Assembled form id place es r)
    (hplace : ∀ s ∈ form.specs, ∀ f key v q, s.rule = .place f →
      s.field.find? es = some (key, v) → place f v = .ok q →
        (Rule.place f).Stores form (.record q)) : r.Sound := by
  have hstores := stores_of_takes (fun hn => (h.shape hn).1) h.takes hplace
  obtain rfl := h.form_eq
  refine ⟨h.fields, hstores, fun hlist => ?_⟩
  have hp : r.form ≠ .position := by simp [hlist]
  exact (checkCoupled_iff hp hstores).1 h.coupled hlist

end Assembled

section Places

theorem Value.IsPointAt.denotes {v : Value} {p : Place} (h : v.IsPointAt p) :
    ∃ r, v = .record r ∧ Place.ofValue? v = some p := by
  obtain ⟨⟨id, rfl⟩, -⟩ := h
  obtain ⟨line, column, _ | offset⟩ := p <;> exact ⟨_, rfl, rfl⟩

theorem Value.IsPosition.points {r : Record} (h : (Value.record r).IsPosition) :
    ∃ p q, (r.get .start).IsPointAt p ∧ (r.get .stop).IsPointAt q ∧ p.Ordered q := by
  obtain ⟨id, first, last, p, q, he, hp, hq, ho⟩ := h
  obtain rfl := Value.record.inj he
  exact ⟨p, q, hp, hq, ho⟩

theorem Value.IsPosition.spans {v : Value} (h : v.IsPosition) :
    ∃ start stop p q, v.Spans start stop p q ∧ p.Ordered q := by
  obtain ⟨id, first, last, p, q, rfl, hp, hq, ho⟩ := h
  obtain ⟨start, rfl, hstart⟩ := hp.denotes
  obtain ⟨stop, rfl, hstop⟩ := hq.denotes
  exact ⟨start, stop, p, q, ⟨_, rfl, rfl, rfl, hstart, hstop⟩, ho⟩

variable {r : Record}

theorem Record.Sound.isPointAt (h : r.Sound) (hf : r.form = .point) :
    ∃ p, (Value.record r).IsPointAt p := by
  obtain ⟨id, form, fields⟩ := r
  obtain rfl : form = .point := hf
  obtain ⟨hfields, hstores, -⟩ := h
  match fields, hfields with
  | [(_, a), (_, b), (_, c)], hfields =>
    obtain ⟨rfl, rfl, rfl⟩ : _ = Field.line ∧ _ = Field.column ∧ _ = Field.offset := by
      simpa [Form.specs, Form.isNode, Form.ownSpecs, FieldSpec.required, FieldSpec.optional]
        using hfields
    obtain ⟨hn, -⟩ | ⟨line, hline, hl, -⟩ := hstores _ Form.line_mem_specs
    · simp [FieldSpec.required] at hn
    obtain ⟨hn, -⟩ | ⟨column, hcolumn, hc, -⟩ := hstores _ Form.column_mem_specs
    · simp [FieldSpec.required] at hn
    obtain rfl : a = .int line := hline
    obtain rfl : b = .int column := hcolumn
    obtain ⟨-, hnull⟩ | ⟨offset, hoffset, ho, -⟩ := hstores _ Form.offset_mem_specs
    · obtain rfl : c = .null := hnull
      exact ⟨⟨line, column, none⟩, ⟨id, rfl⟩, hl 1 rfl, hc 1 rfl, by simp⟩
    · obtain rfl : c = .int offset := hoffset
      exact ⟨⟨line, column, some offset⟩, ⟨id, rfl⟩, hl 1 rfl, hc 1 rfl, by simpa using ho 0 rfl⟩

theorem Record.Sound.isPosition (h : r.Sound) (hf : r.form = .position)
    (hc : checkCoupled .position r = .ok ()) : (Value.record r).IsPosition := by
  obtain ⟨id, form, fields⟩ := r
  obtain rfl : form = .position := hf
  obtain ⟨hfields, hstores, -⟩ := h
  match fields, hfields with
  | [(_, first), (_, last)], hfields =>
    obtain ⟨rfl, rfl⟩ : _ = Field.start ∧ _ = Field.stop := by
      simpa [Form.specs, Form.isNode, Form.ownSpecs, FieldSpec.required] using hfields
    obtain ⟨hn, -⟩ | ⟨p, hp⟩ := hstores _ Form.first_mem_specs
    · simp [FieldSpec.required] at hn
    obtain ⟨hn, -⟩ | ⟨q, hq⟩ := hstores _ Form.last_mem_specs
    · simp [FieldSpec.required] at hn
    change first.IsPointAt p at hp
    change last.IsPointAt q at hq
    obtain ⟨start, rfl, hstart⟩ := hp.denotes
    obtain ⟨stop, rfl, hstop⟩ := hq.denotes
    exact ⟨id, _, _, p, q, rfl, hp, hq, (checkPoints_eq_ok_iff hstart hstop).1 hc⟩

end Places

section OuterRecords

variable {q : Record}

theorem mem_outerRecordsOfItems {xs : List Value} :
    q ∈ outerRecordsOfItems xs ↔ ∃ x ∈ xs, q ∈ x.outerRecords := by
  induction xs with
  | nil => simp [outerRecordsOfItems]
  | cons x xs ih => simp [outerRecordsOfItems, ih]

theorem mem_outerRecordsOfEntries {es : Entries} :
    q ∈ outerRecordsOfEntries es ↔
      ∃ e ∈ es, q ∈ e.1.outerRecords ∨ q ∈ e.2.outerRecords := by
  induction es with
  | nil => simp [outerRecordsOfEntries]
  | cons e es ih => simp [outerRecordsOfEntries, ih, or_assoc]

theorem outerRecords_of_get? {es : Entries} {key : String} {v : Value}
    (h : es.get? key = some v) (hq : q ∈ v.outerRecords) : q ∈ outerRecordsOfEntries es :=
  mem_outerRecordsOfEntries.2 ⟨_, Entries.mem_of_get? h, .inr hq⟩

theorem mem_outerRecords_of_sequence? {v : Value} {xs : List Value}
    (h : v.sequence? = some xs) (hq : .record q ∈ xs) : q ∈ v.outerRecords := by
  have hitems : q ∈ outerRecordsOfItems xs :=
    mem_outerRecordsOfItems.2 ⟨_, hq, by simp [Value.outerRecords]⟩
  cases v with
  | list ys | tuple ys | set ys | stream i ys =>
    obtain rfl := Option.some.inj h
    exact hitems
  | record r =>
    obtain rfl := Option.some.inj h
    simp at hq
  | _ => cases h

end OuterRecords

namespace Record

/-- A place that a check has let through. -/
structure Placed (r : Record) : Prop where
  point : r.form = .point → ∃ p, (Value.record r).IsPointAt p
  position : r.form = .position → (Value.record r).IsPosition

/-- A record that a check has let through, when `next` is the next unused identity. -/
structure Established (next : Ident) (r : Record) : Prop extends r.Placed where
  node : r.form.isNode → r.WellFormed
  used : r.form.isNode → ∀ n ∈ r.preorder, n.id < next

theorem Established.mono {next next' : Ident} {r : Record} (h : r.Established next)
    (hle : next ≤ next') : r.Established next' :=
  ⟨h.toPlaced, h.node, fun hn n hm => Nat.lt_of_lt_of_le (h.used hn n hm) hle⟩

theorem WellFormed.of_children {r : Record} (hn : r.form.isNode) (hs : r.Sound)
    (he : ∀ v ∈ r.children, FitsUnder r.form v) (hc : ∀ c ∈ r.childNodes, c.WellFormed)
    (hd : (r.preorder.map id).Nodup) : r.WellFormed := by
  have hall : ∀ n ∈ r.preorder, n.Sound ∧ ∀ v ∈ n.children, FitsUnder n.form v := by
    rw [preorder_eq r]
    intro n hm
    rcases List.mem_cons.1 hm with rfl | hm
    · exact ⟨hs, he⟩
    · obtain ⟨c, hcm, hnc⟩ := List.mem_flatMap.1 hm
      exact ⟨(hc c hcm).sound n hnc, (hc c hcm).edges n hnc⟩
  exact ⟨hn, fun n hm => (hall n hm).1, fun n hm => (hall n hm).2, hd⟩

end Record

section Check

variable {form : Form} {id : Ident} {place : Form → Value → Except Violation Record}
  {v : Value} {r : Record}

theorem Assembled.isPointAt {es : Entries} (h : Assembled .point id place es r) :
    ∃ p, (Value.record r).IsPointAt p := by
  have hsound : r.Sound :=
    h.sound fun s hs f _ _ _ hr => absurd hr (Form.not_place_of_point s hs f)
  exact hsound.isPointAt h.form_eq

theorem checkWith_point_isPointAt (hv : ∀ q ∈ v.outerRecords, q.Placed)
    (h : checkWith .point id place v = .ok r) : ∃ p, (Value.record r).IsPointAt p := by
  rcases checkWith_eq_ok_iff.1 h with ⟨es, rfl, ha⟩ | ⟨rfl, hf, -⟩
  · exact ha.isPointAt
  · exact (hv r (by simp [Value.outerRecords])).point (by simpa [Form.isA] using hf)

theorem points_stores {es : Entries} (hv : ∀ q ∈ (Value.map es).outerRecords, q.Placed)
    {s : FieldSpec} (hs : s ∈ Form.position.specs) {f : Form} {key : String} {w : Value}
    {q : Record} (hr : s.rule = .place f) (hw : s.field.find? es = some (key, w))
    (hq : checkPoint id w = .ok q) : (Rule.place f).Stores .position (.record q) := by
  cases Form.declares hs with
  | place _ _ =>
    obtain rfl := Rule.place.inj hr
    refine checkWith_point_isPointAt (fun x hx => hv x ?_) hq
    exact outerRecords_of_get? (Field.find?_eq_some hw).2 hx
  | position hn => simp [Form.isNode] at hn
  | required _ h | optional _ h =>
    obtain rfl := hr
    simp [Rule.isScalar] at h
  | _ => simp [FieldSpec.defaulted, FieldSpec.optional] at hr

theorem checkPlace_stores (hf : form = .point ∨ form = .position)
    (hv : ∀ q ∈ v.outerRecords, q.Placed) (h : checkPlace id form v = .ok r) (holder : Form) :
    (Rule.place form).Stores holder (.record r) := by
  rcases hf with rfl | rfl
  · exact checkWith_point_isPointAt hv h
  · rcases checkWith_eq_ok_iff.1 h with ⟨es, rfl, ha⟩ | ⟨rfl, hf, -⟩
    · exact Record.Sound.isPosition (ha.sound fun s hs _ _ _ _ hr hw hq =>
        points_stores hv hs hr hw hq) ha.form_eq ha.coupled
    · exact (hv r (by simp [Value.outerRecords])).position (by simpa [Form.isA] using hf)

theorem Assembled.gathered {es : Entries} (h : Assembled form id place es r)
    (hb : form.shape = .branch) :
    es.get? "children" = none ∧ r.get .children = .tuple [] ∨
      ∃ v, es.get? "children" = some v ∧ gatherChildren form v = .ok (r.get .children) := by
  have ht := h.takes _ (Form.children_mem_specs hb)
  change FieldSpec.Takes form place es _ (r.get .children) at ht
  generalize r.get .children = stored at ht
  cases ht with
  | default hf hd =>
    refine .inl ⟨?_, (Option.some.inj hd).symm⟩
    exact Field.find?_eq_none_iff.1 hf _ (List.mem_singleton_self _)
  | null _ hnull => cases hnull
  | given hf _ hg =>
    obtain ⟨hkey, hget⟩ := Field.find?_eq_some hf
    obtain rfl := List.mem_singleton.1 hkey
    exact .inr ⟨_, hget, hg⟩

theorem Assembled.children_eq {es : Entries} (h : Assembled form id place es r)
    (hb : form.shape = .branch) : r.get .children = .tuple r.children := by
  have hstored : ∃ xs, r.get .children = .tuple xs := by
    rcases h.gathered hb with ⟨-, hnil⟩ | ⟨v, -, hg⟩
    · exact ⟨[], hnil⟩
    · obtain ⟨xs, -, hxs, -⟩ := gatherChildren_eq_ok_iff.1 hg
      exact ⟨xs, hxs⟩
  obtain ⟨xs, hxs⟩ := hstored
  simp [Record.children, Record.isBranch, h.form_eq, hb, hxs]

theorem Assembled.children_cases {es : Entries} (h : Assembled form id place es r) :
    r.children = [] ∨ ∃ v, es.get? "children" = some v ∧ v.sequence? = some r.children ∧
      (∀ x ∈ r.children, Record.FitsUnder form x) ∧ Visitable (visitsOfItems r.children) := by
  by_cases hb : form.shape = .branch
  · rcases h.gathered hb with ⟨-, hnil⟩ | ⟨v, hget, hg⟩
    · rw [h.children_eq hb] at hnil
      exact .inl (Value.tuple.inj hnil)
    · rw [h.children_eq hb] at hg
      obtain ⟨xs, hxs, he, hfit, hvisits⟩ := gatherChildren_eq_ok_iff.1 hg
      obtain rfl := Value.tuple.inj he
      exact .inr ⟨v, hget, hxs, hfit, hvisits⟩
  · exact .inl (by simp [Record.children, Record.isBranch, h.form_eq, hb])

theorem Assembled.visitable {es : Entries} (h : Assembled form id place es r) :
    Visitable (visitsOfItems r.children) := by
  rcases h.children_cases with hnil | ⟨v, -, -, -, hvisits⟩
  · rw [hnil]
    exact ⟨[], by simp [visitsOfItems], .nil⟩
  · exact hvisits

/-- The children of an assembled node may stand under it, no node stands twice below them, and
each that is a node stands in the entries. -/
theorem Assembled.children {es : Entries} (h : Assembled form id place es r) :
    (∀ x ∈ r.children, Record.FitsUnder form x) ∧
      ((r.childNodes.flatMap Record.preorder).map Record.id).Nodup ∧
        ∀ c ∈ r.childNodes, ∃ v, es.get? "children" = some v ∧ c ∈ v.outerRecords := by
  refine ⟨?_, h.visitable.nodup_preorder, fun c hc => ?_⟩
  · rcases h.children_cases with hnil | ⟨v, -, -, hfit, -⟩
    · simp [hnil]
    · exact hfit
  · obtain ⟨x, hx, hn⟩ := List.mem_filterMap.1 hc
    obtain ⟨rfl, -⟩ := Value.node?_eq_some.1 hn
    rcases h.children_cases with hnil | ⟨v, hget, hxs, -⟩
    · rw [hnil] at hx
      cases hx
    · exact ⟨v, hget, mem_outerRecords_of_sequence? hxs hx⟩

/-- What a check of the value may keep is established. A check never looks at what stands in
metadata. -/
def Value.Usable (next : Ident) : Value → Prop
  | .map es => ∀ key v, Entries.get? es key = some v → key ∉ Field.metadata.keys →
    ∀ q ∈ v.outerRecords, q.Established next
  | .record r => r.Established next
  | _ => True

theorem usable_of_outerRecords {next : Ident}
    (h : ∀ q ∈ v.outerRecords, q.Established next) : v.Usable next := by
  cases v with
  | map es => exact fun key v hv _ q hq => h q (outerRecords_of_get? hv hq)
  | record r => exact h r (by simp [Value.outerRecords])
  | _ => trivial

theorem Assembled.sound_of_usable {next : Ident} {es : Entries}
    (hv : (Value.map es).Usable next) (h : Assembled form next (checkPlace next) es r) :
    r.Sound := by
  refine h.sound fun s hs f key w q hr hw hq => ?_
  obtain ⟨hf, hkeys⟩ := place_declared hs hr
  obtain ⟨hkey, hget⟩ := Field.find?_eq_some hw
  exact checkPlace_stores hf (fun x hx => (hv key w hget (hkeys key hkey) x hx).toPlaced) hq form

/-- Children are checked against the new node only, and their own fields not at all: that they are
well-formed is known from when they were built. -/
theorem Assembled.wellFormed {next : Ident} {es : Entries} (hv : (Value.map es).Usable next)
    (h : Assembled form next (checkPlace next) es r) (hn : form.isNode) :
    r.WellFormed ∧ ∀ n ∈ r.preorder, n.id < next + 1 := by
  have hsound : r.Sound := h.sound_of_usable hv
  obtain ⟨hfit, hnodup, hmem⟩ := h.children
  have hchild : ∀ c ∈ r.childNodes, c.Established next ∧ c.form.isNode := by
    intro c hc
    obtain ⟨w, hget, hcw⟩ := hmem c hc
    obtain ⟨x, hx, hnode⟩ := List.mem_filterMap.1 hc
    exact ⟨hv "children" w hget (by decide) c hcw, (Value.node?_eq_some.1 hnode).2⟩
  have hused : ∀ n ∈ r.childNodes.flatMap Record.preorder, n.id < next := by
    intro n hm
    obtain ⟨c, hc, hnc⟩ := List.mem_flatMap.1 hm
    exact (hchild c hc).1.used (hchild c hc).2 n hnc
  obtain rfl := h.form_eq
  constructor
  · refine .of_children hn hsound hfit (fun c hc => (hchild c hc).1.node (hchild c hc).2) ?_
    rw [Record.preorder_eq, List.map_cons, List.nodup_cons, h.ident]
    refine ⟨fun hmem => ?_, hnodup⟩
    obtain ⟨n, hm, he⟩ := List.mem_map.1 hmem
    exact absurd he (Nat.ne_of_lt (hused n hm))
  · rw [Record.preorder_eq]
    intro n hm
    rcases List.mem_cons.1 hm with rfl | hm
    · exact h.ident ▸ Nat.lt_succ_self next
    · exact Nat.lt_succ_of_lt (hused n hm)

theorem check_established {next : Ident} (hv : v.Usable next) (h : check form next v = .ok r) :
    r.Established (next + 1) := by
  rcases checkWith_eq_ok_iff.1 h with ⟨es, rfl, ha⟩ | ⟨rfl, -, -⟩
  · have hsound : r.Sound := ha.sound_of_usable hv
    have hf := ha.form_eq
    constructor
    · exact ⟨hsound.isPointAt, fun hp => hsound.isPosition hp (hp ▸ hf ▸ ha.coupled)⟩
    · exact fun hn => (ha.wellFormed hv (hf ▸ hn)).1
    · exact fun hn => (ha.wellFormed hv (hf ▸ hn)).2
  · exact Record.Established.mono hv (Nat.le_succ next)

end Check

end DocTree
