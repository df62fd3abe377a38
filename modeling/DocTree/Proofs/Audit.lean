import DocTree.Check
import DocTree.Proofs.Edges

/-!
What the audit of a tree decides. The loop keeps that nothing was wrong at the nodes visited so far
and that the identities met are theirs, so it ends at the first offence in document order or after
the last node. Main statements: `auditFrom_spec`, `audit_eq_ok_iff`,
`audit_eq_error_iff` and `audit_exact`.
-/
namespace DocTree

theorem Value.Spans.unique {v : Value} {start stop start' stop' : Record} {p q p' q' : Place}
    (h : v.Spans start stop p q) (h' : v.Spans start' stop' p' q') :
    start = start' ∧ stop = stop' ∧ p = p' ∧ q = q' := by
  obtain ⟨r, rfl, hs, he, hp, hq⟩ := h
  obtain ⟨r', hr, hs', he', hp', hq'⟩ := h'
  obtain rfl := Value.record.inj hr
  obtain rfl := Value.record.inj (hs.symm.trans hs')
  obtain rfl := Value.record.inj (he.symm.trans he')
  exact ⟨rfl, rfl, Option.some.inj (hp.symm.trans hp'), Option.some.inj (hq.symm.trans hq')⟩

theorem Value.Spans.ne_null {v : Value} {start stop : Record} {p q : Place}
    (h : v.Spans start stop p q) : v ≠ .null := by
  obtain ⟨r, rfl, -⟩ := h
  nofun

theorem Value.Spans.isNull_eq {v : Value} {start stop : Record} {p q : Place}
    (h : v.Spans start stop p q) : v.isNull = false := by
  simpa [← Value.isNull_iff] using h.ne_null

theorem checkOrder_spans {v : Value} {start stop : Record} {p q : Place}
    (h : v.Spans start stop p q) : checkOrder v = checkPoints (.record start) (.record stop) := by
  obtain ⟨r, rfl, hs, he, -, -⟩ := h
  have hstart := Value.attribute_of_get? (Record.get?_of_get hs nofun)
  have hstop := Value.attribute_of_get? (Record.get?_of_get he nofun)
  simp only [checkOrder, hstart, hstop, bind, Except.bind]

theorem checkPoints_eq_error_iff {start stop : Value} {p q : Place} {v : Violation}
    (hp : Place.ofValue? start = some p) (hq : Place.ofValue? stop = some q) :
    checkPoints start stop = .error v ↔
      (q.line < p.line ∨ q.line = p.line ∧ q.column < p.column) ∧
          v = .placeOrder (.int p.line, .int p.column) (.int q.line, .int q.column) ∨
      (p.line < q.line ∨ p.line = q.line ∧ p.column ≤ q.column) ∧
        ∃ s e, p.offset? = some s ∧ q.offset? = some e ∧ e < s ∧
          v = .offsetOrder (.int s) (.int e) := by
  rw [checkPoints_of_ofValue? hp hq, checkOffsets_of_ofValue? hp hq]
  by_cases hplace : q.line < p.line ∨ q.line = p.line ∧ q.column < p.column
  · have hnot : ¬ (p.line < q.line ∨ p.line = q.line ∧ p.column ≤ q.column) := by omega
    rw [if_pos hplace]
    simp only [hplace, hnot, true_and, false_and, or_false, Except.error.injEq]
    exact eq_comm
  · have hle : p.line < q.line ∨ p.line = q.line ∧ p.column ≤ q.column := by omega
    rw [if_neg hplace]
    simp only [hplace, hle, true_and, false_and, false_or]
    cases p.offset? with
    | none => simp
    | some s =>
      cases q.offset? with
      | none => simp
      | some e => by_cases hlt : e < s <;> simp [hlt, eq_comm]

namespace Record

theorem Inspectable.checkPosition_eq_ok_iff {r : Record} (h : r.Inspectable) :
    r.checkPosition = .ok () ↔ (r.get .position).InOrder := by
  unfold checkPosition hasPosition
  rcases h.position with hnull | ⟨start, stop, p, q, h⟩
  · simp [hnull, Value.InOrder, Value.isNull]
  · have hiff : checkPoints (.record start) (.record stop) = .ok () ↔ p.Ordered q := by
      obtain ⟨x, -, -, -, hp, hq⟩ := h
      exact checkPoints_eq_ok_iff hp hq
    rw [if_pos (by simp [h.isNull_eq]), checkOrder_spans h, hiff]
    constructor
    · intro ho
      exact .inr ⟨start, stop, p, q, h, ho⟩
    · rintro (hnull | ⟨start', stop', p', q', h', ho⟩)
      · exact absurd hnull h.ne_null
      · obtain ⟨-, -, rfl, rfl⟩ := h.unique h'
        exact ho

theorem Inspectable.checkPosition_eq_error_iff {r : Record} {v : Violation}
    (h : r.Inspectable) : r.checkPosition = .error v ↔ OrderFault (r.get .position) v := by
  unfold checkPosition hasPosition
  rcases h.position with hnull | ⟨start, stop, p, q, h⟩
  · simp only [hnull, Value.isNull, Bool.not_true, Bool.false_eq_true, if_false, reduceCtorEq,
      false_iff]
    rintro (⟨h, -⟩ | ⟨h, -⟩) <;> exact h.ne_null rfl
  · have hiff := h
    obtain ⟨x, -, -, -, hp, hq⟩ := hiff
    rw [if_pos (by simp [h.isNull_eq]), checkOrder_spans h,
      checkPoints_eq_error_iff hp hq]
    constructor
    · rintro (⟨hplace, rfl⟩ | ⟨hle, s, e, hs, he, hlt, rfl⟩)
      · exact .place h hplace
      · exact .offset h hle hs he hlt
    · rintro (⟨h', hplace⟩ | ⟨h', hle, hs, he, hlt⟩)
      · obtain ⟨rfl, rfl, rfl, rfl⟩ := h.unique h'
        exact .inl ⟨hplace, rfl⟩
      · obtain ⟨rfl, rfl, rfl, rfl⟩ := h.unique h'
        exact .inr ⟨hle, _, _, hs, he, hlt, rfl⟩

theorem Reversible.contents_eq {r : Record} (h : r.Reversible) : r.contents = r.children := by
  unfold contents children
  by_cases hb : r.isBranch
  · obtain ⟨v, xs, hv, hxs⟩ := h hb
    rw [if_pos hb, if_pos hb, get, hv, Option.getD_some, Value.elements?_of_items? hxs,
      Value.items, hxs]
  · rw [if_neg hb, if_neg hb]

theorem Reversible.checkContents_eq {r : Record} (h : r.Reversible) :
    r.checkContents = checkChildren r.form r.children := by
  unfold checkContents
  by_cases hb : r.isBranch
  · obtain ⟨v, xs, hv, hxs⟩ := h hb
    rw [if_pos hb, h.contents_eq, Value.attribute_of_get? hv]
    simp only [bind, Except.bind, Value.elements?_of_items? hxs, hxs, Option.isNone_some,
      Bool.false_eq_true, if_false]
    cases checkChildren r.form r.children <;> rfl
  · rw [if_neg hb, children, if_neg hb]
    rfl

theorem reversible_of_checkContents {r : Record} (h : r.checkContents = .ok ()) :
    r.Reversible := by
  intro hb
  rw [checkContents, if_pos hb] at h
  cases hv : r.get? .children with
  | none =>
    rw [Value.attribute_of_get?_none hv] at h
    cases h
  | some v =>
    rw [Value.attribute_of_get? hv] at h
    cases hxs : v.items? with
    | some xs => exact ⟨v, xs, rfl, hxs⟩
    | none =>
      obtain ⟨w, hw, h⟩ := check_bind_eq_ok_iff.1 h
      obtain rfl := Except.ok.inj hw
      split at h
      · cases h
      · obtain ⟨-, -, h⟩ := check_bind_eq_ok_iff.1 h
        rw [hxs] at h
        cases h

theorem Inspectable.reversible {r : Record} (h : r.Inspectable) : r.Reversible := by
  intro hb
  obtain ⟨xs, hx | hx⟩ := h.sequence hb <;> exact ⟨_, xs, get?_of_get hx nofun, rfl⟩

theorem auditFrom_cons (seen : List Ident) (r : Record) (stack : List Record) :
    auditFrom seen (r :: stack) =
      match r.inspect seen with
      | .error v => .error v
      | .ok () => auditFrom (r.id :: seen) (r.childNodes ++ stack) := by
  cases h : r.inspect seen <;> simp only [auditFrom, h]

theorem mem_ids_iff {before : List Record} {i : Ident} :
    i ∈ (before.map id).reverse ↔ ∃ x ∈ before, x.id = i := by
  simp

theorem inspect_of_mem {seen : List Ident} {r : Record} (h : r.id ∈ seen) :
    r.inspect seen = .error (r.byKind .sharedNode) := by
  rw [inspect, if_pos h]
  exact r.attribute_kind_bind .sharedNode

theorem Inspectable.inspect_of_not_mem {seen : List Ident} {r : Record} (hr : r.Inspectable)
    (h : r.id ∉ seen) :
    r.inspect seen =
      match r.checkPosition with
      | .error v => .error v
      | .ok () => checkChildren r.form r.children := by
  rw [inspect, if_neg h, hr.reversible.checkContents_eq]
  cases r.checkPosition <;> rfl

theorem offends_iff_of_mem {before : List Record} {r : Record} {v : Violation}
    (h : ∃ x ∈ before, x.id = r.id) : r.Offends before v ↔ v = r.byKind .sharedNode := by
  obtain ⟨x, hx, he⟩ := h
  constructor
  · rintro (⟨-, hk⟩ | ⟨-, hk⟩ | ⟨hno, -⟩ | ⟨hno, -⟩)
    · rw [r.byKind_of_get? hk]
    · rw [r.byKind_of_get?_none hk]
    · exact absurd he (hno x hx)
    · exact absurd he (hno x hx)
  · rintro rfl
    cases hk : r.get? .kind with
    | some kind => exact r.byKind_of_get? hk .sharedNode ▸ .shared ⟨x, hx, he⟩ hk
    | none => exact r.byKind_of_get?_none hk .sharedNode ▸ .sharedNameless ⟨x, hx, he⟩ hk

theorem offends_iff_of_not_mem {before : List Record} {r : Record} {v : Violation}
    (h : ¬ ∃ x ∈ before, x.id = r.id) :
    r.Offends before v ↔ OrderFault (r.get .position) v ∨
      (r.get .position).InOrder ∧ ∃ good bad rest, r.children = good ++ bad :: rest ∧
        (∀ c ∈ good, FitsUnder r.form c) ∧ EdgeFault r.form bad v := by
  have hno : ∀ x ∈ before, x.id ≠ r.id := fun x hx he => h ⟨x, hx, he⟩
  constructor
  · rintro (⟨hs, -⟩ | ⟨hs, -⟩ | ⟨-, hv⟩ | ⟨-, hin, he, hgood, hbad⟩)
    · exact absurd hs h
    · exact absurd hs h
    · exact .inl hv
    · exact .inr ⟨hin, _, _, _, he, hgood, hbad⟩
  · rintro (hv | ⟨hin, good, bad, rest, he, hgood, hbad⟩)
    · exact .order hno hv
    · exact .child hno hin he hgood hbad

theorem inspect_eq_error_iff {before : List Record} {r : Record} {v : Violation}
    (h : r.Inspectable) : r.inspect (before.map id).reverse = .error v ↔ r.Offends before v := by
  by_cases hs : ∃ x ∈ before, x.id = r.id
  · rw [inspect_of_mem (mem_ids_iff.2 hs), offends_iff_of_mem hs, Except.error.injEq, eq_comm]
  · rw [h.inspect_of_not_mem (mt mem_ids_iff.1 hs), offends_iff_of_not_mem hs,
      ← h.checkPosition_eq_error_iff, ← h.checkPosition_eq_ok_iff, ← checkChildren_eq_error_iff]
    cases r.checkPosition <;> simp

theorem inspect_eq_ok_iff {before : List Record} {r : Record} (h : r.Inspectable) :
    r.inspect (before.map id).reverse = .ok () ↔ ∀ v, ¬ r.Offends before v := by
  simp only [← inspect_eq_error_iff h]
  cases r.inspect (before.map id).reverse <;> simp

end Record

theorem Unoffending.snoc {before : List Record} {r : Record} (h : Unoffending before)
    (hr : ∀ v, ¬ r.Offends before v) : Unoffending (before ++ [r]) := by
  intro earlier n later he
  rcases List.eq_nil_or_concat later with rfl | ⟨later, last, rfl⟩
  · obtain ⟨rfl, hn⟩ := List.append_inj' he rfl
    obtain rfl := (List.cons.inj hn).1
    exact hr
  · rw [List.concat_eq_append, ← List.cons_append, ← List.append_assoc] at he
    obtain ⟨rfl, -⟩ := List.append_inj' he rfl
    exact h earlier n later rfl

namespace Record

/-- Induction on the loop: nothing is wrong before the node on top of the stack, and what the rest
of the loop visits is what the walk from the stack visits. -/
theorem auditFrom_spec (before stack : List Record) (hb : Unoffending before)
    (h : ∀ n ∈ walkFrom stack, n.Inspectable) :
    match auditFrom (before.map id).reverse stack with
    | .error v => FirstOffence (before ++ walkFrom stack) v
    | .ok n => Unoffending (before ++ walkFrom stack) ∧ n = (before ++ walkFrom stack).length := by
  induction stack using walkFrom.induct generalizing before with
  | case1 => simpa [auditFrom, walkFrom] using hb
  | case2 r stack ih =>
    rw [walkFrom] at h ⊢
    have hr : r.Inspectable := h r (by simp)
    rw [auditFrom_cons]
    cases hi : r.inspect (before.map id).reverse with
    | error v => exact ⟨before, r, _, rfl, (inspect_eq_error_iff hr).1 hi, hb⟩
    | ok u =>
      have hno : ∀ v, ¬ r.Offends before v := (inspect_eq_ok_iff hr).1 hi
      have hstep := ih (before ++ [r]) (hb.snoc hno) fun n hn => h n (by simp [hn])
      simpa using hstep

theorem not_offends_iff {before : List Record} {r : Record} (h : r.Inspectable) :
    (∀ v, ¬ r.Offends before v) ↔
      (∀ x ∈ before, x.id ≠ r.id) ∧ (r.get .position).InOrder ∧
        ∀ c ∈ r.children, FitsUnder r.form c := by
  rw [← inspect_eq_ok_iff h, ← h.checkPosition_eq_ok_iff, ← checkChildren_eq_ok_iff]
  by_cases hs : ∃ x ∈ before, x.id = r.id
  · rw [inspect_of_mem (mem_ids_iff.2 hs)]
    obtain ⟨x, hx, he⟩ := hs
    constructor
    · nofun
    · rintro ⟨hno, -⟩
      exact absurd he (hno x hx)
  · have hno : ∀ x ∈ before, x.id ≠ r.id := fun x hx he => hs ⟨x, hx, he⟩
    rw [h.inspect_of_not_mem (mt mem_ids_iff.1 hs)]
    cases r.checkPosition with
    | error w => simp
    | ok u => exact ⟨fun hc => ⟨hno, rfl, hc⟩, fun hall => hall.2.2⟩

theorem nodup_ids_iff {nodes : List Record} :
    (nodes.map id).Nodup ↔
      ∀ before n after, nodes = before ++ n :: after → ∀ x ∈ before, x.id ≠ n.id := by
  constructor
  · rintro h before n after rfl x hx he
    rw [List.map_append, List.map_cons] at h
    exact (List.nodup_append.1 h).2.2 x.id (List.mem_map_of_mem hx) n.id (by simp) he
  · intro h
    induction nodes with
    | nil => simp
    | cons a nodes ih =>
      rw [List.map_cons, List.nodup_cons]
      constructor
      · intro ha
        obtain ⟨x, hx, he⟩ := List.mem_map.1 ha
        obtain ⟨before, after, rfl⟩ := List.append_of_mem hx
        exact h (a :: before) x after rfl a (by simp) he.symm
      · apply ih
        rintro before n after rfl x hx
        exact h (a :: before) n after rfl x (by simp [hx])

theorem lawful_iff {r : Record} (h : ∀ n ∈ r.walk, n.Inspectable) :
    r.Lawful ↔ Unoffending r.walk := by
  constructor
  · intro hl before n after he
    have hn : n ∈ r.walk := by simp [he]
    exact (not_offends_iff (h n hn)).2
      ⟨nodup_ids_iff.1 hl.distinct before n after he, hl.positions n hn, hl.edges n hn⟩
  · intro hu
    have hall : ∀ before n after, r.walk = before ++ n :: after →
        (∀ x ∈ before, x.id ≠ n.id) ∧ (n.get .position).InOrder ∧
          ∀ c ∈ n.children, FitsUnder n.form c := fun before n after he =>
      (not_offends_iff (h n (by simp [he]))).1 (hu before n after he)
    constructor
    · intro n hn
      obtain ⟨before, after, he⟩ := List.append_of_mem hn
      exact (hall before n after he).2.2
    · intro n hn
      obtain ⟨before, after, he⟩ := List.append_of_mem hn
      exact (hall before n after he).2.1
    · exact nodup_ids_iff.2 fun before n after he => (hall before n after he).1

end Record

theorem Unoffending.length_le {before before' after after' : List Record} {n n' : Record}
    {v : Violation} (hb : Unoffending before') (hn : n.Offends before v)
    (he : before ++ n :: after = before' ++ n' :: after') : before'.length ≤ before.length := by
  rcases List.append_eq_append_iff.1 he with ⟨mid, rfl, hm⟩ | ⟨mid, rfl, -⟩
  · cases mid with
    | nil => simp
    | cons m mid =>
      obtain ⟨rfl, -⟩ := List.cons.inj hm
      exact absurd hn (hb before n mid rfl v)
  · simp

theorem FirstOffence.unique {nodes : List Record} {v w : Violation}
    (h : ∀ n ∈ nodes, n.Inspectable) (hv : FirstOffence nodes v) (hw : FirstOffence nodes w) :
    v = w := by
  obtain ⟨before, n, after, rfl, hn, hb⟩ := hv
  obtain ⟨before', n', after', he, hn', hb'⟩ := hw
  have hle := hb'.length_le hn he
  have hge := hb.length_le hn' he.symm
  obtain ⟨rfl, hc⟩ := List.append_inj he (by omega)
  obtain ⟨rfl, -⟩ := List.cons.inj hc
  have hi : n.Inspectable := h n (by simp)
  have hnv := (Record.inspect_eq_error_iff hi).2 hn
  have hnw := (Record.inspect_eq_error_iff hi).2 hn'
  exact Except.error.inj (hnv.symm.trans hnw)

theorem EdgeFault.faultClass {holder : Form} {child : Value} {v : Violation}
    (h : EdgeFault holder child v) (hnamed : ∀ r ∈ child.node?, r.Named) :
    v.faultClass = .shape := by
  cases h with
  | notNode | foreign | forbidden => rfl
  | nameless hn hk =>
    obtain ⟨kind, hkind, -⟩ := hnamed _ (Value.node?_eq_some.2 ⟨rfl, hn⟩)
    simp [hk] at hkind
  | barred hn hk hf hb =>
    obtain ⟨kind, hkind, hno⟩ := hnamed _ (Value.node?_eq_some.2 ⟨rfl, hn⟩)
    obtain rfl := Option.some.inj (hk.symm.trans hkind)
    exact absurd hb (hno _)

theorem Record.Offends.faultClass {before : List Record} {r : Record} {v : Violation}
    (h : r.Offends before v) (hr : r.Named) (hc : ∀ c ∈ r.childNodes, c.Named) :
    v.faultClass = .shape ∨ v.faultClass = .order := by
  cases h with
  | shared => exact .inl rfl
  | sharedNameless _ hk =>
    obtain ⟨kind, hkind, -⟩ := hr
    simp [hk] at hkind
  | order _ hv => cases hv <;> exact .inr rfl
  | child _ _ he _ hbad =>
    refine .inl (hbad.faultClass fun c hchild => hc c ?_)
    exact List.mem_filterMap.2 ⟨_, by simp [he], hchild⟩

theorem FirstOffence.faultClass {r : Record} {v : Violation} (h : FirstOffence r.walk v)
    (hnamed : ∀ n ∈ r.walk, n.Named) : v.faultClass = .shape ∨ v.faultClass = .order := by
  rw [Record.walk_eq_preorder] at h hnamed
  obtain ⟨before, n, after, he, hn, -⟩ := h
  have hmem : n ∈ r.preorder := by simp [he]
  refine hn.faultClass (hnamed n hmem) fun c hc => hnamed c (Record.mem_preorder_of_above ?_)
  rcases Record.mem_preorder_iff.1 hmem with rfl | habove
  · exact .child hc
  · exact habove.trans (.child hc)

namespace Record

theorem audit_eq_ok_iff {r : Record} (h : ∀ n ∈ r.walk, n.Inspectable) (n : Nat) :
    r.audit = .ok n ↔ r.Lawful ∧ n = r.walk.length := by
  have hspec := auditFrom_spec [] [r] (by simp [Unoffending]) h
  rw [lawful_iff h]
  unfold audit
  cases ha : auditFrom [] [r] with
  | error v =>
    simp only [List.map_nil, List.reverse_nil, ha, List.nil_append] at hspec
    obtain ⟨before, m, after, he, hm, -⟩ := hspec
    simp only [reduceCtorEq, false_iff, not_and]
    intro hu
    exact absurd hm (hu before m after he v)
  | ok m =>
    simp only [List.map_nil, List.reverse_nil, ha, List.nil_append] at hspec
    constructor
    · rintro ⟨⟩
      exact hspec
    · rintro ⟨-, rfl⟩
      exact congrArg _ hspec.2

theorem audit_eq_error_iff {r : Record} (h : ∀ n ∈ r.walk, n.Inspectable) (v : Violation) :
    r.audit = .error v ↔ FirstOffence r.walk v := by
  have hspec := auditFrom_spec [] [r] (by simp [Unoffending]) h
  unfold audit
  cases ha : auditFrom [] [r] with
  | error w =>
    simp only [List.map_nil, List.reverse_nil, ha, List.nil_append] at hspec
    constructor
    · rintro ⟨⟩
      exact hspec
    · intro hv
      rw [hspec.unique h hv]
  | ok m =>
    simp only [List.map_nil, List.reverse_nil, ha, List.nil_append] at hspec
    simp only [reduceCtorEq, false_iff]
    rintro ⟨before, n, after, he, hn, -⟩
    exact hspec.1 before n after he v hn

/-- The audit passes exactly the lawful trees, and counts the nodes of the walk. Any other tree it
refuses with what is wrong at the first node, in document order, where anything is wrong. If every
node stores a kind that can be looked up, such as a text, then this is a violation: of the shape of
the tree or of the order of a position. -/
theorem audit_exact (r : Record) (h : ∀ n ∈ r.walk, n.Inspectable) :
    (∀ n, r.audit = .ok n ↔ r.Lawful ∧ n = r.walk.length) ∧
      (∀ v, r.audit = .error v ↔ FirstOffence r.walk v) ∧
      ((∀ n ∈ r.walk, n.Named) →
        ∀ v, r.audit = .error v → v.faultClass = .shape ∨ v.faultClass = .order) :=
  ⟨audit_eq_ok_iff h, audit_eq_error_iff h,
    fun hnamed _ hv => ((audit_eq_error_iff h _).1 hv).faultClass hnamed⟩

def strayText : Record :=
  uncheckedRecord .hastText 2 [(.str "value", .str "x")]

def strayHolder : Record :=
  uncheckedRecord .element 1 [(.str "tag_name", .str "a"),
    (.str "children", .tuple [.record strayText])]

def brokenElement : Record :=
  uncheckedRecord .element 3 [(.str "tag_name", .str "b"),
    (.str "children", .tuple [.record (uncheckedRecord .doctype 4 [(.str "name", .str "html")])])]

/-- The second place of the text comes before the broken element in document order. -/
def strayTree : Record :=
  uncheckedRecord .hastRoot 0 [(.str "children",
    .list [.record strayHolder, .record strayText, .record brokenElement])]

theorem audit_exact_strayTree :
    (∀ n ∈ strayTree.walk, n.Inspectable) ∧ (∀ n ∈ strayTree.walk, n.Named) ∧
      strayTree.audit = .error (.sharedNode (.str "text")) := by
  have hw : strayTree.walk = [strayTree, strayHolder, strayText] ++ strayText :: [brokenElement,
      uncheckedRecord .doctype 4 [(.str "name", .str "html")]] := by
    rw [walk_eq_preorder]
    rfl
  have h : ∀ n ∈ strayTree.walk, n.Inspectable := by
    rw [hw]
    simp only [List.cons_append, List.nil_append, List.forall_mem_cons, List.not_mem_nil,
      false_implies, implies_true, and_true]
    refine ⟨⟨fun _ => ⟨_, .inl rfl⟩, .inl rfl⟩, ⟨fun _ => ⟨_, .inr rfl⟩, .inl rfl⟩,
      ⟨fun hb => ?_, .inl rfl⟩, ⟨fun hb => ?_, .inl rfl⟩, ⟨fun _ => ⟨_, .inr rfl⟩, .inl rfl⟩,
      ⟨fun hb => ?_, .inl rfl⟩⟩ <;> exact absurd hb (by decide)
  have hfit : ∀ c ∈ strayTree.children, FitsUnder .hastRoot c := by
    change ∀ c ∈ [_, _, _], _
    simp only [List.forall_mem_cons, List.not_mem_nil, false_implies, implies_true, and_true]
    exact ⟨⟨strayHolder, "element", rfl, rfl, rfl, rfl, by decide⟩,
      ⟨strayText, "text", rfl, rfl, rfl, rfl, by decide⟩,
      ⟨brokenElement, "element", rfl, rfl, rfl, rfl, by decide⟩⟩
  have hfit' : ∀ c ∈ strayHolder.children, FitsUnder .element c := by
    change ∀ c ∈ [_], _
    simp only [List.forall_mem_singleton]
    exact ⟨strayText, "text", rfl, rfl, rfl, rfl, by decide⟩
  have hb : Unoffending [strayTree, strayHolder, strayText] := by
    have hnil : Unoffending [] := by simp [Unoffending]
    have hone := hnil.snoc ((not_offends_iff (h strayTree (by simp [hw]))).2
      ⟨by decide, .inl rfl, hfit⟩)
    have hleaf : strayText.children = [] := rfl
    have htwo := hone.snoc ((not_offends_iff (h strayHolder (by simp [hw]))).2
      ⟨by simp; decide, .inl rfl, hfit'⟩)
    exact htwo.snoc ((not_offends_iff (h strayText (by simp [hw]))).2
      ⟨by simp; decide, .inl rfl, by simp [hleaf]⟩)
  have hnamed : ∀ n ∈ strayTree.walk, n.Named := by
    rw [hw]
    simp only [List.cons_append, List.nil_append, List.forall_mem_cons, List.not_mem_nil,
      false_implies, implies_true, and_true]
    refine ⟨?_, ?_, ?_, ?_, ?_, ?_⟩ <;> exact ⟨.str _, rfl, fun _ => Value.not_barredBy_str⟩
  exact ⟨h, hnamed, ((audit_exact strayTree h).2.1 _).2
    ⟨_, strayText, _, hw, .shared ⟨strayText, by simp, rfl⟩ rfl, hb⟩⟩

end Record

end DocTree
