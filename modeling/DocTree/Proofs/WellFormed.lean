import DocTree.Proofs.Soundness
import DocTree.Tree.Path

/-!
Well-formed trees from the inside: their subtrees are well-formed, and the audit finds nothing
wrong with them. Main statements: `WellFormed.childNode` and `WellFormed.audit_eq`.
-/
namespace DocTree.Record

variable {r c n : Record}

theorem isNode_of_mem_childNodes (h : c ∈ r.childNodes) : r.form.isNode ∧ c.form.isNode := by
  obtain ⟨x, hx, hn⟩ := List.mem_filterMap.1 h
  have hb : r.form.shape = .branch := by
    unfold children isBranch at hx
    split at hx
    · rename_i hb
      simpa using hb
    · simp at hx
  exact ⟨Form.isNode_of_branch hb, (Value.node?_eq_some.1 hn).2⟩

theorem isNode_of_mem_preorder (hr : r.form.isNode) (h : n ∈ r.preorder) : n.form.isNode := by
  rcases mem_preorder_iff.1 h with rfl | h
  · exact hr
  · induction h with
    | child hc => exact (isNode_of_mem_childNodes hc).2
    | deeper hc hn ih => exact ih (isNode_of_mem_childNodes hc).2 (mem_preorder_of_above hn)

theorem preorder_sublist (h : c ∈ r.childNodes) : c.preorder.Sublist r.preorder := by
  obtain ⟨before, after, he⟩ := List.append_of_mem h
  rw [preorder_eq r, he, List.flatMap_append, List.flatMap_cons]
  apply List.Sublist.cons
  exact (List.sublist_append_left _ _).trans (List.sublist_append_right _ _)

/-- The subtrees of a well-formed tree are well-formed. -/
theorem WellFormed.childNode (h : r.WellFormed) (hc : c ∈ r.childNodes) : c.WellFormed := by
  have hsub := preorder_sublist hc
  exact ⟨(isNode_of_mem_childNodes hc).2, fun n hn => h.sound n (hsub.subset hn),
    fun n hn => h.edges n (hsub.subset hn), h.distinct.sublist (hsub.map id)⟩

theorem children_eq_of_fitsUnder {holder : Form} (h : ∀ v ∈ r.children, FitsUnder holder v) :
    r.children = r.childNodes.map .record :=
  eq_map_record_of_fitsUnder h

theorem WellFormed.children_eq (h : r.WellFormed) : r.children = r.childNodes.map .record :=
  children_eq_of_fitsUnder (h.edges r (mem_preorder_iff.2 (.inl rfl)))

theorem Established.childNode {next : Ident} (h : r.Established next) (hc : c ∈ r.childNodes) :
    c.Established next := by
  obtain ⟨hr, hn⟩ := isNode_of_mem_childNodes hc
  constructor
  · constructor <;> intro hf <;> simp [hf, Form.isNode] at hn
  · exact fun _ => (h.node hr).childNode hc
  · exact fun _ n hm => h.used hr n ((preorder_sublist hc).subset hm)

theorem Established.descendant {next : Ident} {path : List Nat} {d : Record}
    (h : r.Established next) (hd : r.descendant? path = some d) : d.Established next := by
  induction path generalizing r with
  | nil =>
    obtain rfl := Option.some.inj hd
    exact h
  | cons i path ih =>
    rw [descendant?_cons] at hd
    obtain ⟨c, hc, hd⟩ := Option.bind_eq_some_iff.1 hd
    obtain ⟨x, hx, hn⟩ := Option.bind_eq_some_iff.1 hc
    have hmem : c ∈ r.childNodes := List.mem_filterMap.2 ⟨x, List.mem_of_getElem? hx, hn⟩
    exact ih (h.childNode hmem) hd

theorem Sound.kind_eq (h : n.Sound) (hn : n.form.isNode) :
    ∃ kind, n.form.kind? = some kind ∧ n.get .kind = .str kind := by
  rcases h.stores _ (Form.kind_mem_specs hn) with ⟨hnull, -⟩ | hkind
  · cases hnull
  · exact hkind

theorem Sound.get?_kind (h : n.Sound) (hn : n.form.isNode) : n.get? .kind = some n.kind := by
  obtain ⟨kind, -, hk⟩ := h.kind_eq hn
  exact get?_kind_of_text hk

theorem Sound.position (h : n.Sound) (hn : n.form.isNode) :
    n.get .position = .null ∨ (n.get .position).IsPosition := by
  rcases h.stores _ (Form.position_mem_specs hn) with ⟨-, hnull⟩ | hpos
  · exact .inl hnull
  · exact .inr hpos

theorem Sound.inOrder (h : n.Sound) (hn : n.form.isNode) : (n.get .position).InOrder :=
  (h.position hn).imp_right Value.IsPosition.spans

theorem Sound.children_eq (h : n.Sound) (hb : n.form.shape = .branch) :
    n.get .children = .tuple n.children := by
  rcases h.stores _ (Form.children_mem_specs hb) with ⟨hnull, -⟩ | ⟨xs, hxs⟩
  · simp [FieldSpec.defaulted] at hnull
  · change n.get .children = .tuple xs at hxs
    have hc : n.children = xs := by simp [children, isBranch, hb, hxs]
    rw [hxs, hc]

theorem Sound.inspectable (h : n.Sound) (hn : n.form.isNode) : n.Inspectable := by
  constructor
  · intro hb
    exact ⟨n.children, .inr (h.children_eq (by simpa [isBranch] using hb))⟩
  · refine (h.position hn).imp_right fun hp => ?_
    obtain ⟨start, stop, p, q, hspans, -⟩ := hp.spans
    exact ⟨start, stop, p, q, hspans⟩

theorem WellFormed.walkable (h : r.WellFormed) : r.Walkable := by
  constructor
  · intro n hn hb
    have hstored := (h.sound n hn).children_eq (by simpa [isBranch] using hb)
    exact ⟨_, _, get?_of_get hstored (by simp), rfl⟩
  · intro n hn v hv
    obtain ⟨c, -, rfl, hc, -⟩ := h.edges n hn v hv
    rw [Value.node?_eq_some.2 ⟨rfl, hc⟩]
    rfl

theorem WellFormed.lawful (h : r.WellFormed) : r.Lawful := by
  have hnode (n : Record) (hn : n ∈ r.preorder) := isNode_of_mem_preorder h.isNode hn
  constructor <;> rw [walk_eq_preorder]
  · exact h.edges
  · exact fun n hn => (h.sound n hn).inOrder (hnode n hn)
  · exact h.distinct

/-- The audit passes a well-formed tree and counts its nodes. -/
theorem WellFormed.audit_eq (h : r.WellFormed) : r.audit = .ok r.walk.length := by
  refine (audit_eq_ok_iff (fun n hn => ?_) _).2 ⟨h.lawful, rfl⟩
  rw [walk_eq_preorder] at hn
  exact (h.sound n hn).inspectable (isNode_of_mem_preorder h.isNode hn)

end DocTree.Record
