import DocTree.Proofs.Agreement
import DocTree.Proofs.RoundTrip

/-!
What the kinds that nodes carry tell about an audited tree. The audit takes the kinds that may
stand under a node from the node's form, and the kind of a child from the child itself. So kinds
alone decide the nesting of a tree wherever a node carries the kind of its form, and only there.
Main statements: `not_allowsByKind_of_audit` and `allowsByKind_of_audit`.
-/
namespace DocTree.Record

variable {r a : Record}

/-- The child may stand under the node going by their kinds alone: the form to which the family
gives the one kind allows the other. -/
def AllowsByKind (family : Family) (a c : Record) : Prop :=
  ∃ kind form childKind, a.kind = .str kind ∧ family.registry.find? kind = some form ∧
    c.kind = .str childKind ∧ childKind ∈ form.allowedChildren

theorem fitsUnder_of_audit {n : Nat} (h : r.audit = .ok n) (ha : a ∈ r.walk) :
    ∀ v ∈ a.contents, FitsUnder a.form v :=
  (passesAlone_iff.1 (passesAlone_of_auditFrom h a ha)).2.2

theorem family_of_audit {n : Nat} (h : r.audit = .ok n) (ha : a ∈ r.walk) :
    a.form.family = r.form.family := by
  have hpass : ∀ m ∈ r.preorder, m.PassesAlone := by
    rw [← walk_eq_preorder]
    exact passesAlone_of_auditFrom h
  rw [walk_eq_preorder] at ha
  rcases mem_preorder_iff.1 ha with rfl | hra
  · rfl
  · clear h ha
    induction hra with
    | @child r a hc =>
      obtain ⟨c, kind, he, -, hfamily, -⟩ :=
        (hpass r (mem_preorder_iff.2 (.inl rfl))).fits_childNodes _ hc
      rwa [Value.record.inj he]
    | @deeper r c a hc hca ih =>
      obtain ⟨c', kind, he, -, hfamily, -⟩ :=
        (hpass r (mem_preorder_iff.2 (.inl rfl))).fits_childNodes _ hc
      obtain rfl := Value.record.inj he
      rw [← hfamily]
      exact ih fun m hm => hpass m ((preorder_sublist hc).subset hm)

/-- A block quote that carries the kind of a paragraph, and holds a paragraph. -/
def disguisedQuote : Record :=
  uncheckedRecord .blockquote 1 [(.str "kind", .str "paragraph"),
    (.str "children", .tuple [.record (uncheckedRecord .paragraph 2 [])])]

def disguisedTree : Record :=
  uncheckedRecord .mdastRoot 0 [(.str "children", .tuple [.record disguisedQuote])]

/-- Kinds alone do not decide the nesting of every tree that passes the audit: a paragraph holds no
paragraph, but a block quote may carry its kind. -/
theorem not_allowsByKind_of_audit :
    ¬ ∀ (r : Record) (n : Nat), r.form.family = .hast ∨ r.form.family = .mdast →
      r.audit = .ok n → ∀ a ∈ r.walk, ∀ c ∈ a.childNodes, AllowsByKind r.form.family a c := by
  intro hall
  have haudit : disguisedTree.audit = .ok 3 := by cbv
  have hquote : disguisedQuote ∈ disguisedTree.walk := by
    rw [walk_eq_preorder]
    exact .tail _ (.head _)
  have hchild : uncheckedRecord .paragraph 2 [] ∈ disguisedQuote.childNodes := .head _
  obtain ⟨kind, form, childKind, hkind, hform, hchildKind, hmem⟩ :=
    hall disguisedTree 3 (.inr rfl) haudit _ hquote _ hchild
  obtain rfl : "paragraph" = kind := Value.str.inj hkind
  obtain rfl : Form.paragraph = form := Option.some.inj hform
  obtain rfl : "paragraph" = childKind := Value.str.inj hchildKind
  exact absurd hmem (by decide)

/-- In a tree that passes the audit every child at any depth is a node of the tree's family whose
kind the form of its parent allows. Where the parent carries the kind of its form, the family gives
the kind to that form, so the kinds of the two decide; and it has no children if that form is no
branch. -/
theorem allowsByKind_of_audit {n : Nat} (h : r.audit = .ok n) :
    ∀ a ∈ r.walk,
      (∀ v ∈ a.contents, ∃ c kind, v = .record c ∧ c.form.isNode ∧
        c.form.family = r.form.family ∧ c.kind = .str kind ∧ kind ∈ a.form.allowedChildren) ∧
      ∀ kind, a.form.kind? = some kind → a.kind = .str kind →
        (∀ c, .record c ∈ a.contents → AllowsByKind r.form.family a c) ∧
        ∀ form, r.form.family.registry.find? kind = some form → form.shape ≠ .branch →
          a.contents = [] := by
  intro a ha
  have hfamily := family_of_audit h ha
  have hfit := fitsUnder_of_audit h ha
  refine ⟨fun v hv => ?_, fun kind hform hkind => ?_⟩
  · obtain ⟨c, kind, rfl, hn, hc, hkind, hmem⟩ := hfit v hv
    exact ⟨c, kind, rfl, hn, hc.trans hfamily, hkind, hmem⟩
  · have hfind : r.form.family.registry.find? kind = some a.form :=
      hfamily ▸ Form.find?_registry hform
    constructor
    · intro c hc
      obtain ⟨c', childKind, he, -, -, hchild, hmem⟩ := hfit _ hc
      obtain rfl := Value.record.inj he
      exact ⟨kind, a.form, childKind, hkind, hfind, hchild, hmem⟩
    · intro form hf hb
      obtain rfl : a.form = form := Option.some.inj (hfind.symm.trans hf)
      have hbranch : ¬ a.isBranch := by simpa [isBranch] using hb
      rw [contents, if_neg hbranch]

/-- The edge below the root is told by kinds, though the one below it is not. -/
theorem allowsByKind_of_audit_disguisedTree :
    disguisedTree.audit = .ok 3 ∧ disguisedTree ∈ disguisedTree.walk ∧
      disguisedTree.kind = .str "root" ∧ .record disguisedQuote ∈ disguisedTree.contents ∧
        AllowsByKind .mdast disguisedTree disguisedQuote := by
  have haudit : disguisedTree.audit = .ok 3 := by cbv
  have hself : disguisedTree ∈ disguisedTree.walk := by
    rw [walk_eq_preorder]
    exact .head _
  have hquote : .record disguisedQuote ∈ disguisedTree.contents := .head _
  obtain ⟨-, hkinds⟩ := allowsByKind_of_audit haudit _ hself
  exact ⟨haudit, hself, rfl, hquote, (hkinds "root" rfl rfl).1 _ hquote⟩

end DocTree.Record
