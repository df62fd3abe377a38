import DocTree.Proofs.Session

/-!
What may stand anywhere above and below what, read off the kinds of the nodes. Checks look at single
edges only; the laws about paths of any length follow by going down from a node, or up from it, edge
by edge, as the kinds allowed under a kind lead to no others. Main statements: `WellFormed.below`,
`WellFormed.above` and `Session.nested_of_mem`.
-/
namespace DocTree

def Form.hasKind (kinds : List String) (f : Form) : Bool :=
  kinds.any fun kind => f.kind? = some kind

namespace Record

def hasKind (kinds : List String) (n : Record) : Bool :=
  kinds.any n.kind.isText

structure MdastNesting (r : Record) : Prop where
  phrasing : ∀ a ∈ r.walk, a.hasKind ["paragraph", "heading", "emphasis", "strong", "link"] →
    ∀ d, a.Above d → d.isPhrasingContent
  block : ∀ d, d.isBlockContent ∨ d.hasKind ["listItem"] →
    ∀ a ∈ r.walk, a.Above d → a.hasKind ["root", "blockquote", "list", "listItem"]
  items : ∀ a ∈ r.walk, ∀ c ∈ a.childNodes, (c.hasKind ["listItem"] ↔ a.hasKind ["list"])
  top : ∀ d, r.Above d → ¬ d.hasKind ["root"]

structure HastNesting (r : Record) : Prop where
  doctypes : ∀ a ∈ r.walk, ∀ c ∈ a.childNodes, c.hasKind ["doctype"] → a = r ∧ r.hasKind ["root"]
  between : ∀ m d, r.Above m → m.Above d → m.hasKind ["element"]
  top : ∀ d, r.Above d → ¬ d.hasKind ["root"]

/-- A tree is of one family throughout, and nested as that family asks. -/
structure Nested (r : Record) : Prop where
  family : ∀ n ∈ r.walk, n.form.family = r.form.family
  nesting : r.form.family = .mdast ∧ r.MdastNesting ∨ r.form.family = .hast ∧ r.HastNesting

end Record

namespace Form

theorem family_of_kind (f : Form) : f.kind?.isSome → f.family = .mdast ∨ f.family = .hast := by
  cases f <;> decide

theorem not_root_of_allowed (f : Form) : "root" ∉ f.allowedChildren := by
  cases f <;> decide

theorem phrasing_of_holder (f : Form) : f.family = .mdast →
    f.hasKind ["paragraph", "heading", "emphasis", "strong", "link"] →
      f.allowedChildren ⊆ phrasingKinds := by
  cases f <;> decide

theorem phrasing_of_phrasing (f : Form) : f.family = .mdast → f.hasKind phrasingKinds →
    f.allowedChildren ⊆ phrasingKinds := by
  cases f <;> decide

/-- Block content and list items stand under roots, blockquotes, lists and list items only, and
so do these. -/
theorem flow_of_holder (f : Form) : f.family = .mdast → f.kind?.isSome →
    (∃ kind ∈ "root" :: "listItem" :: blockKinds, kind ∈ f.allowedChildren) →
      f.hasKind ["root", "blockquote", "list", "listItem"] := by
  cases f <;> decide

theorem list_of_holder (f : Form) : f.family = .mdast → f.kind?.isSome →
    ("listItem" ∈ f.allowedChildren ↔ f.hasKind ["list"]) ∧
      (f.hasKind ["list"] → f.allowedChildren = ["listItem"]) := by
  cases f <;> decide

theorem root_of_doctype (f : Form) : f.family = .hast → "doctype" ∈ f.allowedChildren →
    f.hasKind ["root"] := by
  cases f <;> decide

theorem element_of_branch (f : Form) : f.family = .hast → f.kind?.isSome → f.shape = .branch →
    f.hasKind ["root"] ∨ f.hasKind ["element"] := by
  cases f <;> decide

theorem hasKind_iff {kinds : List String} {f : Form} :
    f.hasKind kinds ↔ ∃ kind ∈ kinds, f.kind? = some kind := by
  simp [hasKind]

theorem hasKind_mono {kinds more : List String} {f : Form} (h : kinds ⊆ more)
    (hf : f.hasKind kinds) : f.hasKind more := by
  obtain ⟨kind, hmem, hkind⟩ := hasKind_iff.1 hf
  exact hasKind_iff.2 ⟨kind, h hmem, hkind⟩

/-- What the forms of a node and of a child below it have to do with each other. -/
structure MayHold (a c : Form) : Prop where
  concrete : a.kind?.isSome
  family : c.family = a.family
  allowed : c.hasKind a.allowedChildren

theorem MayHold.exists_allowed {a c : Form} {kinds : List String} (h : a.MayHold c)
    (hc : c.hasKind kinds) : ∃ kind ∈ kinds, kind ∈ a.allowedChildren := by
  obtain ⟨kind, hmem, hkind⟩ := hasKind_iff.1 h.allowed
  obtain ⟨kind', hmem', hkind'⟩ := hasKind_iff.1 hc
  obtain rfl := Option.some.inj (hkind.symm.trans hkind')
  exact ⟨kind, hmem', hmem⟩

end Form

namespace Record

variable {a c d r : Record}

theorem WellFormed.exists_kind (h : r.WellFormed) :
    ∃ kind, r.form.kind? = some kind ∧ r.kind = .str kind :=
  (h.sound r (mem_preorder_iff.2 (.inl rfl))).kind_eq h.isNode

theorem WellFormed.hasKind_eq (h : r.WellFormed) (kinds : List String) :
    r.hasKind kinds = r.form.hasKind kinds := by
  obtain ⟨kind, hform, hkind⟩ := h.exists_kind
  rw [hasKind, Form.hasKind, hkind, hform]
  simp only [Option.some.injEq]
  rfl

theorem WellFormed.isPhrasingContent_iff (h : r.WellFormed) :
    r.isPhrasingContent ↔ r.form.family = .mdast ∧ r.form.hasKind Form.phrasingKinds := by
  rw [← h.hasKind_eq, isPhrasingContent, isContent, Bool.and_eq_true, decide_eq_true_eq]
  rfl

theorem WellFormed.isBlockContent_iff (h : r.WellFormed) :
    r.isBlockContent ↔ r.form.family = .mdast ∧ r.form.hasKind Form.blockKinds := by
  rw [← h.hasKind_eq, isBlockContent, isContent, Bool.and_eq_true, decide_eq_true_eq]
  rfl

theorem WellFormed.of_mem_preorder (h : r.WellFormed) (ha : a ∈ r.preorder) : a.WellFormed := by
  rcases mem_preorder_iff.1 ha with rfl | hra
  · exact h
  · clear ha
    induction hra with
    | child hc => exact h.childNode hc
    | deeper hc _ ih => exact ih (h.childNode hc)

theorem shape_of_mem_childNodes (hc : c ∈ r.childNodes) : r.form.shape = .branch := by
  obtain ⟨x, hx, -⟩ := List.mem_filterMap.1 hc
  by_contra hb
  simp [children, isBranch, hb] at hx

theorem WellFormed.mayHold (h : r.WellFormed) (hc : c ∈ r.childNodes) : r.form.MayHold c.form := by
  obtain ⟨kind, hform, -⟩ := h.exists_kind
  have hmem : .record c ∈ r.children := by
    rw [h.children_eq]
    exact List.mem_map_of_mem hc
  obtain ⟨child, kind', he, -, hfamily, hkind', hallowed⟩ :=
    h.edges r (mem_preorder_iff.2 (.inl rfl)) _ hmem
  obtain rfl := Value.record.inj he
  obtain ⟨kind'', hform'', hkind''⟩ := (h.childNode hc).exists_kind
  obtain rfl := Value.str.inj (hkind'.symm.trans hkind'')
  exact ⟨by rw [hform, Option.isSome_some], hfamily, Form.hasKind_iff.2 ⟨_, hallowed, hform''⟩⟩

/-- Down from a node: what holds of all that may stand under it, and passes on from edge to edge,
holds of all that stands below it. -/
theorem WellFormed.below {P : Form → Prop} (h : a.WellFormed)
    (hfirst : ∀ f, a.form.MayHold f → P f) (hstep : ∀ f g, P f → f.MayHold g → P g)
    (hd : a.Above d) : P d.form := by
  induction hd with
  | child hc => exact hfirst _ (h.mayHold hc)
  | deeper hc _ ih =>
    have hP := hfirst _ (h.mayHold hc)
    exact ih (h.childNode hc) fun f hf => hstep _ f hP hf

/-- Up from a node: what holds of all that it may stand under, and passes on from edge to edge,
holds of all that stands above it. -/
theorem WellFormed.above {P : Form → Prop} (h : a.WellFormed)
    (hlast : ∀ f, f.MayHold d.form → P f) (hstep : ∀ f g, P g → f.MayHold g → P f)
    (hd : a.Above d) : P a.form := by
  induction hd with
  | child hc => exact hlast _ (h.mayHold hc)
  | deeper hc _ ih => exact hstep _ _ (ih (h.childNode hc) hlast) (h.mayHold hc)

theorem WellFormed.family_eq (h : r.WellFormed) (ha : a ∈ r.preorder) :
    a.form.family = r.form.family := by
  rcases mem_preorder_iff.1 ha with rfl | ha
  · rfl
  · exact h.below (P := fun f => f.family = r.form.family) (fun f hf => hf.family)
      (fun f g hf hg => hg.family.trans hf) ha

theorem WellFormed.not_root (h : r.WellFormed) (hd : r.Above d) : ¬ d.hasKind ["root"] := by
  have hwf := h.of_mem_preorder (mem_preorder_of_above hd)
  have hedge (f g : Form) (hfg : f.MayHold g) : ¬ g.hasKind ["root"] := by
    intro hg
    obtain ⟨kind, hkind, hallowed⟩ := hfg.exists_allowed hg
    obtain rfl := List.mem_singleton.1 hkind
    exact f.not_root_of_allowed hallowed
  rw [hwf.hasKind_eq]
  exact h.below (hedge _) (fun f g _ => hedge f g) hd

theorem WellFormed.isPhrasingContent_of_above (h : a.WellFormed) (hfamily : a.form.family = .mdast)
    (hkind : a.hasKind ["paragraph", "heading", "emphasis", "strong", "link"]) (hd : a.Above d) :
    d.isPhrasingContent := by
  rw [h.hasKind_eq] at hkind
  have hphrasing : d.form.family = .mdast ∧ d.form.hasKind Form.phrasingKinds := by
    refine h.below (P := fun f => f.family = .mdast ∧ f.hasKind Form.phrasingKinds) ?_ ?_ hd
    · intro f hf
      exact ⟨hf.family.trans hfamily,
        Form.hasKind_mono (Form.phrasing_of_holder _ hfamily hkind) hf.allowed⟩
    · rintro f g ⟨hf, hkinds⟩ hfg
      exact ⟨hfg.family.trans hf,
        Form.hasKind_mono (Form.phrasing_of_phrasing _ hf hkinds) hfg.allowed⟩
  have hwd := h.of_mem_preorder (mem_preorder_of_above hd)
  exact hwd.isPhrasingContent_iff.2 hphrasing

theorem WellFormed.hasKind_of_above_flow (h : a.WellFormed) (hfamily : a.form.family = .mdast)
    (hd : d.isBlockContent ∨ d.hasKind ["listItem"]) (had : a.Above d) :
    a.hasKind ["root", "blockquote", "list", "listItem"] := by
  have hmem := mem_preorder_of_above had
  have hwd := h.of_mem_preorder hmem
  have hflow : d.form.hasKind ("listItem" :: Form.blockKinds) := by
    rw [hwd.isBlockContent_iff, hwd.hasKind_eq] at hd
    rcases hd with ⟨-, hd⟩ | hd
    · exact Form.hasKind_mono (by simp) hd
    · exact Form.hasKind_mono (by simp) hd
  rw [h.hasKind_eq]
  refine (h.above (P := fun f => f.family = .mdast ∧
    f.hasKind ["root", "blockquote", "list", "listItem"]) ?_ ?_ had).2
  · intro f hf
    have hfamily' : f.family = .mdast := hf.family.symm.trans ((h.family_eq hmem).trans hfamily)
    obtain ⟨kind, hkind, hallowed⟩ := hf.exists_allowed hflow
    exact ⟨hfamily', f.flow_of_holder hfamily' hf.concrete
      ⟨kind, List.mem_cons_of_mem _ hkind, hallowed⟩⟩
  · rintro f g ⟨hg, hkinds⟩ hfg
    have hfamily' : f.family = .mdast := hfg.family.symm.trans hg
    obtain ⟨kind, hkind, hallowed⟩ := hfg.exists_allowed hkinds
    refine ⟨hfamily', f.flow_of_holder hfamily' hfg.concrete ⟨kind, ?_, hallowed⟩⟩
    exact (by decide : ["root", "blockquote", "list", "listItem"] ⊆
      "root" :: "listItem" :: Form.blockKinds) hkind

theorem WellFormed.listItem_iff (h : a.WellFormed) (hfamily : a.form.family = .mdast)
    (hc : c ∈ a.childNodes) : c.hasKind ["listItem"] ↔ a.hasKind ["list"] := by
  have hedge := h.mayHold hc
  obtain ⟨hiff, honly⟩ := a.form.list_of_holder hfamily hedge.concrete
  rw [h.hasKind_eq, (h.childNode hc).hasKind_eq, ← hiff]
  constructor
  · intro hitem
    obtain ⟨kind, hkind, hallowed⟩ := hedge.exists_allowed hitem
    rwa [← List.mem_singleton.1 hkind]
  · intro hlist
    rw [← honly (hiff.1 hlist)]
    exact hedge.allowed

theorem WellFormed.mdastNesting (h : r.WellFormed) (hr : r.form.family = .mdast) :
    r.MdastNesting := by
  have hsub (a : Record) (ha : a ∈ r.walk) : a.WellFormed ∧ a.form.family = .mdast := by
    rw [walk_eq_preorder] at ha
    exact ⟨h.of_mem_preorder ha, (h.family_eq ha).trans hr⟩
  constructor
  · intro a ha hkind d hd
    exact (hsub a ha).1.isPhrasingContent_of_above (hsub a ha).2 hkind hd
  · intro d hd a ha had
    exact (hsub a ha).1.hasKind_of_above_flow (hsub a ha).2 hd had
  · intro a ha c hc
    exact (hsub a ha).1.listItem_iff (hsub a ha).2 hc
  · exact fun d hd => h.not_root hd

/-- A document type stands under a root, which is the top then. -/
theorem WellFormed.root_of_doctype (h : r.WellFormed) (hr : r.form.family = .hast)
    (ha : a ∈ r.preorder) (hc : c ∈ a.childNodes) (hdoctype : c.hasKind ["doctype"]) :
    a = r ∧ r.hasKind ["root"] := by
  have hwf := h.of_mem_preorder ha
  have hedge := hwf.mayHold hc
  rw [(hwf.childNode hc).hasKind_eq] at hdoctype
  obtain ⟨kind, hkind, hallowed⟩ := hedge.exists_allowed hdoctype
  obtain rfl := List.mem_singleton.1 hkind
  have hroot : a.hasKind ["root"] := by
    rw [hwf.hasKind_eq]
    exact a.form.root_of_doctype ((h.family_eq ha).trans hr) hallowed
  -- a root below the top would be one too many
  obtain rfl : a = r := (mem_preorder_iff.1 ha).resolve_right fun hra => h.not_root hra hroot
  exact ⟨rfl, hroot⟩

theorem WellFormed.element_of_between {m : Record} (h : r.WellFormed) (hr : r.form.family = .hast)
    (hm : r.Above m) (hd : m.Above d) : m.hasKind ["element"] := by
  have hmem := mem_preorder_of_above hm
  have hwf := h.of_mem_preorder hmem
  obtain ⟨c, hc⟩ : ∃ c, c ∈ m.childNodes := by
    cases hd with
    | child hc => exact ⟨_, hc⟩
    | deeper hc _ => exact ⟨_, hc⟩
  have hkind := m.form.element_of_branch ((h.family_eq hmem).trans hr)
    (hwf.mayHold hc).concrete (shape_of_mem_childNodes hc)
  rw [← hwf.hasKind_eq, ← hwf.hasKind_eq] at hkind
  exact hkind.resolve_left (h.not_root hm)

theorem WellFormed.hastNesting (h : r.WellFormed) (hr : r.form.family = .hast) :
    r.HastNesting := by
  constructor
  · intro a ha c hc hdoctype
    rw [walk_eq_preorder] at ha
    exact h.root_of_doctype hr ha hc hdoctype
  · exact fun m d hm hd => h.element_of_between hr hm hd
  · exact fun d hd => h.not_root hd

theorem WellFormed.nested (h : r.WellFormed) : r.Nested := by
  obtain ⟨kind, hform, -⟩ := h.exists_kind
  refine ⟨fun n hn => h.family_eq (walk_eq_preorder r ▸ hn), ?_⟩
  rcases r.form.family_of_kind (by rw [hform, Option.isSome_some]) with hr | hr
  · exact .inl ⟨hr, h.mdastNesting hr⟩
  · exact .inr ⟨hr, h.hastNesting hr⟩

end Record

namespace Session

/-- Every tree that a session leads to is of one family and nested by kind as that family asks, at
any depth. -/
theorem nested_of_mem {next : Ident} {pool : List Record} (h : Session next pool) {r : Record}
    (hm : r ∈ pool) (hn : r.form.isNode) : r.Nested :=
  ((h.established r hm).node hn).nested

def nestedList : Record :=
  ⟨3, .list, [(.kind, .str "list"), (.position, .null), (.metadata, .null),
    (.children, .tuple [.record ⟨2, .listItem, [(.kind, .str "listItem"), (.position, .null),
      (.metadata, .null), (.children, .tuple [.record ⟨1, .paragraph, [(.kind, .str "paragraph"),
        (.position, .null), (.metadata, .null), (.children, .tuple [.record ⟨0, .mdastText,
          [(.kind, .str "text"), (.position, .null), (.metadata, .null),
            (.value, .str "x")]⟩])]⟩]), (.checked, .null), (.spread, .bool false)]⟩]),
    (.ordered, .bool false), (.start, .null), (.spread, .bool false)]⟩

theorem nested_of_mem_nestedList :
    Session 4 [nestedList] ∧ nestedList.form.isNode ∧ nestedList.Nested := by
  have hloaded : Session 4 [nestedList] := by
    refine .load .mdast "mdast" (.map [(.str "type", .str "list"), (.str "children", .list
      [.map [(.str "type", .str "listItem"), (.str "children", .list
        [.map [(.str "type", .str "paragraph"), (.str "children", .list
          [.map [(.str "type", .str "text"), (.str "value", .str "x")]])]])]])]) .start ?_ (by cbv)
    simp [Value.outerRecords, outerRecordsOfEntries, outerRecordsOfItems]
  exact ⟨hloaded, rfl, hloaded.nested_of_mem (by simp) rfl⟩

end Session

end DocTree
