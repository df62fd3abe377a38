import Mathlib.Data.List.Nodup
import DocTree.Proofs.Agreement
import DocTree.Realised

/-!
What loading makes of data that mixes mappings with nodes. By induction on the data each loaded node
answers to what it was loaded from, passes the audit by itself, and has nodes with distinct
identities below it; so an instance that the data mentions twice would have two paths in one tree.
Main statements: `path_eq_of_id_eq`, `Assembled.loaded`, `loadItem_realised` and `load_mirrors`.
-/
namespace DocTree

theorem Registry.latest_of_find? {forms : Registry} {kind : String} {form : Form}
    (h : forms.find? kind = some form) : forms.Latest kind form := by
  obtain ⟨hkind, after, before, hforms, hnone⟩ := List.find?_eq_some_iff_append.1 h
  have hsplit : forms = before.reverse ++ form :: after.reverse := by
    rw [← List.reverse_reverse forms, hforms]
    simp
  refine ⟨before.reverse, after.reverse, hsplit, by simpa using hkind, fun f hf => ?_⟩
  simpa using hnone f (List.mem_reverse.1 hf)

theorem Value.at?_append (v : Value) (path path' : List Nat) :
    v.at? (path ++ path') = (v.at? path).bind fun w => w.at? path' := by
  induction path generalizing v with
  | nil => rfl
  | cons i path ih =>
    rw [List.cons_append, at?, at?]
    cases v.listed[i]? with
    | none => rfl
    | some x => exact ih x

namespace Record

variable {r a b c d n : Record} {path path' : List Nat} {next next' : Ident}

theorem mem_preorder_of_descendant? (h : r.descendant? path = some n) : n ∈ r.preorder := by
  induction path generalizing r with
  | nil =>
    obtain rfl := Option.some.inj h
    exact mem_preorder_iff.2 (.inl rfl)
  | cons i path ih =>
    obtain ⟨c, hc, hn, hd⟩ := descendant?_cons_eq_some_iff.1 h
    exact (preorder_sublist (mem_childNodes_of_getElem? hc hn)).subset (ih hd)

theorem exists_path (h : n ∈ r.preorder) : ∃ path, r.descendant? path = some n := by
  rw [preorder_eq_filterMap_paths] at h
  obtain ⟨path, -, hpath⟩ := List.mem_filterMap.1 h
  exact ⟨path, hpath⟩

theorem id_ne_of_descendant?_cons (hd : (r.preorder.map id).Nodup) {i : Nat}
    (h : r.descendant? (i :: path) = some n) : n.id ≠ r.id := by
  intro he
  obtain ⟨c, hc, hcn, hnc⟩ := descendant?_cons_eq_some_iff.1 h
  have hbelow : n ∈ r.childNodes.flatMap preorder :=
    List.mem_flatMap.2 ⟨c, mem_childNodes_of_getElem? hc hcn, mem_preorder_of_descendant? hnc⟩
  rw [preorder_eq, List.map_cons, List.nodup_cons, ← he] at hd
  exact hd.1 (List.mem_map_of_mem hbelow)

theorem index_eq_of_id_eq (hd : (r.preorder.map id).Nodup) {i j : Nat}
    (hc : r.children[i]? = some (.record c)) (hcn : c.form.isNode)
    (hd' : r.children[j]? = some (.record d)) (hdn : d.form.isNode)
    (ha : a ∈ c.preorder) (hb : b ∈ d.preorder) (he : a.id = b.id) : i = j := by
  rw [preorder_eq, List.map_cons, List.nodup_cons, List.map_flatMap, List.nodup_flatMap] at hd
  have hpair := List.pairwise_filterMap.1 hd.2.2
  rw [List.pairwise_iff_getElem] at hpair
  obtain ⟨hi, hci⟩ := List.getElem?_eq_some_iff.1 hc
  obtain ⟨hj, hdj⟩ := List.getElem?_eq_some_iff.1 hd'
  have hcnode : r.children[i].node? = some c := hci ▸ Value.node?_eq_some.2 ⟨rfl, hcn⟩
  have hdnode : r.children[j].node? = some d := hdj ▸ Value.node?_eq_some.2 ⟨rfl, hdn⟩
  have hca : b.id ∈ c.preorder.map id := he ▸ List.mem_map_of_mem ha
  have hdb : b.id ∈ d.preorder.map id := List.mem_map_of_mem hb
  rcases Nat.lt_trichotomy i j with hlt | heq | hlt
  · exact absurd hdb (hpair i j hi hj hlt c hcnode d hdnode hca)
  · exact heq
  · exact absurd hca (hpair j i hj hi hlt d hdnode c hcnode hdb)

/-- Where identities are distinct, no identity is met at two paths: the paths of two nodes are
compared from the top, and part at no child. -/
theorem path_eq_of_id_eq (hd : (r.preorder.map id).Nodup) (ha : r.descendant? path = some a)
    (hb : r.descendant? path' = some b) (he : a.id = b.id) : path = path' := by
  induction path generalizing r path' with
  | nil =>
    obtain rfl := Option.some.inj ha
    cases path' with
    | nil => rfl
    | cons j path' => exact absurd he.symm (id_ne_of_descendant?_cons hd hb)
  | cons i path ih =>
    cases path' with
    | nil =>
      obtain rfl := Option.some.inj hb
      exact absurd he (id_ne_of_descendant?_cons hd ha)
    | cons j path' =>
      obtain ⟨c, hc, hcn, hac⟩ := descendant?_cons_eq_some_iff.1 ha
      obtain ⟨c', hc', hcn', hbc⟩ := descendant?_cons_eq_some_iff.1 hb
      obtain rfl := index_eq_of_id_eq hd hc hcn hc' hcn' (mem_preorder_of_descendant? hac)
        (mem_preorder_of_descendant? hbc) he
      obtain rfl := Value.record.inj (Option.some.inj (hc.symm.trans hc'))
      have hsub := preorder_sublist (mem_childNodes_of_getElem? hc hcn)
      rw [ih (hd.sublist (hsub.map id)) hac hbc]

/-- A tree that the audit passes, with identities below `next`. -/
structure Loaded (next : Ident) (r : Record) : Prop where
  passes : ∀ n ∈ r.preorder, n.PassesAlone
  used : ∀ n ∈ r.preorder, n.id < next
  distinct : (r.preorder.map id).Nodup

theorem Loaded.mono (h : r.Loaded next) (hle : next ≤ next') : r.Loaded next' :=
  ⟨h.passes, fun n hn => Nat.lt_of_lt_of_le (h.used n hn) hle, h.distinct⟩

theorem Loaded.audit_eq (h : r.Loaded next) : r.audit = .ok r.walk.length := by
  have hpass : ∀ n ∈ walkFrom [r], n.PassesAlone := by
    show ∀ n ∈ r.walk, n.PassesAlone
    rw [walk_eq_preorder]
    exact h.passes
  have hnone : firstRepeated? [] (walkFrom [r]) = none := by
    show firstRepeated? [] r.walk = none
    rw [walk_eq_preorder, firstRepeated?_eq_none_iff]
    exact ⟨h.distinct, fun _ _ => List.not_mem_nil⟩
  rw [audit, auditFrom_eq_of_passesAlone hpass, hnone, List.length_nil, Nat.zero_add]
  rfl

/-- A well-formed node may be kept in what is loaded. -/
theorem WellFormed.loaded (h : r.WellFormed) (hids : ∀ n ∈ r.walk, n.id < next) :
    r.Loaded next := by
  have hpass := passesAlone_of_auditFrom h.audit_eq
  rw [show walkFrom [r] = r.preorder from walk_eq_preorder r] at hpass
  rw [walk_eq_preorder] at hids
  exact ⟨hpass, hids, h.distinct⟩

end Record

section Assembled

variable {form : Form} {id : Ident} {es : Entries} {r : Record}

/-- The position of an assembled node was put in order when the node was checked, also if it is an
instance that was kept. -/
theorem Assembled.checkPosition_eq (h : Assembled form id (checkPlace id) es r)
    (hn : form.isNode) : r.checkPosition = .ok () := by
  have ht := h.takes _ (Form.position_mem_specs hn)
  change FieldSpec.Takes form (checkPlace id) es _ (r.get .position) at ht
  unfold Record.checkPosition Record.hasPosition
  generalize r.get .position = stored at ht ⊢
  cases ht with
  | default _ hd =>
    obtain rfl := Option.some.inj hd
    rfl
  | null => rfl
  | given _ _ hg =>
    obtain ⟨q, hq, rfl⟩ := hg
    rcases checkWith_eq_ok_iff.1 hq with ⟨fs, -, hplace⟩ | ⟨-, -, hcoupled⟩
    · exact hplace.coupled
    · exact hcoupled

theorem Assembled.reversible {place : Form → Value → Except Violation Record}
    (h : Assembled form id place es r) : r.Reversible := by
  intro hb
  have hshape : form.shape = .branch := by simpa [Record.isBranch, h.form_eq] using hb
  exact ⟨_, _, Record.get?_of_get (h.children_eq hshape) (by simp), rfl⟩

/-- A node built on top of loaded children is loaded. -/
theorem Assembled.loaded (h : Assembled form id (checkPlace id) es r) (hn : form.isNode)
    (hc : ∀ c ∈ r.childNodes, c.Loaded id) : r.Loaded (id + 1) := by
  obtain ⟨hfit, hnodup, -⟩ := h.children
  have hused : ∀ n ∈ r.childNodes.flatMap Record.preorder, n.id < id := by
    intro n hm
    obtain ⟨c, hcm, hnc⟩ := List.mem_flatMap.1 hm
    exact (hc c hcm).used n hnc
  have htop : r.PassesAlone := by
    rw [Record.passesAlone_iff, h.reversible.contents_eq, h.form_eq]
    exact ⟨h.checkPosition_eq hn, h.reversible, hfit⟩
  constructor <;> rw [Record.preorder_eq]
  · rw [List.forall_mem_cons]
    refine ⟨htop, fun n hm => ?_⟩
    obtain ⟨c, hcm, hnc⟩ := List.mem_flatMap.1 hm
    exact (hc c hcm).passes n hnc
  · rw [List.forall_mem_cons, h.ident]
    exact ⟨Nat.lt_succ_self id, fun n hm => Nat.lt_succ_of_lt (hused n hm)⟩
  · rw [List.map_cons, List.nodup_cons, h.ident]
    refine ⟨fun hmem => ?_, hnodup⟩
    obtain ⟨n, hm, he⟩ := List.mem_map.1 hmem
    exact absurd he (Nat.ne_of_lt (hused n hm))

theorem Assembled.childNodes_of_get?_none {place : Form → Value → Except Violation Record}
    (h : Assembled form id place es r) (hnone : es.get? "children" = none) : r.childNodes = [] := by
  obtain ⟨-, -, hmem⟩ := h.children
  refine List.eq_nil_iff_forall_not_mem.2 fun c hc => ?_
  obtain ⟨v, hv, -⟩ := hmem c hc
  rw [hnone] at hv
  cases hv

end Assembled

section Load

variable {forms : Registry} {family : String} {base next next' : Ident}

structure LoadsTo (forms : Registry) (base next next' : Ident) (x : Value) (r : Record) : Prop where
  le : next ≤ next'
  isNode : r.form.isNode
  loaded : r.Loaded next'
  realised : Realised forms base x r

/-- Induction on the list: what is loaded later leaves alone what was loaded before. -/
theorem loadItems_realised {xs : List Value} {rs : List Record}
    (hx : ∀ x ∈ xs, ∀ next next' r, base ≤ next →
      loadItem forms family x next = .ok (r, next') → LoadsTo forms base next next' x r)
    (hle : base ≤ next) (h : loadItems forms family xs next = .ok (rs.map .record, next')) :
    next ≤ next' ∧ (∀ r ∈ rs, r.Loaded next') ∧
      RealisedItems forms base xs (rs.map .record) := by
  induction xs generalizing next rs with
  | nil =>
    rw [loadItems] at h
    obtain ⟨hrs, rfl⟩ := Build.pure_eq_ok_iff.1 h
    obtain rfl := List.map_eq_nil_iff.1 hrs.symm
    exact ⟨Nat.le_refl next, by simp, .nil⟩
  | cons x xs ih =>
    obtain ⟨r, mid, nodes, hr, hrest, hrs⟩ := loadItems_cons_eq_ok_iff.1 h
    obtain ⟨r', rest, rfl, hr', rfl⟩ := List.map_eq_cons_iff.1 hrs
    obtain rfl := Value.record.inj hr'
    obtain ⟨hfirst, hothers⟩ := List.forall_mem_cons.1 hx
    have hstep := hfirst next mid r' hle hr
    obtain ⟨hle', hloaded, hreal⟩ := ih hothers (Nat.le_trans hle hstep.le) hrest
    exact ⟨Nat.le_trans hstep.le hle', List.forall_mem_cons.2 ⟨hstep.loaded.mono hle', hloaded⟩,
      .cons hstep.isNode hstep.realised hreal⟩

/-- The step at a mapping, with what loading makes of its children. -/
theorem load_map_realised {es : Entries} {r : Record}
    (hlist : ∀ w, es.get? "children" = some w → ∃ xs, w = .list xs ∨ w = .tuple xs)
    (hx : ∀ x ∈ (Value.map es).listed, ∀ next next' r, base ≤ next →
      loadItem forms family x next = .ok (r, next') → LoadsTo forms base next next' x r)
    (hle : base ≤ next) (h : load forms family (.map es) next = .ok (r, next')) :
    LoadsTo forms base next next' (.map es) r := by
  obtain ⟨form, loaded, mid, hform, hl, hcreate⟩ := load_map_eq_ok_iff.1 h
  obtain ⟨kind, htype, hfind⟩ := Registry.formOf?_eq_some_iff.1 hform
  obtain ⟨hcheck, rfl⟩ := create_eq_ok_iff.1 hcreate
  have ha : Assembled form mid (checkPlace mid) loaded r := checkWith_map_eq_ok_iff.1 hcheck
  have hn : form.isNode := Form.isNode_of_kind (Registry.kind_of_find? hfind)
  have hchildren : r.children = r.childNodes.map .record :=
    Record.children_eq_of_fitsUnder ha.children.1
  have hitems : next ≤ mid ∧ (∀ c ∈ r.childNodes, c.Loaded mid) ∧
      RealisedItems forms base (Value.map es).listed r.children := by
    rw [hchildren]
    rcases loadEntries_cases hn hlist hl ha with
      ⟨hnone, rfl, rfl⟩ | ⟨w, xs, rs, hget, hw, hb, hrs, rfl⟩
    · rw [ha.childNodes_of_get?_none hnone, Value.listed, hnone]
      exact ⟨Nat.le_refl _, by simp, .nil⟩
    · have hlisted : (Value.map es).listed = xs := by
        rw [Value.listed, hget]
        rcases hw with rfl | rfl <;> rfl
      have hnodes : r.childNodes = rs :=
        ha.childNodes_eq hb
          (Entries.get?_withChildren_children (Entries.contains_of_get? hget)) rfl
      rw [hlisted] at hx ⊢
      rw [hnodes]
      exact loadItems_realised hx hle hrs
  obtain ⟨hle', hloaded, hreal⟩ := hitems
  constructor
  · exact Nat.le_succ_of_le hle'
  · rw [ha.form_eq]
    exact hn
  · exact ha.loaded hn hloaded
  · refine .made htype ?_ ?_ hreal
    · rw [ha.form_eq]
      exact Registry.latest_of_find? hfind
    · rw [ha.ident]
      exact Nat.le_trans hle hle'

/-- Induction on the data: the children of a mapping are loaded before the mapping is. -/
theorem loadItem_realised {x : Value} (hx : x.TreeData base) :
    ∀ next next' r, base ≤ next → loadItem forms family x next = .ok (r, next') →
      LoadsTo forms base next next' x r := by
  induction hx with
  | @node q hwf hids =>
    intro next next' r hle h
    rcases loadItem_eq_ok_iff.1 h with ⟨⟨he, hn⟩, rfl⟩ | ⟨hnone, -⟩
    · obtain rfl := Value.record.inj he
      exact ⟨Nat.le_refl next, hn, (hwf.loaded hids).mono hle, .kept⟩
    · rw [Value.node?_eq_some.2 ⟨rfl, hwf.isNode⟩] at hnone
      cases hnone
  | map hlist _ ih =>
    intro next next' r hle h
    rcases loadItem_eq_ok_iff.1 h with ⟨⟨he, -⟩, -⟩ | ⟨-, hload⟩
    · cases he
    · exact load_map_realised hlist ih hle hload

theorem load_realised {v : Value} {r : Record} (hv : v.TreeData next)
    (h : load forms family v next = .ok (r, next')) : LoadsTo forms next next next' v r := by
  have hnode : v.node? = none := by
    cases v with
    | map es => rfl
    | _ => cases h
  exact loadItem_realised hv next next' r (Nat.le_refl next)
    (loadItem_eq_ok_iff.2 (.inr ⟨hnode, h⟩))

/-- Whatever is loaded of data for trees mirrors it: mappings give new nodes of the latest form of
their type, nodes are kept as they are, there are no others, and the audit passes the tree. Data
that mentions an instance twice is never loaded. -/
theorem load_mirrors {v : Value} (hv : v.TreeData next) :
    (∀ r next', load forms family v next = .ok (r, next') →
      Mirrors forms next v r ∧ r.audit = .ok r.walk.length) ∧
    (v.MentionsTwice → ∀ r next', load forms family v next ≠ .ok (r, next')) := by
  constructor
  · intro r next' h
    have hloads := load_realised hv h
    exact ⟨hloads.realised.mirrors, hloads.loaded.audit_eq⟩
  · rintro ⟨path, path', q, s, hne, hq, hs, n, hn, he⟩ r next' h
    have hloads := load_realised hv h
    have hmirrors := hloads.realised.mirrors
    rw [Record.walk_eq_preorder] at hn
    obtain ⟨below, hbelow⟩ := Record.exists_path hn
    have hdescendant : r.descendant? (path ++ below) = some n := by
      rw [Record.descendant?_append, hmirrors.kept path q hq]
      exact hbelow
    have hpath : path ++ below = path' :=
      Record.path_eq_of_id_eq hloads.loaded.distinct hdescendant (hmirrors.kept path' s hs) he
    -- the data goes on below no node, so the paths could only be the same
    rw [← hpath, Value.at?_append, hq] at hs
    cases below with
    | nil => exact hne (by rw [← hpath, List.append_nil])
    | cons i below => cases hs

def mixedData (inner : Value) : Value :=
  .map [(.str "type", .str "root"), (.str "children", .tuple [.record (Session.loneText 0),
    .map [(.str "type", .str "element"), (.str "tagName", .str "p"),
      (.str "children", .list [inner])]])]

def mixedTree : Record :=
  ⟨3, .hastRoot, [(.kind, .str "root"), (.position, .null), (.metadata, .null),
    (.children, .tuple [.record (Session.loneText 0), .record ⟨2, .element,
      [(.kind, .str "element"), (.position, .null), (.metadata, .null),
        (.children, .tuple [.record (Session.loneText 1)]), (.tagName, .str "p"),
        (.properties, .map [])]⟩])]⟩

theorem treeData_loneText : (Value.record (Session.loneText 0)).TreeData 1 := by
  have hest := Session.established_loneText
  apply Value.TreeData.node (hest.node rfl)
  rw [Record.walk_eq_preorder]
  exact hest.used rfl

theorem treeData_mixedData {inner : Value} (h : inner.TreeData 1) :
    (mixedData inner).TreeData 1 := by
  have helement : (Value.map [(.str "type", .str "element"), (.str "tagName", .str "p"),
      (.str "children", .list [inner])]).TreeData 1 := by
    apply Value.TreeData.map
    · exact fun v hv => ⟨_, .inl (Option.some.inj hv).symm⟩
    · exact List.forall_mem_singleton.2 h
  apply Value.TreeData.map
  · exact fun v hv => ⟨_, .inr (Option.some.inj hv).symm⟩
  · exact List.forall_mem_cons.2 ⟨treeData_loneText, List.forall_mem_singleton.2 helement⟩

/-- With both families in one registry, a text to be made is one of the family that comes later;
the text that the data mentions already is refused in its place. -/
theorem load_mirrors_mixedData :
    let text := .map [(.str "type", .str "text"), (.str "value", .str "x")]
    let again := .record (Session.loneText 0)
    let forms := Registry.mdast ++ Registry.hast
    ((mixedData text).TreeData 1 ∧ load forms "both" (mixedData text) 1 = .ok (mixedTree, 4) ∧
      Mirrors forms 1 (mixedData text) mixedTree ∧ mixedTree.audit = .ok mixedTree.walk.length) ∧
    (mixedData again).TreeData 1 ∧ (mixedData again).MentionsTwice ∧
      ∀ r next', load forms "both" (mixedData again) 1 ≠ .ok (r, next') := by
  intro text again forms
  have htext : (mixedData text).TreeData 1 := treeData_mixedData (.map nofun nofun)
  have hagain : (mixedData again).TreeData 1 := treeData_mixedData treeData_loneText
  have hload : load forms "both" (mixedData text) 1 = .ok (mixedTree, 4) := by cbv
  have htwice : (mixedData again).MentionsTwice := by
    refine ⟨[0], [1, 0], Session.loneText 0, Session.loneText 0, by decide, rfl, rfl, ?_⟩
    refine ⟨Session.loneText 0, ?_, rfl⟩
    rw [Record.walk_eq_preorder]
    exact .head _
  exact ⟨⟨htext, hload, (load_mirrors htext).1 _ _ hload⟩, hagain, htwice,
    (load_mirrors hagain).2 htwice⟩

end Load

end DocTree
