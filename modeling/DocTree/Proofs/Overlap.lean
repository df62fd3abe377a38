import DocTree.Proofs.Mirroring

/-!
Trees that overlap: one identity at two places of a forest. The trees that are to stand side by side
below a new node are refused exactly if they overlap, wherever in them, and otherwise they are kept
as they are; that nodes are equal by value does not matter. Main statements: `not_overlap_iff` and
`new_iff_overlap`.
-/
namespace DocTree

/-- The node at a place of a forest, which is the index of a tree and a path in it. -/
def nodeAt? (rs : List Record) (place : Nat × List Nat) : Option Record :=
  rs[place.1]?.bind fun r => r.descendant? place.2

/-- Two different places of the forest hold one and the same node. -/
def Overlap (rs : List Record) : Prop :=
  ∃ place place' n n', nodeAt? rs place = some n ∧ nodeAt? rs place' = some n' ∧
    n.id = n'.id ∧ place ≠ place'

section Forest

variable {rs : List Record} {n : Record}

theorem nodeAt?_eq_some_iff {place : Nat × List Nat} : nodeAt? rs place = some n ↔
    ∃ h : place.1 < rs.length, rs[place.1].descendant? place.2 = some n := by
  rw [nodeAt?, Option.bind_eq_some_iff]
  constructor
  · rintro ⟨r, hr, hn⟩
    obtain ⟨h, rfl⟩ := List.getElem?_eq_some_iff.1 hr
    exact ⟨h, hn⟩
  · rintro ⟨h, hn⟩
    exact ⟨_, List.getElem?_eq_getElem h, hn⟩

/-- If no tree meets an identity twice by itself, trees overlap unless any two of them have no
identity in common. -/
theorem not_overlap_iff (hrs : ∀ r ∈ rs, (r.preorder.map Record.id).Nodup) :
    ¬ Overlap rs ↔ ((rs.flatMap Record.preorder).map Record.id).Nodup := by
  rw [List.map_flatMap, List.nodup_flatMap, List.pairwise_iff_getElem]
  constructor
  · intro h
    refine ⟨hrs, fun i j hi hj hlt k hik hjk => ?_⟩
    obtain ⟨a, ha, rfl⟩ := List.mem_map.1 hik
    obtain ⟨b, hb, he⟩ := List.mem_map.1 hjk
    obtain ⟨path, hpath⟩ := Record.exists_path ha
    obtain ⟨path', hpath'⟩ := Record.exists_path hb
    refine h ⟨(i, path), (j, path'), a, b, nodeAt?_eq_some_iff.2 ⟨hi, hpath⟩,
      nodeAt?_eq_some_iff.2 ⟨hj, hpath'⟩, he.symm, fun hplace => ?_⟩
    exact Nat.ne_of_lt hlt (Prod.mk.inj hplace).1
  · rintro ⟨-, hdisjoint⟩ ⟨⟨i, path⟩, ⟨j, path'⟩, a, b, ha, hb, he, hne⟩
    obtain ⟨hi, ha⟩ := nodeAt?_eq_some_iff.1 ha
    obtain ⟨hj, hb⟩ := nodeAt?_eq_some_iff.1 hb
    dsimp only at hi hj ha hb
    have hia : a.id ∈ rs[i].preorder.map Record.id :=
      List.mem_map_of_mem (Record.mem_preorder_of_descendant? ha)
    have hjb : a.id ∈ rs[j].preorder.map Record.id :=
      he ▸ List.mem_map_of_mem (Record.mem_preorder_of_descendant? hb)
    rcases Nat.lt_trichotomy i j with hlt | rfl | hlt
    · exact hdisjoint i j hi hj hlt hia hjb
    · have hpath := Record.path_eq_of_id_eq (hrs _ (List.getElem_mem hi)) ha hb he
      exact hne (congrArg _ hpath)
    · exact hdisjoint j i hj hi hlt hjb hia

theorem FirstShared.not_nodup {nodes : List Record} (h : FirstShared nodes n) :
    ¬ (nodes.map Record.id).Nodup := by
  obtain ⟨before, after, rfl, -, x, hx, he⟩ := h
  intro hnodup
  exact Record.nodup_ids_iff.1 hnodup before n after rfl x hx he

theorem nodesBelow_map (h : ∀ r ∈ rs, r.form.isNode) :
    nodesBelow (rs.map .record) = rs.flatMap Record.preorder := by
  rw [nodesBelow, filterMap_node?_map h, Record.walkFrom_eq_preorder]

end Forest

section New

variable {form : Form} {rs : List Record} {v : Value} {next : Ident}

/-- Trees each of which may stand under a node can be its children unless they overlap, and if they
do, the first node in document order that was met before is named. -/
theorem gatherChildren_of_forest (hv : v.sequence? = some (rs.map .record))
    (hwf : ∀ r ∈ rs, r.WellFormed) (hfit : ∀ r ∈ rs, checkChild form (.record r) = .ok ()) :
    (¬ Overlap rs ∧ gatherChildren form v = .ok (.tuple (rs.map .record))) ∨
      Overlap rs ∧ ∃ n, FirstShared (rs.flatMap Record.preorder) n ∧
        gatherChildren form v = .error (.repeatedNode form n.kind) := by
  have hnodes : ∀ r ∈ rs, r.form.isNode := fun r hr => (hwf r hr).isNode
  have hfits : ∀ x ∈ rs.map Value.record, Record.FitsUnder form x :=
    List.forall_mem_map.2 fun r hr => Record.checkChild_eq_ok_iff.1 (hfit r hr)
  have hwalk : ∀ r ∈ (rs.map Value.record).filterMap Value.node?, r.Walkable := by
    rw [filterMap_node?_map hnodes]
    exact fun r hr => (hwf r hr).walkable
  rw [gatherChildren_of_fits hv hfits hwalk, nodesBelow_map hnodes,
    not_overlap_iff fun r hr => (hwf r hr).distinct]
  cases hrepeated : firstRepeated? [] (rs.flatMap Record.preorder) with
  | none => exact .inl ⟨(firstRepeated?_eq_none_iff.1 hrepeated).1, rfl⟩
  | some n =>
    have hfirst : FirstShared (rs.flatMap Record.preorder) n :=
      firstRepeated?_eq_some_iff.1 hrepeated
    have hkind : n.get? .kind = some n.kind := by
      obtain ⟨r, hr, hn⟩ := List.mem_flatMap.1 (mem_of_firstRepeated? hrepeated)
      exact ((hwf r hr).sound n hn).get?_kind (Record.isNode_of_mem_preorder (hnodes r hr) hn)
    refine .inr ⟨?_, n, hfirst, congrArg Except.error (n.byKind_of_get? hkind _)⟩
    by_contra hno
    exact hfirst.not_nodup ((not_overlap_iff fun r hr => (hwf r hr).distinct).1 hno)

/-- Take a branch whose other fields are valid, and well-formed trees that may each stand under it,
in a list, a tuple or a stream, given anywhere among the other fields. The node is refused for a
repetition if and only if the trees overlap, and then the kind is named of the first node in
document order that was met before. Otherwise the node is built, and its children are the given
nodes in the given order. -/
theorem new_iff_overlap (before after : Entries) (hb : form.shape = .branch)
    (hvalid : ∃ r, check form next (.map (before ++ after)) = .ok r)
    (hnone : (before ++ after).get? "children" = none)
    (hv : v = .list (rs.map .record) ∨ v = .tuple (rs.map .record) ∨
      ∃ i, v = .stream i (rs.map .record))
    (hwf : ∀ r ∈ rs, r.WellFormed) (hfit : ∀ r ∈ rs, checkChild form (.record r) = .ok ()) :
    let entries := before ++ (.str "children", v) :: after
    ((∃ kind, form.new entries next = .error (.repeatedNode form kind)) ↔ Overlap rs) ∧
    (Overlap rs → ∃ n, FirstShared (rs.flatMap Record.preorder) n ∧
      form.new entries next = .error (.repeatedNode form n.kind)) ∧
    (¬ Overlap rs → ∃ r, form.new entries next = .ok (r, next + 1) ∧ r.form = form ∧
      r.children = rs.map .record) := by
  intro entries
  obtain ⟨r, hr⟩ := hvalid
  have hsequence : v.sequence? = some (rs.map .record) := by
    rcases hv with rfl | rfl | ⟨i, rfl⟩ <;> rfl
  rcases gatherChildren_of_forest hsequence hwf hfit with ⟨hno, hgather⟩ | ⟨ho, n, hn, hgather⟩
  · obtain ⟨q, hnew, hform, hq⟩ := exists_new_of_gather_around hb hnone hr hgather
    have hchildren : q.children = rs.map .record := by
      rw [Record.children, Record.isBranch, hform, hb, hq]
      rfl
    refine ⟨⟨?_, fun ho => absurd ho hno⟩, fun ho => absurd ho hno,
      fun _ => ⟨q, hnew, hform, hchildren⟩⟩
    rintro ⟨kind, hkind⟩
    cases hnew.symm.trans hkind
  · have hnew : form.new entries next = .error (.repeatedNode form n.kind) :=
      new_eq_error_of_gather_around hb (Entries.get?_left_of_append hnone) hr hgather
    exact ⟨⟨fun _ => ho, fun _ => ⟨n.kind, hnew⟩⟩, fun _ => ⟨n, hn, hnew⟩,
      fun hno => absurd ho hno⟩

def wrappedText (id : Ident) : Record :=
  ⟨id, .element, [(.kind, .str "element"), (.position, .null), (.metadata, .null),
    (.children, .tuple [.record (Session.loneText 0)]), (.tagName, .str "p"),
    (.properties, .map [])]⟩

theorem wellFormed_wrappedText : (Session.loneText 0).WellFormed ∧ (wrappedText 1).WellFormed := by
  have htext := Session.established_loneText
  have hcreate : create .element (.map [(.str "tag_name", .str "p"),
      (.str "children", .list [.record (Session.loneText 0)])]) 1 = .ok (wrappedText 1, 2) := by
    cbv
  have hsettled : (Value.map [(.str "tag_name", .str "p"),
      (.str "children", .list [.record (Session.loneText 0)])]).Settled 1 := by
    simpa [Value.Settled, Value.outerRecords, outerRecordsOfEntries, outerRecordsOfItems]
      using htext
  exact ⟨htext.node rfl, (create_established hsettled hcreate).2.node rfl⟩

/-- The text stands below the paragraph and again behind it. -/
theorem new_iff_overlap_wrappedText :
    Form.hastRoot.shape = .branch ∧
      (∃ r, check .hastRoot 2 (.map [(.str "type", .str "root"), (.str "data", .null)]) = .ok r) ∧
      (∀ r ∈ [wrappedText 1, Session.loneText 0], r.WellFormed) ∧
      (∀ r ∈ [wrappedText 1, Session.loneText 0],
        checkChild .hastRoot (.record r) = .ok ()) ∧
      Overlap [wrappedText 1, Session.loneText 0] ∧
      ∃ n, FirstShared [wrappedText 1, Session.loneText 0, Session.loneText 0] n ∧
        Form.hastRoot.new [(.str "type", .str "root"), (.str "children",
          .stream 9 [.record (wrappedText 1), .record (Session.loneText 0)]),
          (.str "data", .null)] 2 = .error (.repeatedNode .hastRoot n.kind) := by
  have hvalid : ∃ r, check .hastRoot 2
      (.map [(.str "type", .str "root"), (.str "data", .null)]) = .ok r := ⟨_, rfl⟩
  obtain ⟨htext, hwrapped⟩ := wellFormed_wrappedText
  have hwf : ∀ r ∈ [wrappedText 1, Session.loneText 0], r.WellFormed := by
    simp only [List.forall_mem_cons, List.not_mem_nil, false_implies, implies_true, and_true]
    exact ⟨hwrapped, htext⟩
  have hfit : ∀ r ∈ [wrappedText 1, Session.loneText 0],
      checkChild .hastRoot (.record r) = .ok () := by
    simp only [List.forall_mem_cons, List.not_mem_nil, false_implies, implies_true, and_true]
    exact ⟨rfl, rfl⟩
  have hoverlap : Overlap [wrappedText 1, Session.loneText 0] :=
    ⟨(0, [0]), (1, []), Session.loneText 0, Session.loneText 0, rfl, rfl, rfl, by decide⟩
  obtain ⟨-, hrefused, -⟩ := new_iff_overlap [(.str "type", .str "root")] [(.str "data", .null)]
    rfl hvalid rfl (.inr (.inr ⟨9, rfl⟩)) hwf hfit
  obtain ⟨n, hn, hnew⟩ := hrefused hoverlap
  exact ⟨rfl, hvalid, hwf, hfit, hoverlap, n, hn, hnew⟩

end New

end DocTree
