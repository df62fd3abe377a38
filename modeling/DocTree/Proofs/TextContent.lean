import DocTree.Proofs.DocumentOrder
import DocTree.Proofs.Pruning
import DocTree.Proofs.Updating

/-!
The text of a tree. It is put together from the texts of the children, since the walk is, so what
stands at a path contributes one segment of it, and another tree there another segment. The text of
converted markup is followed through the conversion item by item. Main statements:
`Record.text_eq`, `Record.exists_text_segment`, `Record.Replaced.of_evolve`, `text_of_convert` and
`text_compositional`.
-/
namespace DocTree

open Markup

def textOfItems (xs : List Value) : String :=
  String.join ((xs.filterMap Value.node?).map Record.text)

@[simp] theorem textOfItems_nil : textOfItems [] = "" := rfl

theorem textOfItems_append (xs ys : List Value) :
    textOfItems (xs ++ ys) = textOfItems xs ++ textOfItems ys := by
  rw [textOfItems, List.filterMap_append, List.map_append, String.join_append, textOfItems,
    textOfItems]

theorem textOfItems_cons {c : Record} (h : c.form.isNode) (xs : List Value) :
    textOfItems (.record c :: xs) = c.text ++ textOfItems xs := by
  rw [textOfItems, List.filterMap_cons_some (Value.node?_eq_some.2 ⟨rfl, h⟩), List.map_cons,
    String.join_cons, textOfItems]

theorem textOfItems_singleton {c : Record} (h : c.form.isNode) :
    textOfItems [.record c] = c.text := by
  rw [textOfItems_cons h, textOfItems_nil, String.append_empty]

namespace Record

def textOf (nodes : List Record) : String :=
  String.join (nodes.filterMap fun x => if x.isLeaf then (x.get .value).text? else none)

variable {r r' c c' d : Record} {path : List Nat} {i : Nat}

theorem text_eq_textOf (r : Record) : r.text = textOf r.walk := rfl

theorem textOf_append (front back : List Record) :
    textOf (front ++ back) = textOf front ++ textOf back := by
  rw [textOf, List.filterMap_append, String.join_append, textOf, textOf]

theorem textOf_singleton (h : r.isLeaf = false) : textOf [r] = "" := by
  simp [textOf, h]

theorem textOf_flatMap_walk (xs : List Value) :
    textOf ((xs.filterMap Value.node?).flatMap walk) = textOfItems xs := by
  rw [textOfItems]
  induction xs.filterMap Value.node? with
  | nil => rfl
  | cons r rs ih =>
    rw [List.flatMap_cons, textOf_append, ih, List.map_cons, String.join_cons, text_eq_textOf]

/-- The text of a node is its own value, if it is a leaf, and then the texts of its children. -/
theorem text_eq (r : Record) : r.text = textOf [r] ++ textOfItems r.children := by
  rw [text_eq_textOf, walk_eq, ← List.singleton_append, textOf_append, childNodes,
    textOf_flatMap_walk]

theorem isLeaf_iff : r.isLeaf ↔ r.form.shape = .leaf := decide_eq_true_iff

theorem isBare_iff : r.isBare ↔ r.form.shape = .bare := decide_eq_true_iff

theorem isBranch_iff : r.isBranch ↔ r.form.shape = .branch := decide_eq_true_iff

theorem isLeaf_eq_false (h : r.form.shape ≠ .leaf) : r.isLeaf = false :=
  decide_eq_false h

theorem children_eq_nil (h : r.form.shape ≠ .branch) : r.children = [] := by
  rw [children, isBranch, decide_eq_false h]
  rfl

theorem text_of_isLeaf {s : String} (h : r.isLeaf) (hs : r.get .value = .str s) : r.text = s := by
  have hb : r.form.shape ≠ .branch := by simp [isLeaf_iff.1 h]
  rw [text_eq, children_eq_nil hb]
  simp [textOf, h, hs, Value.text?]

theorem text_of_isBare (h : r.isBare) : r.text = "" := by
  have hb : r.form.shape ≠ .branch := by simp [isBare_iff.1 h]
  have hl : r.form.shape ≠ .leaf := by simp [isBare_iff.1 h]
  rw [text_eq, children_eq_nil hb, textOf_singleton (isLeaf_eq_false hl)]
  rfl

theorem text_of_isBranch (h : r.isBranch) : r.text = textOfItems r.children := by
  have hl : r.form.shape ≠ .leaf := by simp [isBranch_iff.1 h]
  rw [text_eq, textOf_singleton (isLeaf_eq_false hl), String.empty_append]

theorem WellFormed.get_value (h : r.WellFormed) (hl : r.isLeaf) : r.get .value = .str r.text := by
  have hsound := h.sound r (mem_preorder_iff.2 (.inl rfl))
  rcases hsound.stores _ (Form.value_mem_specs (isLeaf_iff.1 hl)) with ⟨hnull, -⟩ | ⟨s, hs, -⟩
  · cases hnull
  · rw [text_of_isLeaf hl hs]
    exact hs

/-- `r.Replaced path d r'` when `r'` is `r` with `d` in place of what stands at the path. The nodes
above the path may have been built anew; each is of the form of the one that it stands for and has
the same children but for the one on the path. -/
inductive Replaced : Record → List Nat → Record → Record → Prop
  | here (r d : Record) : Replaced r [] d d
  | deeper {r r' c c' d : Record} {i : Nat} {path : List Nat} :
    r.children[i]? = some (.record c) → c'.form.isNode → r'.form = r.form →
    r'.children = r.children.set i (.record c') → Replaced c path d c' →
    Replaced r (i :: path) d r'

/-- Induction on the path: what stands there makes one segment of the text. Whatever is put there
instead, the nodes in front of it and behind it give the text that they gave before. -/
theorem exists_text_segment (h : r.descendant? path = some d) :
    ∃ front back, r.walk = front ++ d.walk ++ back ∧
      ∀ d' r', r.Replaced path d' r' → r'.text = textOf front ++ d'.text ++ textOf back := by
  induction path generalizing r with
  | nil =>
    obtain rfl := Option.some.inj h
    refine ⟨[], [], by simp, fun d' r' hreplaced => ?_⟩
    cases hreplaced
    exact (String.append_empty.trans String.empty_append).symm
  | cons i path ih =>
    obtain ⟨c, hc, hn, hd⟩ := descendant?_cons_eq_some_iff.1 h
    obtain ⟨front, back, hwalk, hsegment⟩ := ih hd
    obtain ⟨earlier, later, hchildren, rfl⟩ := exists_split_of_getElem? hc
    have hb : r.form.shape = .branch := shape_of_mem_childNodes (mem_childNodes_of_getElem? hc hn)
    -- a node above the path holds others, so it gives no text of its own
    have hown : textOf [r] = "" := textOf_singleton (isLeaf_eq_false (by simp [hb]))
    refine ⟨[r] ++ (earlier.filterMap Value.node?).flatMap walk ++ front,
      back ++ (later.filterMap Value.node?).flatMap walk, ?_, fun d' r' hreplaced => ?_⟩
    · have hnode : (Value.record c).node? = some c := Value.node?_eq_some.2 ⟨rfl, hn⟩
      rw [walk_eq, childNodes, hchildren, List.filterMap_append, List.filterMap_cons_some hnode,
        List.flatMap_append, List.flatMap_cons, hwalk]
      simp
    · cases hreplaced with
      | deeper hc' hn' hform hchildren' hinner =>
        obtain rfl := Value.record.inj (Option.some.inj (hc.symm.trans hc'))
        have hb' : r'.isBranch := by rw [isBranch_iff, hform, hb]
        rw [hchildren, List.set_append_right _ _ (Nat.le_refl _), Nat.sub_self,
          List.set_cons_zero] at hchildren'
        rw [text_of_isBranch hb', hchildren', textOfItems_append, textOfItems_cons hn',
          hsegment d' _ hinner]
        simp only [textOf_append, textOf_flatMap_walk, hown, String.empty_append,
          String.append_assoc]

/-- A tree is changed by evolving the nodes above the change one after the other, each with its
children but the changed one in its place. -/
theorem Replaced.of_evolve {v : Value} {next next' : Ident} (hinner : c.Replaced path d c')
    (hc : r.children[i]? = some (.record c))
    (hv : v.sequence? = some (r.children.set i (.record c')))
    (h : r.evolve [(.str "children", v)] next = .ok (r', next')) : r.Replaced (i :: path) d r' := by
  have hb : r.form.shape = .branch := by
    by_contra hne
    simp [children_eq_nil hne] at hc
  unfold evolve at h
  obtain ⟨fields, mid, -, hnew⟩ := Build.bind_eq_ok_iff.1 h
  have ha : Assembled r.form mid (checkPlace mid) (fields.insert (.str "children") v) r' :=
    checkWith_map_eq_ok_iff.1 (create_eq_ok_iff.1 hnew).1
  have hget : (fields.insert (.str "children") v).get? "children" = some v := by
    rw [Entries.get?_insert, if_pos rfl]
  obtain ⟨xs, hxs, hstored, hfit, -⟩ := gatherChildren_eq_ok_iff.1 (ha.gathers hb hget)
  obtain rfl := Option.some.inj (hv.symm.trans hxs)
  have hchildren : r'.children = r.children.set i (.record c') := by
    rw [children, isBranch_iff.2 (ha.form_eq ▸ hb), hstored]
    rfl
  obtain ⟨hi, -⟩ := List.getElem?_eq_some_iff.1 hc
  obtain ⟨q, kind, hq, hn, -⟩ := hfit (.record c') (List.mem_set hi _)
  obtain rfl := Value.record.inj hq
  exact .deeper hc hn ha.form_eq hchildren hinner

end Record

section Convert

variable {holder : Holder} {next next' : Ident} {c : Converted}

theorem text_of_children {r : Record} {xs : List Value} (hb : r.isBranch)
    (hxs : r.get .children = .tuple xs) : r.text = textOfItems xs := by
  rw [Record.text_of_isBranch hb, Record.children, if_pos hb, hxs, Value.items_tuple]

theorem text_of_newElement {name : Value} {attributes : Entries} {p : Converted × Ident}
    (hp : Gathered (.tag name) p) {node : Record}
    (h : newElement name attributes p.1.1 p.2 = .ok (node, next')) :
    node.form.isNode ∧ node.text = textOfItems p.1.1 := by
  rw [newElement_of_gathered name attributes p.2 hp] at h
  obtain ⟨parts, -, h⟩ := check_map_eq_ok_iff.1 h
  obtain ⟨rfl, rfl⟩ := Prod.mk.inj h
  exact ⟨rfl, text_of_children rfl rfl⟩

theorem textOfItems_of_newLeaf {form : Form} (hf : form = .hastText ∨ form = .comment)
    {content : String} (h : (do
      let node ← newLeaf form content
      return ([.record node], []) : Build Converted) next = .ok (c, next')) :
    textOfItems c.1 = content := by
  obtain ⟨node, mid, hnode, h⟩ := Build.bind_eq_ok_iff.1 h
  rw [newLeaf_eq hf] at hnode
  obtain ⟨rfl, rfl⟩ := Prod.mk.inj (Except.ok.inj hnode)
  obtain ⟨rfl, rfl⟩ := Build.pure_eq_ok_iff.1 h
  have hl : form.shape = .leaf := by rcases hf with rfl | rfl <;> rfl
  rw [textOfItems_singleton (Form.isNode_of_leaf hl)]
  exact Record.text_of_isLeaf (Record.isLeaf_iff.2 hl) rfl

theorem textOfItems_of_convertString {cls : StringClass} {content : String}
    (h : convertString true holder cls content next = .ok (c, next')) :
    textOfItems c.1 = String.join (stringsOfItem (.string cls content)) := by
  by_cases hdoctype : cls = .doctype ∧ holder = .document
  · obtain ⟨rfl, rfl⟩ := hdoctype
    obtain ⟨node, mid, hnode, h⟩ := Build.bind_eq_ok_iff.1 h
    rw [newDoctype_eq] at hnode
    obtain ⟨rfl, rfl⟩ := Prod.mk.inj (Except.ok.inj hnode)
    obtain ⟨rfl, rfl⟩ := Build.pure_eq_ok_iff.1 h
    rw [textOfItems_singleton rfl, Record.text_of_isBare rfl]
    rfl
  by_cases hcomment : cls = .comment
  · subst hcomment
    have htext : textOfItems c.1 = content := textOfItems_of_newLeaf (.inr rfl) h
    simp [htext, stringsOfItem]
  rw [(convertString_eq true content hcomment hdoctype).1] at h
  rw [stringsOfItem]
  by_cases hpreformatted : cls.isPreformatted
  · rw [if_pos hpreformatted] at h
    obtain ⟨rfl, rfl⟩ := Build.pure_eq_ok_iff.1 h
    simp [hpreformatted, hcomment]
  · rw [if_neg hpreformatted, Bool.true_or, if_pos rfl] at h
    have htext : textOfItems c.1 = content := textOfItems_of_newLeaf (.inl rfl) h
    simp [htext, hpreformatted]

mutual

/-- The text of what an item becomes is that of its strings, as its element adds none. -/
theorem textOfItems_of_convertItem (item : Item) {holder : Holder} {next next' : Ident}
    {c : Converted} (h : convertItem true holder item next = .ok (c, next')) :
    textOfItems c.1 = String.join (stringsOfItem item) := by
  cases item with
  | string cls content => exact textOfItems_of_convertString h
  | tag name attributes children =>
    rw [convertItem] at h
    obtain ⟨inner, mid, hinner, h⟩ := Build.bind_eq_ok_iff.1 h
    obtain ⟨node, last, hnode, h⟩ := Build.bind_eq_ok_iff.1 h
    obtain ⟨rfl, rfl⟩ := Build.pure_eq_ok_iff.1 h
    obtain ⟨hn, htext⟩ := text_of_newElement (gathered_of_convertItems hinner) hnode
    rw [textOfItems_singleton hn, htext, stringsOfItem]
    exact textOfItems_of_convertItems children hinner

theorem textOfItems_of_convertItems (items : List Item) {holder : Holder} {next next' : Ident}
    {c : Converted} (h : convertItems true holder items next = .ok (c, next')) :
    textOfItems c.1 = String.join (stringsOfItems items) := by
  cases items with
  | nil =>
    rw [convertItems] at h
    obtain ⟨rfl, rfl⟩ := Build.pure_eq_ok_iff.1 h
    rfl
  | cons item rest =>
    rw [convertItems] at h
    obtain ⟨first, mid, hfirst, h⟩ := Build.bind_eq_ok_iff.1 h
    obtain ⟨others, last, hothers, h⟩ := Build.bind_eq_ok_iff.1 h
    obtain ⟨rfl, rfl⟩ := Build.pure_eq_ok_iff.1 h
    rw [textOfItems_append, textOfItems_of_convertItem item hfirst,
      textOfItems_of_convertItems rest hothers, stringsOfItems, String.join_append]

end

theorem text_of_convert {source : Source} {r : Record} {notices : List Notice}
    (h : source.convert true next = .ok ((r, notices), next')) :
    r.text = String.join (stringsOfItems source.items) := by
  cases source with
  | document children =>
    obtain ⟨inner, mid, hinner, h⟩ := Build.bind_eq_ok_iff.1 h
    obtain ⟨root, last, hroot, h⟩ := Build.bind_eq_ok_iff.1 h
    obtain ⟨⟨rfl, rfl⟩, rfl⟩ := Build.pure_eq_ok_iff.1 h
    rw [newRoot_of_gathered mid (gathered_of_convertItems hinner)] at hroot
    obtain ⟨rfl, rfl⟩ := Prod.mk.inj (Except.ok.inj hroot)
    rw [text_of_children rfl rfl]
    exact textOfItems_of_convertItems children hinner
  | tag name attributes children =>
    obtain ⟨inner, mid, hinner, h⟩ := Build.bind_eq_ok_iff.1 h
    obtain ⟨element, last, helement, h⟩ := Build.bind_eq_ok_iff.1 h
    obtain ⟨⟨rfl, rfl⟩, rfl⟩ := Build.pure_eq_ok_iff.1 h
    rw [(text_of_newElement (gathered_of_convertItems hinner) helement).2]
    exact textOfItems_of_convertItems children hinner

/-- The text of a well-formed tree is put together from its nodes: a leaf gives its value, a bare
node nothing, and a branch what its children give, in order. What stands at a path gives one segment
of the text, which is all that changes when another tree is put there. The text of converted markup
that keeps its blank texts is the sequence of its texts and comments, and of nothing else. -/
theorem text_compositional :
    (∀ r : Record, r.WellFormed →
      (r.isLeaf → r.get .value = .str r.text) ∧ (r.isBare → r.text = "") ∧
      (r.isBranch → r.children = r.childNodes.map .record ∧
        r.text = String.join (r.childNodes.map Record.text)) ∧
      ∀ path d, r.descendant? path = some d → ∃ front back,
        r.walk = front ++ d.walk ++ back ∧
        r.text = Record.textOf front ++ d.text ++ Record.textOf back ∧
        ∀ d' r', r.Replaced path d' r' →
          r'.text = Record.textOf front ++ d'.text ++ Record.textOf back) ∧
    ∀ (source : Source) (next next' : Ident) (r : Record) (notices : List Notice),
      source.convert true next = .ok ((r, notices), next') →
        r.text = String.join (stringsOfItems source.items) := by
  refine ⟨fun r hr => ⟨hr.get_value, Record.text_of_isBare, fun hb => ?_, fun path d hd => ?_⟩,
    fun source next next' r notices h => text_of_convert h⟩
  · exact ⟨hr.children_eq, Record.text_of_isBranch hb⟩
  · obtain ⟨front, back, hwalk, hsegment⟩ := Record.exists_text_segment hd
    refine ⟨front, back, hwalk, ?_, hsegment⟩
    rw [Record.text_eq_textOf, hwalk, Record.textOf_append, Record.textOf_append,
      ← Record.text_eq_textOf]

def commentedMarkup : Source :=
  .document [.tag (.str "p") [] [.string .text "x", .string .comment "y",
    .string .instruction "z"], .string .text "x"]

def commentedRoot (id : Ident) (p : Record) : Record :=
  rootWith id [.record p, .record (Session.loneText 3)]

/-- The comment in the paragraph is replaced by a text, by evolving the paragraph and then the
root. -/
theorem text_compositional_commentedRoot :
    let p := Session.mixedElement 2 "p" 0 1
    let q := elementWith 6 (.str "p") (.map [])
      [.record (Session.loneText 0), .record (Session.loneText 5)]
    commentedMarkup.convert true 0 =
      .ok ((commentedRoot 4 p, [.dropped "ProcessingInstruction" (.str "p")]), 5) ∧
    (commentedRoot 4 p).text = "xyx" ∧ (commentedRoot 4 p).WellFormed ∧
    (commentedRoot 4 p).descendant? [0, 1] = some (Session.loneComment 1) ∧
    (commentedRoot 4 p).Replaced [0, 1] (Session.loneText 5) (commentedRoot 7 q) ∧
    ∃ front back, (commentedRoot 4 p).walk = front ++ (Session.loneComment 1).walk ++ back ∧
      (commentedRoot 7 q).text =
        Record.textOf front ++ (Session.loneText 5).text ++ Record.textOf back := by
  intro p q
  have hconvert : commentedMarkup.convert true 0 =
      .ok ((commentedRoot 4 p, [.dropped "ProcessingInstruction" (.str "p")]), 5) := by cbv
  have hwf : (commentedRoot 4 p).WellFormed := by
    have hrecords : ∀ r ∈ commentedMarkup.outerRecords, r.Established 0 := by
      intro r hr
      cases hr
    exact (convert_established hrecords hconvert).2.node rfl
  have hinner : p.Replaced [1] (Session.loneText 5) q := by
    have hevolve : p.evolve [(.str "children", .list
        [.record (Session.loneText 0), .record (Session.loneText 5)])] 6 = .ok (q, 7) := by cbv
    exact .of_evolve (.here (Session.loneComment 1) _) rfl rfl hevolve
  have hreplaced :
      (commentedRoot 4 p).Replaced [0, 1] (Session.loneText 5) (commentedRoot 7 q) := by
    have hevolve : (commentedRoot 4 p).evolve [(.str "children", .list
        [.record q, .record (Session.loneText 3)])] 7 = .ok (commentedRoot 7 q, 8) := by cbv
    exact .of_evolve hinner rfl rfl hevolve
  obtain ⟨htrees, hmarkup⟩ := text_compositional
  obtain ⟨-, -, -, hsegments⟩ := htrees _ hwf
  obtain ⟨front, back, hwalk, -, hsegment⟩ := hsegments [0, 1] (Session.loneComment 1) rfl
  have htext : String.join (stringsOfItems commentedMarkup.items) = "xyx" := by cbv
  exact ⟨hconvert, (hmarkup _ _ _ _ _ hconvert).trans htext, hwf, rfl, hreplaced, front, back,
    hwalk, hsegment _ _ hreplaced⟩

end Convert

end DocTree
