import DocTree.Markup.Outline
import DocTree.Proofs.Building
import DocTree.Proofs.Nesting

/-!
Conversion of markup loses, invents and reorders nothing. Item by item, what is converted is new,
may stand under its holder and has the outline that the markup leaves; so the node around it can be
built, and no markup is refused. Main statements: `convertItems_kept`, `WellFormed.walk_outline` and
`Source.convert_outline`.
-/
namespace DocTree

namespace Markup

def RegularAttributes (attributes : Entries) : Prop :=
  ∀ e ∈ attributes, (∃ name, e.1 = .str name) ∧
    ((∃ s, e.2 = .str s) ∨ ∃ texts : List String, e.2 = .list (texts.map .str))

mutual

/-- Markup as it is parsed: every tag has a name that is not empty, and regular attributes. -/
def Item.IsRegular : Item → Prop
  | .tag name attributes children =>
    (∃ s, name = .str s ∧ s ≠ "") ∧ RegularAttributes attributes ∧ AreRegular children
  | .string _ _ => True

def AreRegular : List Item → Prop
  | [] => True
  | item :: rest => item.IsRegular ∧ AreRegular rest

end

namespace Source

def IsRegular : Source → Prop
  | document children => AreRegular children
  | tag name attributes children => (Item.tag name attributes children).IsRegular

def holder : Source → Holder
  | document _ => .document
  | tag name _ _ => .tag name

def items : Source → List Item
  | document children | tag _ _ children => children

/-- The outline of what the source keeps below its top. -/
def outline (keepBlank : Bool) (source : Source) : List Outline :=
  outlineItems keepBlank source.holder source.items

def notices (source : Source) : List Notice :=
  noticesOfItems source.holder source.items

/-- What the top of the source becomes: a root, or an element with the tag's name and attributes. -/
def Heads : Source → Record → Prop
  | document _, r => r.form = .hastRoot
  | tag name attributes _, r =>
    r.form = .element ∧ r.get .tagName = name ∧ r.get .properties = .map attributes

end Source

mutual

def Outline.preorder : Outline → List Outline
  | .element name attributes children =>
    .element name attributes children :: preorderForest children
  | o => [o]

def preorderForest : List Outline → List Outline
  | [] => []
  | o :: rest => o.preorder ++ preorderForest rest

end

theorem preorderForest_eq (os : List Outline) : preorderForest os = os.flatMap Outline.preorder := by
  induction os with
  | nil => rw [preorderForest, List.flatMap_nil]
  | cons o os ih => rw [preorderForest, List.flatMap_cons, ih]

def Holder.form : Holder → Form
  | document => .hastRoot
  | tag _ => .element

end Markup

open Markup

section Nodes

variable {id next : Ident} {name : String} {attributes : Entries} {rs : List Record}

theorem newLeaf_eq {form : Form} (hf : form = .hastText ∨ form = .comment) (content : String)
    (next : Ident) : newLeaf form content next = .ok (⟨next, form, [(.kind, .str form.kindText),
      (.position, .null), (.metadata, .null), (.value, .str content)]⟩, next + 1) := by
  rcases hf with rfl | rfl <;> rfl

theorem newDoctype_eq (d : Doctype) (next : Ident) :
    newDoctype d next = .ok (⟨next, .doctype, [(.kind, .str "doctype"), (.position, .null),
      (.metadata, .null), (.name, .str d.name), (.publicId, optionalText d.publicId?),
      (.systemId, optionalText d.systemId?)]⟩, next + 1) := by
  obtain ⟨name, publicId?, systemId?⟩ := d
  cases publicId? <;> cases systemId? <;> rfl

def elementWith (id : Ident) (name properties : Value) (cs : List Value) : Record :=
  ⟨id, .element, [(.kind, .str "element"), (.position, .null), (.metadata, .null),
    (.children, .tuple cs), (.tagName, name), (.properties, properties)]⟩

def elementParts (name : Value) (attributes : Entries) : Except Violation (Value × Value) := do
  let properties ← gatherProperties (.map attributes)
  match (acceptText true name).under "tag_name" with
  | .ok name => .ok (name, properties)
  | .error errors => .error (.badFields .element errors)

theorem acceptText_cases (nonempty : Bool) (v : Value) :
    acceptText nonempty v = .ok v ∨ ∃ fault, acceptText nonempty v = Verdict.refuse fault := by
  cases v with
  | str s =>
    rw [acceptText]
    split
    · exact .inr ⟨_, rfl⟩
    · exact .inl rfl
  | _ => exact .inr ⟨_, rfl⟩

theorem newElement_of_gathered (name : Value) (attributes : Entries) (next : Ident)
    {cs : List Value} (hcs : gatherChildren .element (.list cs) = .ok (.tuple cs)) :
    newElement name attributes cs next = (elementParts name attributes).map fun parts =>
      (elementWith next parts.1 parts.2 cs, next + 1) := by
  rcases acceptText_cases true name with hname | ⟨fault, hname⟩ <;>
    cases hproperties : gatherProperties (.map attributes) <;>
    simp [newElement, Form.new, create, check, checkWith, assemble, checkShape, readFields,
      Form.specs, Form.isNode, Form.nodeSpecs, Form.shapeSpecs, Form.ownSpecs, Form.shape,
      Form.kind?, FieldSpec.read, FieldSpec.required, FieldSpec.optional, FieldSpec.defaulted,
      Field.find?, Field.keys, Field.alias?, Field.label, Entries.get?_cons, Entries.contains,
      Rule.accept, hname, hproperties, hcs, Except.map, bind, Except.bind, elementParts,
      elementWith, Verdict.under, Verdict.refuse, Value.isNull, unknownKeys, checkCoupled, pure,
      Except.pure]

def elementOf (id : Ident) (name : String) (attributes : Entries) (rs : List Record) : Record :=
  ⟨id, .element, [(.kind, .str "element"), (.position, .null), (.metadata, .null),
    (.children, .tuple (rs.map .record)), (.tagName, .str name), (.properties, .map attributes)]⟩

def rootWith (id : Ident) (cs : List Value) : Record :=
  ⟨id, .hastRoot, [(.kind, .str "root"), (.position, .null), (.metadata, .null),
    (.children, .tuple cs)]⟩

theorem newRoot_of_gathered (next : Ident) {cs : List Value}
    (hcs : gatherChildren .hastRoot (.list cs) = .ok (.tuple cs)) :
    Form.hastRoot.new [(.str "children", .list cs)] next = .ok (rootWith next cs, next + 1) := by
  simp [Form.new, create, check, checkWith, assemble, checkShape, readFields,
    Form.specs, Form.isNode, Form.nodeSpecs, Form.shapeSpecs, Form.ownSpecs, Form.shape,
    Form.kind?, FieldSpec.read, FieldSpec.optional, FieldSpec.defaulted,
    Field.find?, Field.keys, Field.alias?, Field.label, Entries.get?_cons, Entries.contains,
    Rule.accept, hcs, Except.map, bind, Except.bind, Verdict.under,
    Value.isNull, unknownKeys, checkCoupled, pure, Except.pure, rootWith]

def rootOf (id : Ident) (rs : List Record) : Record :=
  ⟨id, .hastRoot, [(.kind, .str "root"), (.position, .null), (.metadata, .null),
    (.children, .tuple (rs.map .record))]⟩

theorem Markup.RegularAttributes.gathered (h : RegularAttributes attributes) :
    gatherProperties (.map attributes) = .ok (.map attributes) := by
  apply gatherProperties_of_isProperty
  intro e he
  obtain ⟨hname, hvalue⟩ := h e he
  refine ⟨hname, ?_⟩
  rcases hvalue with ⟨s, hs⟩ | ⟨texts, htexts⟩
  · rw [hs]
    exact .str s
  · rw [htexts]
    refine .list fun x hx => .inr (.inr ?_)
    obtain ⟨s, -, rfl⟩ := List.mem_map.1 hx
    exact ⟨s, rfl⟩

theorem newElement_eq (hname : name ≠ "") (hattributes : RegularAttributes attributes)
    (hrs : gatherChildren .element (.list (rs.map .record)) = .ok (.tuple (rs.map .record))) :
    newElement (.str name) attributes (rs.map .record) next =
      .ok (elementOf next name attributes rs, next + 1) := by
  have haccept : acceptText true (.str name) = .ok (.str name) := by
    simp [acceptText, hname]
  have hparts : elementParts (.str name) attributes = .ok (.str name, .map attributes) := by
    rw [elementParts, hattributes.gathered, haccept]
    rfl
  rw [newElement_of_gathered _ _ _ hrs, hparts]
  rfl

theorem newRoot_eq
    (hrs : gatherChildren .hastRoot (.list (rs.map .record)) = .ok (.tuple (rs.map .record))) :
    Form.hastRoot.new [(.str "children", .list (rs.map .record))] next =
      .ok (rootOf next rs, next + 1) :=
  newRoot_of_gathered next hrs

theorem fitsUnder_holder {r : Record} {kind : String} (holder : Holder) (hn : r.form.isNode)
    (hf : r.form.family = .hast) (hk : r.kind = .str kind)
    (hkind : kind ∈ Form.element.allowedChildren) :
    Record.FitsUnder holder.form (.record r) := by
  have hfamily : holder.form.family = .hast := by cases holder <;> rfl
  have hsub : Form.element.allowedChildren ⊆ holder.form.allowedChildren := by
    cases holder with
    | document => exact (by decide : Form.element.allowedChildren ⊆ Form.hastRoot.allowedChildren)
    | tag => exact List.Subset.refl _
  exact ⟨r, kind, rfl, hn, hf.trans hfamily.symm, hk, hsub hkind⟩

theorem outlineChildren_map (rs : List Record) :
    outlineChildren (rs.map .record) = rs.map Record.outline := by
  induction rs with
  | nil => rw [List.map_nil, outlineChildren, List.map_nil]
  | cons r rs ih => rw [List.map_cons, outlineChildren, ih, List.map_cons]

theorem outline_elementOf (id : Ident) (name : String) (attributes : Entries) (rs : List Record) :
    (elementOf id name attributes rs).outline =
      .element (.str name) (.map attributes) (rs.map Record.outline) := by
  rw [elementOf, Record.outline, ← outlineChildren_map]
  rfl

end Nodes

/-- What some markup under a holder becomes: new nodes that may stand there, with the outline. -/
structure Kept (holder : Holder) (outline : List Outline) (next next' : Ident)
    (rs : List Record) : Prop where
  fresh : Fresh next next' rs
  fits : ∀ r ∈ rs, Record.FitsUnder holder.form (.record r)
  walkable : ∀ r ∈ rs, r.Walkable
  outline_eq : rs.map Record.outline = outline

namespace Kept

variable {holder : Holder} {next mid next' : Ident} {rs : List Record} {outline : List Outline}

theorem nil : Kept holder [] next next [] :=
  ⟨Fresh.nil, by simp, by simp, rfl⟩

theorem single {r : Record} (hfresh : Fresh next next' [r])
    (hfits : Record.FitsUnder holder.form (.record r)) (hwalk : r.Walkable) :
    Kept holder [r.outline] next next' [r] :=
  ⟨hfresh, by simpa using hfits, by simpa using hwalk, rfl⟩

theorem append {rs' : List Record} {outline' : List Outline}
    (h : Kept holder outline next mid rs) (h' : Kept holder outline' mid next' rs') :
    Kept holder (outline ++ outline') next next' (rs ++ rs') := by
  refine ⟨h.fresh.append h'.fresh, ?_, ?_, ?_⟩
  · rw [List.forall_mem_append]
    exact ⟨h.fits, h'.fits⟩
  · rw [List.forall_mem_append]
    exact ⟨h.walkable, h'.walkable⟩
  · rw [List.map_append, h.outline_eq, h'.outline_eq]

theorem gathered (h : Kept holder outline next next' rs) :
    gatherChildren holder.form (.list (rs.map .record)) = .ok (.tuple (rs.map .record)) :=
  gatherChildren_of_fresh rfl h.fresh h.walkable h.fits

theorem isNode (h : Kept holder outline next next' rs) : ∀ r ∈ rs, r.form.isNode := by
  intro r hr
  obtain ⟨r', kind, he, hn, -⟩ := h.fits r hr
  rwa [Value.record.inj he]

theorem around {name : Value} (h : Kept (.tag name) outline next mid rs) (outer : Holder)
    (stored properties : Value) :
    Kept outer [(elementWith mid stored properties (rs.map .record)).outline] next (mid + 1)
      [elementWith mid stored properties (rs.map .record)] := by
  have hnodes : (elementWith mid stored properties (rs.map .record)).childNodes = rs :=
    filterMap_node?_map h.isNode
  have hbelow : Fresh next mid (elementWith mid stored properties (rs.map .record)).childNodes := by
    rw [hnodes]
    exact h.fresh
  exact single (Fresh.node rfl hbelow)
    (fitsUnder_holder outer rfl rfl rfl (by decide : "element" ∈ Form.element.allowedChildren))
    (.of_children (fun _ => by rw [hnodes]; rfl) (by rw [hnodes]; exact h.walkable))

theorem elementOf_single {name : String} {attributes : Entries} {outer : Holder}
    (h : Kept (.tag (.str name)) outline next mid rs) :
    Kept outer [.element (.str name) (.map attributes) outline] next (mid + 1)
      [elementOf mid name attributes rs] := by
  have hkept := h.around outer (.str name) (.map attributes)
  rwa [show elementWith mid (.str name) (.map attributes) (rs.map .record) =
    elementOf mid name attributes rs from rfl, outline_elementOf, h.outline_eq] at hkept

end Kept

section Convert

variable {holder : Holder} {next : Ident}

theorem exists_kept_of_new {new : Build Record} {r : Record}
    (hnew : new next = .ok (r, next + 1)) (hid : r.id = next) (hleaf : ¬ r.isBranch)
    (hfits : Record.FitsUnder holder.form (.record r)) :
    ∃ rs next', (do let node ← new; return ([.record node], []) : Build Converted) next =
        .ok ((rs.map .record, []), next') ∧ Kept holder [r.outline] next next' rs := by
  have hnodes : r.childNodes = [] := by simp [Record.childNodes, Record.children, hleaf]
  have hfresh : Fresh next (next + 1) [r] := Fresh.node hid (hnodes ▸ Fresh.nil)
  have hwalk : r.Walkable := .of_children (fun hb => absurd hb hleaf) (by simp [hnodes])
  refine ⟨[r], next + 1, Build.bind_eq_ok_iff.2 ⟨r, next + 1, hnew, rfl⟩, ?_⟩
  exact .single hfresh hfits hwalk

theorem convertString_eq (keepBlank : Bool) {cls : StringClass} (content : String)
    (hcomment : cls ≠ .comment)
    (hdoctype : ¬ (cls = .doctype ∧ holder = .document)) :
    convertString keepBlank holder cls content =
        (if cls.isPreformatted then pure ([], [.dropped cls.name holder.name])
        else if keepBlank || !Text.isBlankText content then do
          let node ← newLeaf .hastText content
          return ([.record node], [])
        else pure ([], [])) ∧
      outlineString keepBlank holder cls content =
        (if cls.isPreformatted || !keepBlank && Text.isBlankText content then []
        else [.text (.str content)]) ∧
      noticesOfItem holder (.string cls content) =
        if cls.isPreformatted then [.dropped cls.name holder.name] else [] := by
  cases cls with
  | comment => exact absurd rfl hcomment
  | doctype =>
    cases holder with
    | document => exact absurd ⟨rfl, rfl⟩ hdoctype
    | tag => exact ⟨rfl, rfl, rfl⟩
  | _ => exact ⟨rfl, rfl, rfl⟩

theorem convertString_kept (keepBlank : Bool) (holder : Holder) (cls : StringClass)
    (content : String) (next : Ident) : ∃ rs next', convertString keepBlank holder cls content next =
        .ok ((rs.map .record, noticesOfItem holder (.string cls content)), next') ∧
      Kept holder (outlineString keepBlank holder cls content) next next' rs := by
  by_cases hdoctype : cls = .doctype ∧ holder = .document
  · obtain ⟨rfl, rfl⟩ := hdoctype
    exact exists_kept_of_new (newDoctype_eq (Doctype.read content) next) rfl Bool.false_ne_true
      ⟨_, "doctype", rfl, rfl, rfl, rfl, by decide⟩
  by_cases hcomment : cls = .comment
  · subst hcomment
    exact exists_kept_of_new (newLeaf_eq (.inr rfl) content next) rfl Bool.false_ne_true
      (fitsUnder_holder holder rfl rfl rfl (by decide : "comment" ∈ Form.element.allowedChildren))
  obtain ⟨hconvert, houtline, hnotices⟩ := convertString_eq keepBlank content hcomment hdoctype
  rw [hconvert, houtline, hnotices]
  by_cases hpreformatted : cls.isPreformatted
  · simp only [hpreformatted, Bool.true_or, if_true]
    exact ⟨[], next, rfl, .nil⟩
  have hkeep : (keepBlank || !Text.isBlankText content) =
      !(!keepBlank && Text.isBlankText content) := by
    cases keepBlank <;> rfl
  rw [hkeep]
  cases !keepBlank && Text.isBlankText content with
  | true =>
    simp only [hpreformatted, Bool.not_true, Bool.or_true, Bool.false_eq_true, if_true, if_false]
    exact ⟨[], next, rfl, .nil⟩
  | false =>
    simp only [hpreformatted, Bool.not_false, Bool.or_false, Bool.false_eq_true, if_true, if_false]
    exact exists_kept_of_new (newLeaf_eq (.inl rfl) content next) rfl Bool.false_ne_true
      (fitsUnder_holder holder rfl rfl rfl (by decide : "text" ∈ Form.element.allowedChildren))

mutual

theorem convertItem_kept (keepBlank : Bool) (item : Item) (h : item.IsRegular)
    (holder : Holder) (next : Ident) : ∃ rs next', convertItem keepBlank holder item next =
        .ok ((rs.map .record, noticesOfItem holder item), next') ∧
      Kept holder (outlineItem keepBlank holder item) next next' rs := by
  cases item with
  | string cls content => exact convertString_kept keepBlank holder cls content next
  | tag name attributes children =>
    obtain ⟨⟨name, rfl, hname⟩, hattributes, hchildren⟩ := h
    obtain ⟨rs, mid, hrs, hkept⟩ :=
      convertItems_kept keepBlank children hchildren (.tag (.str name)) next
    have helement : newElement (.str name) attributes (rs.map .record) mid =
        .ok (elementOf mid name attributes rs, mid + 1) :=
      newElement_eq hname hattributes hkept.gathered
    refine ⟨[elementOf mid name attributes rs], mid + 1, ?_, hkept.elementOf_single⟩
    rw [convertItem, noticesOfItem]
    refine Build.bind_eq_ok_iff.2 ⟨_, mid, hrs, ?_⟩
    exact Build.bind_eq_ok_iff.2 ⟨_, mid + 1, helement, rfl⟩

theorem convertItems_kept (keepBlank : Bool) (items : List Item) (h : AreRegular items)
    (holder : Holder) (next : Ident) : ∃ rs next', convertItems keepBlank holder items next =
        .ok ((rs.map .record, noticesOfItems holder items), next') ∧
      Kept holder (outlineItems keepBlank holder items) next next' rs := by
  cases items with
  | nil =>
    rw [convertItems, noticesOfItems, outlineItems]
    exact ⟨[], next, rfl, .nil⟩
  | cons item rest =>
    obtain ⟨hitem, hrest⟩ := h
    obtain ⟨rs, mid, hrs, hkept⟩ := convertItem_kept keepBlank item hitem holder next
    obtain ⟨rs', last, hrs', hkept'⟩ := convertItems_kept keepBlank rest hrest holder mid
    refine ⟨rs ++ rs', last, ?_, ?_⟩
    · rw [convertItems, noticesOfItems, List.map_append]
      refine Build.bind_eq_ok_iff.2 ⟨_, mid, hrs, ?_⟩
      exact Build.bind_eq_ok_iff.2 ⟨_, last, hrs', rfl⟩
    · rw [outlineItems]
      exact hkept.append hkept'

end

theorem outerRecords_of_regularAttributes {attributes : Entries}
    (h : RegularAttributes attributes) : outerRecordsOfEntries attributes = [] := by
  rw [List.eq_nil_iff_forall_not_mem]
  intro q hq
  obtain ⟨e, he, hqe⟩ := mem_outerRecordsOfEntries.1 hq
  obtain ⟨⟨name, hname⟩, hvalue⟩ := h e he
  rw [hname] at hqe
  rcases hvalue with ⟨s, hs⟩ | ⟨texts, htexts⟩
  · rw [hs] at hqe
    rcases hqe with hqe | hqe <;> cases hqe
  · rw [htexts, Value.outerRecords, mem_outerRecordsOfItems] at hqe
    rcases hqe with hqe | ⟨x, hx, hqx⟩
    · cases hqe
    · obtain ⟨s, -, rfl⟩ := List.mem_map.1 hx
      cases hqx

mutual

theorem Markup.Item.outerRecords_of_isRegular (item : Item) (h : item.IsRegular) :
    item.outerRecords = [] := by
  cases item with
  | string cls content => rw [Item.outerRecords]
  | tag name attributes children =>
    obtain ⟨⟨s, rfl, -⟩, hattributes, hchildren⟩ := h
    rw [Item.outerRecords, outerRecords_of_regularAttributes hattributes,
      outerRecordsInside_of_areRegular children hchildren]
    rfl

theorem outerRecordsInside_of_areRegular (items : List Item) (h : AreRegular items) :
    outerRecordsInside items = [] := by
  cases items with
  | nil => rw [outerRecordsInside]
  | cons item rest =>
    obtain ⟨hitem, hrest⟩ := h
    rw [outerRecordsInside, item.outerRecords_of_isRegular hitem,
      outerRecordsInside_of_areRegular rest hrest, List.append_nil]

end

theorem Markup.Source.outerRecords_of_isRegular (source : Source) (h : source.IsRegular) :
    source.outerRecords = [] := by
  cases source with
  | document children => exact outerRecordsInside_of_areRegular children h
  | tag name attributes children => exact Item.outerRecords_of_isRegular _ h

end Convert

section Walk

/-- The forms that nodes below the top of a hast tree have. -/
def Form.hastContent : List Form :=
  [.element, .hastText, .comment, .doctype]

theorem Form.MayHold.mem_hastContent {a c : Form} (h : a.MayHold c) (ha : a.family = .hast) :
    c ∈ Form.hastContent := by
  have hc : c.family = .hast := h.family.trans ha
  obtain ⟨kind, hallowed, hkind⟩ := Form.hasKind_iff.1 h.allowed
  cases c with
  | hastNode => cases hkind
  | hastRoot =>
    obtain rfl := Option.some.inj hkind
    exact absurd hallowed a.not_root_of_allowed
  | element | hastText | comment | doctype => decide
  | _ => cases hc

theorem outlineFields_eq {fields : List (Field × Value)} {xs : List Value}
    (h : fields.lookup .children = some (.tuple xs)) : outlineFields fields = outlineChildren xs := by
  induction fields with
  | nil => cases h
  | cons p rest ih =>
    obtain ⟨f, v⟩ := p
    rw [List.lookup_cons] at h
    by_cases hf : f = .children
    · subst hf
      obtain rfl := Option.some.inj h
      rw [outlineFields]
    · have hne : (Field.children == f) = false := by simpa using Ne.symm hf
      rw [hne] at h
      rw [outlineFields, ih h]
      · exact fun _ hc => hf (Prod.mk.inj hc).1
      · exact fun _ hc => hf (Prod.mk.inj hc).1

namespace Record

variable {r : Record}

theorem WellFormed.outline_eq (h : r.WellFormed) (hf : r.form = .element) :
    r.outline = .element (r.get .tagName) (r.get .properties) (r.childNodes.map outline) := by
  have hsound := h.sound r (mem_preorder_iff.2 (.inl rfl))
  have hchildren := hsound.children_eq (by rw [hf]; rfl)
  have hlookup : r.fields.lookup .children = some (.tuple (r.childNodes.map .record)) := by
    rw [← h.children_eq]
    unfold get get? at hchildren
    cases hl : r.fields.lookup .children with
    | none =>
      rw [hl] at hchildren
      cases hchildren
    | some v =>
      rw [hl] at hchildren
      exact congrArg some hchildren
  have hfields := outlineFields_eq hlookup
  rw [outlineChildren_map] at hfields
  obtain ⟨id, form, fields⟩ := r
  obtain rfl : form = .element := hf
  rw [outline, hfields]
  rfl

theorem preorder_outline_of_ne (hr : r.form ∈ Form.hastContent) (hf : r.form ≠ .element) :
    r.childNodes = [] ∧ r.outline.preorder = [r.outline] := by
  obtain ⟨id, form, fields⟩ := r
  have hform : form = .hastText ∨ form = .comment ∨ form = .doctype := by
    simpa [Form.hastContent, show form ≠ .element from hf] using hr
  rcases hform with rfl | rfl | rfl <;>
    exact ⟨rfl, by simp [outline, Outline.preorder]⟩

/-- Induction on the tree: the outlines in the outline of a node are those of the nodes from it
down, in document order. -/
theorem WellFormed.map_outline_preorder {r : Record} (h : r.WellFormed)
    (hr : r.form ∈ Form.hastContent) : r.preorder.map outline = r.outline.preorder := by
  have hfamily : r.form.family = .hast :=
    (by decide : ∀ f ∈ Form.hastContent, f.family = .hast) _ hr
  by_cases hf : r.form = .element
  · have hchildren : ∀ c ∈ r.childNodes, c.preorder.map outline = c.outline.preorder := by
      intro c hc
      exact (h.childNode hc).map_outline_preorder ((h.mayHold hc).mem_hastContent hfamily)
    have hbelow : (r.childNodes.flatMap preorder).map outline =
        (r.childNodes.map outline).flatMap Outline.preorder := by
      rw [List.map_flatMap, List.flatMap_map]
      exact List.flatMap_congr hchildren
    rw [preorder_eq, List.map_cons, hbelow, h.outline_eq hf, Outline.preorder, preorderForest_eq]
  · obtain ⟨hnodes, hone⟩ := preorder_outline_of_ne hr hf
    rw [preorder_eq, hnodes, hone]
    rfl
termination_by r.count
decreasing_by exact count_lt_of_mem_childNodes hc

theorem WellFormed.mem_hastContent (h : r.WellFormed) (hr : r.form.family = .hast) {d : Record}
    (hd : r.Above d) : d.form ∈ Form.hastContent := by
  have hbelow : d.form.family = .hast ∧ d.form ∈ Form.hastContent := by
    refine h.below (P := fun f => f.family = .hast ∧ f ∈ Form.hastContent) ?_ ?_ hd
    · exact fun f hf => ⟨hf.family.trans hr, hf.mem_hastContent hr⟩
    · exact fun f g hf hg => ⟨hg.family.trans hf.1, hg.mem_hastContent hf.1⟩
  exact hbelow.2

/-- Below the top of a hast tree, the walk meets the nodes in the order of their outlines. -/
theorem WellFormed.walk_outline (h : r.WellFormed) (hr : r.form.family = .hast) :
    (∀ n ∈ r.walk.tail, n.form ∈ Form.hastContent) ∧
      r.walk.tail.map outline = (outlineChildren r.children).flatMap Outline.preorder := by
  have hwalk : r.walk.tail = r.childNodes.flatMap preorder := by
    rw [walk_eq_preorder, preorder_eq, List.tail_cons]
  constructor
  · intro n hn
    rw [hwalk] at hn
    obtain ⟨c, hc, hnc⟩ := List.mem_flatMap.1 hn
    rcases mem_preorder_iff.1 hnc with rfl | hcn
    · exact h.mem_hastContent hr (.child hc)
    · exact h.mem_hastContent hr (.deeper hc hcn)
  · have hchildren : ∀ c ∈ r.childNodes, c.preorder.map outline = c.outline.preorder := by
      intro c hc
      exact (h.childNode hc).map_outline_preorder ((h.mayHold hc).mem_hastContent hr)
    rw [hwalk, h.children_eq, outlineChildren_map, List.map_flatMap, List.flatMap_map]
    exact List.flatMap_congr hchildren

end Record

end Walk

namespace Markup.Source

theorem exists_converted (keepBlank : Bool) {source : Source} (h : source.IsRegular)
    (next : Ident) : ∃ (r : Record) (rs : List Record) (next' : Ident), source.convert keepBlank next =
        .ok ((r, source.notices), next') ∧ source.Heads r ∧ r.children = rs.map .record ∧
      rs.map Record.outline = source.outline keepBlank := by
  cases source with
  | document children =>
    obtain ⟨rs, mid, hrs, hkept⟩ := convertItems_kept keepBlank children h .document next
    have hroot : Form.hastRoot.new [(.str "children", .list (rs.map .record))] mid =
        .ok (rootOf mid rs, mid + 1) := newRoot_eq hkept.gathered
    refine ⟨rootOf mid rs, rs, mid + 1, ?_, rfl, rfl, hkept.outline_eq⟩
    refine Build.bind_eq_ok_iff.2 ⟨_, mid, hrs, ?_⟩
    exact Build.bind_eq_ok_iff.2 ⟨_, mid + 1, hroot, rfl⟩
  | tag name attributes children =>
    obtain ⟨⟨name, rfl, hname⟩, hattributes, hchildren⟩ := h
    obtain ⟨rs, mid, hrs, hkept⟩ :=
      convertItems_kept keepBlank children hchildren (.tag (.str name)) next
    have helement : newElement (.str name) attributes (rs.map .record) mid =
        .ok (elementOf mid name attributes rs, mid + 1) :=
      newElement_eq hname hattributes hkept.gathered
    refine ⟨elementOf mid name attributes rs, rs, mid + 1, ?_, ⟨rfl, rfl, rfl⟩, rfl,
      hkept.outline_eq⟩
    refine Build.bind_eq_ok_iff.2 ⟨_, mid, hrs, ?_⟩
    exact Build.bind_eq_ok_iff.2 ⟨_, mid + 1, helement, rfl⟩

/-- All regular markup is converted, to a well-formed tree whose top is the root for a document or
the element for a tag. Below the top, the tree is what the outline of the markup says, node by node,
and the walk meets the nodes in the order in which the markup has what they are made of; what is
left out is reported, once each and in order. -/
theorem convert_outline (keepBlank : Bool) {source : Source} (h : source.IsRegular)
    (next : Ident) : ∃ r next',
      source.convert keepBlank next = .ok ((r, source.notices), next') ∧
        r.WellFormed ∧ source.Heads r ∧ (∀ n ∈ r.walk.tail, n.form ∈ Form.hastContent) ∧
          outlineChildren r.children = source.outline keepBlank ∧
            r.walk.tail.map Record.outline =
              (source.outline keepBlank).flatMap Outline.preorder := by
  obtain ⟨r, rs, next', hconvert, hhead, hchildren, houtline⟩ := exists_converted keepBlank h next
  have hrecords : ∀ q ∈ source.outerRecords, q.Established next := by
    simp [source.outerRecords_of_isRegular h]
  have hform : r.form.isNode ∧ r.form.family = .hast := by
    cases source with
    | document children => rw [show r.form = .hastRoot from hhead]; exact ⟨rfl, rfl⟩
    | tag name attributes children => rw [show r.form = .element from hhead.1]; exact ⟨rfl, rfl⟩
  have hwf : r.WellFormed := (convert_established hrecords hconvert).2.node hform.1
  have hbelow : outlineChildren r.children = source.outline keepBlank := by
    rw [hchildren, outlineChildren_map, houtline]
  obtain ⟨hforms, hwalk⟩ := hwf.walk_outline hform.2
  rw [hbelow] at hwalk
  exact ⟨r, next', hconvert, hwf, hhead, hforms, hbelow, hwalk⟩

def mixedDocument : Source :=
  .document [.string .doctype "html", .string .text " ", .string .comment "c",
    .tag (.str "p") [(.str "class", .list [.str "a", .str "b"])]
      [.string .doctype "html", .string .text "x", .string .instruction "php"]]

theorem convert_outline_mixedDocument :
    mixedDocument.IsRegular ∧ ∃ r next', mixedDocument.convert false 0 = .ok ((r,
        [.dropped "Doctype" (.str "p"), .dropped "ProcessingInstruction" (.str "p")]), next') ∧
      r.WellFormed ∧ r.form = .hastRoot ∧ r.walk.tail.map Record.outline =
        [.doctype (.str "html") .null .null, .comment (.str "c"),
          .element (.str "p") (.map [(.str "class", .list [.str "a", .str "b"])])
            [.text (.str "x")], .text (.str "x")] := by
  have hregular : mixedDocument.IsRegular := by
    have hattributes : RegularAttributes [(.str "class", .list [.str "a", .str "b"])] := by
      simp only [RegularAttributes, List.forall_mem_singleton]
      exact ⟨⟨"class", rfl⟩, .inr ⟨["a", "b"], rfl⟩⟩
    exact ⟨trivial, trivial, trivial, ⟨⟨"p", rfl, by decide⟩, hattributes, trivial, trivial,
      trivial, trivial⟩, trivial⟩
  obtain ⟨r, next', hconvert, hwf, hhead, -, -, hwalk⟩ := convert_outline false hregular 0
  have hnotices : mixedDocument.notices =
      [.dropped "Doctype" (.str "p"), .dropped "ProcessingInstruction" (.str "p")] := by
    cbv
  have hpreorder : (mixedDocument.outline false).flatMap Outline.preorder =
      [.doctype (.str "html") .null .null, .comment (.str "c"),
        .element (.str "p") (.map [(.str "class", .list [.str "a", .str "b"])])
          [.text (.str "x")], .text (.str "x")] := by
    cbv
  exact ⟨hregular, r, next', hnotices ▸ hconvert, hwf, hhead, hwalk.trans hpreorder⟩

end Markup.Source

end DocTree
