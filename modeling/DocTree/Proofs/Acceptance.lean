import Mathlib
import DocTree.Proofs.Conclusive
import DocTree.Proofs.Spelling

/-!
Which plain data is read as a tree: exactly what the grammar of written trees holds. The fields of
one node come first, with its children already loaded; then both directions follow by recursion on
the data. Main statements: `Assembled.spellsNode`, `SpellsNode.exists_record`, `load_inGrammar` and
`Family.exists_read`.
-/
namespace DocTree

section Node

variable {form : Form} {es : Entries} {rs : List Record} {id : Ident} {r : Record}

theorem Spells.of_keys_eq {spelt : Form → Entries → Prop} {fs : Entries}
    (h : Spells spelt form es) (hkeys : fs.map Prod.fst = es.map Prod.fst)
    (hget : ∀ key, key ≠ "children" → fs.get? key = es.get? key)
    (hlist : ∀ v, fs.get? "children" = some v → ∃ xs, v = .list xs) : Spells spelt form fs := by
  have hcontains (key : String) : fs.contains key = es.contains key := by
    rw [Bool.eq_iff_iff, Entries.contains_iff, Entries.contains_iff, hkeys]
  constructor
  · intro e he
    have hmem : e.1 ∈ es.map Prod.fst := hkeys ▸ List.mem_map_of_mem he
    obtain ⟨e', he', hk⟩ := List.mem_map.1 hmem
    rw [← hk]
    exact h.keys e' he'
  · intro s hs key hk other ho hck hco
    rw [hcontains] at hck hco
    exact h.once s hs key hk other ho hck hco
  · intro s hs key hk v hv
    by_cases hc : key = "children"
    · subst hc
      rw [form.rule_of_children s hs (Field.eq_children_of_spellings hk)]
      exact .inr (hlist v hv)
    · rw [hget key hc] at hv
      exact h.values s hs key hk v hv
  · intro s hs hrequired
    obtain ⟨key, hk, hc⟩ := h.required s hs hrequired
    exact ⟨key, hk, by rwa [hcontains]⟩

theorem spells_withChildren_iff {spelt : Form → Entries → Prop} (rs : List Record)
    (hlist : ∀ v, es.get? "children" = some v → ∃ xs, v = .list xs) :
    Spells spelt form (Entries.withChildren es rs) ↔ Spells spelt form es := by
  constructor
  · intro h
    apply h.of_keys_eq Entries.map_fst_withChildren.symm _ hlist
    exact fun key hk => (Entries.get?_withChildren hk).symm
  · intro h
    apply h.of_keys_eq Entries.map_fst_withChildren (fun key hk => Entries.get?_withChildren hk)
    intro v hv
    have hcontains := Entries.contains_of_get? hv
    rw [Entries.contains_withChildren] at hcontains
    rw [Entries.get?_withChildren_children hcontains] at hv
    exact ⟨_, (Option.some.inj hv).symm⟩

theorem spells_iff_of_loaded (id : Ident) (hes : (Value.map es).isPlain) (hn : form.isNode)
    (htype : es.contains "type") (hlist : ∀ v, es.get? "children" = some v → ∃ xs, v = .list xs)
    (hgather : es.contains "children" →
      ∃ w, gatherChildren form (.list (rs.map .record)) = .ok w) :
    Spells (fun _ => SpellsPosition) form es ↔
      unknownKeys form.specs (Entries.withChildren es rs) = [] ∧ ∀ s ∈ form.specs,
        ∃ w, s.Takes form (checkPlace id) (Entries.withChildren es rs) w := by
  rw [← spells_withChildren_iff rs hlist]
  apply spells_iff
  · rw [Entries.contains_withChildren]
    exact fun _ => htype
  intro s hs key v hf
  by_cases hc : s.field = .children
  · rw [hc] at hf
    obtain ⟨hkey, hget⟩ := Field.find?_eq_some hf
    obtain rfl : key = "children" := List.mem_singleton.1 hkey
    have hcontains := Entries.contains_of_get? hget
    rw [Entries.contains_withChildren] at hcontains
    rw [Field.find?_withChildren_children hcontains] at hf
    obtain ⟨-, rfl⟩ := Prod.mk.inj (Option.some.inj hf)
    rw [form.rule_of_children s hs hc]
    exact iff_of_true (hgather hcontains) ⟨_, rfl⟩
  · rw [Field.find?_withChildren hc] at hf
    have hv := isPlain_of_find? hes hf
    by_cases hp : ∃ f, s.rule = .place f
    · obtain ⟨f, hp⟩ := hp
      obtain rfl := Form.position_of_place hs hn hp
      rw [hp, Rule.gives_place_iff, checkPlace_iff hv, Rule.Accepts]
    · exact Rule.gives_iff_accepts hv (fun f hf => hp ⟨f, hf⟩) (mt (form.field_of_rule s hs).2 hc)

theorem checkCoupled_iff_spelt {place : Form → Value → Except Violation Record}
    (hn : form.isNode) (h : ∀ s ∈ form.specs, s.Takes form place es (r.get s.field)) :
    checkCoupled form r = .ok () ↔ (form = .list → es.get? "ordered" = some (.bool true) →
      ∀ n, es.get? "start" = some (.int n) → 0 ≤ n) := by
  by_cases hlist : form = .list
  · subst hlist
    have hordered := h _ Form.ordered_mem_specs
    have hstart := h _ Form.start_mem_specs
    have hflag : es.get? "ordered" = none ∧ some (Value.bool false) = some (r.get .ordered) ∨
        es.get? "ordered" = some (r.get .ordered) := hordered.get?_eq rfl rfl
    have hnumber : es.get? "start" = none ∧ some Value.null = some (r.get .start) ∨
        es.get? "start" = some (r.get .start) := hstart.get?_eq rfl rfl
    have hstores := checkCoupled_list_iff
      (hordered.stores (fun _ => rfl) Form.ordered_mem_specs nofun)
      (hstart.stores (fun _ => rfl) Form.start_mem_specs nofun)
    have hb : r.get .ordered = .bool true ↔ es.get? "ordered" = some (.bool true) := by
      rcases hflag with ⟨hget, hv⟩ | hget
      · rw [hget, ← Option.some.inj hv]
        simp
      · rw [hget, Option.some.injEq]
    have hi (n : Int) : r.get .start = .int n ↔ es.get? "start" = some (.int n) := by
      rcases hnumber with ⟨hget, hv⟩ | hget
      · rw [hget, ← Option.some.inj hv]
        simp
      · rw [hget, Option.some.injEq]
    rw [hstores, hb]
    simp only [hi, forall_const]
  · simp [checkCoupled_of_ne (Form.ne_position_of_isNode hn) hlist, hlist]

theorem Assembled.kind_eq {place : Form → Value → Except Violation Record}
    (h : Assembled form id place es r) (hn : form.isNode) :
    ∃ kind, form.kind? = some kind ∧ r.kind = .str kind := by
  have hk := (h.takes _ (Form.kind_mem_specs hn)).stores (fun hn => (h.shape hn).1)
    (Form.kind_mem_specs hn) nofun
  exact hk.resolve_left fun hnull => nomatch hnull.1

theorem Assembled.spellsNode (hes : (Value.map es).isPlain) (hn : form.isNode)
    (htype : es.contains "type") (hlist : ∀ v, es.get? "children" = some v → ∃ xs, v = .list xs)
    (h : Assembled form id (checkPlace id) (Entries.withChildren es rs) r) :
    SpellsNode form es := by
  have hgather (hc : es.contains "children") :
      ∃ w, gatherChildren form (.list (rs.map .record)) = .ok w := by
    have hb : form.shape = .branch := (h.shape hn).2 (by rwa [Entries.contains_withChildren])
    exact ⟨_, h.gathers hb (Entries.get?_withChildren_children hc)⟩
  have hspells := spells_iff_of_loaded id hes hn htype hlist hgather
  have hcoupled := (checkCoupled_iff_spelt hn h.takes).1 h.coupled
  rw [Entries.get?_withChildren (by decide), Entries.get?_withChildren (by decide)] at hcoupled
  exact ⟨hspells.2 ⟨h.known, fun s hs => ⟨_, h.takes s hs⟩⟩, hcoupled⟩

theorem SpellsNode.exists_record (h : SpellsNode form es) (id : Ident)
    (hes : (Value.map es).isPlain)
    {kind : String} (hkind : form.kind? = some kind) (htype : es.contains "type")
    (hlist : ∀ v, es.get? "children" = some v → ∃ xs, v = .list xs)
    (hgather : es.contains "children" →
      ∃ w, gatherChildren form (.list (rs.map .record)) = .ok w) :
    ∃ r, Assembled form id (checkPlace id) (Entries.withChildren es rs) r := by
  obtain ⟨hspells, hstart⟩ := h
  have hn := Form.isNode_of_kind hkind
  have hk : form.kind?.isSome := by rw [hkind, Option.isSome_some]
  have hbranch (hc : es.contains "children") : form.shape = .branch := by
    obtain ⟨e, he, hkey⟩ := List.mem_map.1 (Entries.contains_iff.1 hc)
    obtain ⟨s, hs, key, hk, he'⟩ := hspells.keys e he
    obtain rfl : "children" = key := Value.str.inj (hkey.symm.trans he')
    exact form.branch_of_children s hs (Field.eq_children_of_spellings hk)
  obtain ⟨hknown, htakes⟩ :=
    (spells_iff_of_loaded id hes hn htype hlist hgather).1 hspells
  obtain ⟨r, hr, -⟩ := exists_assembled id
    (P := fun s w => s.Takes form (checkPlace id) (Entries.withChildren es rs) w)
    (fun _ => ⟨hk, fun hc => hbranch (by rwa [Entries.contains_withChildren] at hc)⟩) hknown
    (fun s hs => (htakes s hs).imp fun w hw => ⟨hw, hw⟩) fun r _ _ htakes => by
      rw [checkCoupled_iff_spelt hn htakes, Entries.get?_withChildren (by decide),
        Entries.get?_withChildren (by decide)]
      exact hstart
  exact ⟨r, hr⟩

end Node

section Trees

variable {forms : Registry} {name : String} {next next' : Ident}

/-- What plain data gives as children is a list, if a node can be built from it: a check refuses
everything else that is plain. -/
theorem loadEntries_cases_of_isPlain {form : Form} {es loaded : Entries} {mid id : Ident}
    {r : Record} {place : Form → Value → Except Violation Record} (hes : (Value.map es).isPlain)
    (hn : form.isNode) (hl : loadEntries forms name form es next = .ok (loaded, mid))
    (h : Assembled form id place loaded r) :
    es.get? "children" = none ∧ loaded = es ∨
      ∃ xs rs, es.get? "children" = some (.list xs) ∧ form.shape = .branch ∧
        loadItems forms name xs next = .ok (rs.map .record, mid) ∧
          loaded = Entries.withChildren es rs := by
  have hlist : ∀ w, es.get? "children" = some w → ∃ xs, w = .list xs := by
    intro w hget
    have hw : w.isPlain := (isPlain_of_mem_map hes _ (Entries.mem_of_get? hget)).2
    by_contra hno
    have hother : ∀ xs, w ≠ .list xs ∧ w ≠ .tuple xs := by
      refine fun xs => ⟨fun he => hno ⟨xs, he⟩, ?_⟩
      rintro rfl
      cases hw
    unfold loadEntries at hl
    by_cases hb : form.shape = .branch
    · rw [if_pos hb] at hl
      have hgather := h.gathers hb (get?_of_loadChildren hget hother hl)
      obtain ⟨xs, hxs, -⟩ := gatherChildren_eq_ok_iff.1 hgather
      cases w with
      | list ys => exact hno ⟨ys, rfl⟩
      | null | bool | int | float | str | map => cases hxs
      | _ => cases hw
    · rw [if_neg hb] at hl
      obtain ⟨rfl, -⟩ := Build.pure_eq_ok_iff.1 hl
      exact hb ((h.shape hn).2 (Entries.contains_of_get? hget))
  rcases loadEntries_cases hn (fun w hw => (hlist w hw).imp fun _ he => .inl he) hl h with
    ⟨hnone, hloaded, -⟩ | ⟨w, xs, rs, hget, hw, hb, hrs, hloaded⟩
  · exact .inl ⟨hnone, hloaded⟩
  · obtain ⟨ys, rfl⟩ := hlist w hget
    obtain rfl : ys = xs := by simpa using hw
    exact .inr ⟨ys, rs, hget, hb, hrs, hloaded⟩

theorem InGrammar.form_mem {form : Form} {v : Value} (h : InGrammar forms form v) :
    form ∈ forms := by
  cases h with
  | node _ hfind => exact Registry.mem_of_find? hfind
  | branch _ hfind => exact Registry.mem_of_find? hfind

def WritesForm (forms : Registry) (v : Value) (r : Record) : Prop :=
  InGrammar forms r.form v ∧ ∃ kind, r.form.kind? = some kind ∧ r.kind = .str kind

theorem loadItems_inGrammar {holder : Form} (xs : List Value) {rs : List Record}
    (hxs : ∀ x ∈ xs, x.node? = none ∧ ∀ {next next' : Ident} {r : Record},
      load forms name x next = .ok (r, next') → WritesForm forms x r)
    (hfit : ∀ r ∈ rs, Record.FitsUnder holder (.record r))
    (h : loadItems forms name xs next = .ok (rs.map .record, next')) :
    ItemsInGrammar forms holder xs := by
  induction xs generalizing rs next with
  | nil => exact .nil
  | cons x xs ih =>
    obtain ⟨⟨hnode, hx⟩, hothers⟩ := List.forall_mem_cons.1 hxs
    obtain ⟨r, mid, rest, rfl, hload, hrest⟩ := exists_of_loadItems_cons hnode h
    obtain ⟨hfirst, hfits⟩ := List.forall_mem_cons.1 hfit
    obtain ⟨hx, kind, hkind, hrk⟩ := hx hload
    have hallowed : kind ∈ holder.allowedChildren := by
      obtain ⟨c, other, hc, -, -, hck, hmem⟩ := hfirst
      obtain rfl := Value.record.inj hc
      obtain rfl := Value.str.inj (hrk.symm.trans hck)
      exact hmem
    exact .cons hx hkind hallowed (ih hothers hfits hrest)

theorem load_map_inGrammar {es : Entries} (hv : (Value.map es).isPlain) {r : Record}
    (hxs : ∀ xs, es.get? "children" = some (.list xs) → ∀ x ∈ xs, ∀ {next next' : Ident}
      {r : Record}, load forms name x next = .ok (r, next') → WritesForm forms x r)
    (h : load forms name (.map es) next = .ok (r, next')) : WritesForm forms (.map es) r := by
  obtain ⟨form, loaded, mid, hform, hl, hc⟩ := load_map_eq_ok_iff.1 h
  obtain ⟨kind, htype, hfind⟩ := Registry.formOf?_eq_some_iff.1 hform
  have hn := Form.isNode_of_kind (Registry.kind_of_find? hfind)
  have ha := checkWith_map_eq_ok_iff.1 (create_eq_ok_iff.1 hc).1
  have hcontains := Entries.contains_of_get? htype
  refine ⟨?_, ha.form_eq ▸ ha.kind_eq hn⟩
  rw [ha.form_eq]
  rcases loadEntries_cases_of_isPlain hv hn hl ha with ⟨hnone, hloaded⟩ | ⟨xs, rs, hget, hb, hrs, rfl⟩
  · have hsame : Entries.withChildren es [] = es := Entries.withChildren_of_get?_none hnone
    rw [hloaded, ← hsame] at ha
    exact .node htype hfind (ha.spellsNode hv hn hcontains (by simp [hnone])) hnone
  · have hlist : ∀ v, es.get? "children" = some v → ∃ xs, v = .list xs := by
      rw [hget]
      exact fun v hv => ⟨xs, (Option.some.inj hv).symm⟩
    have hfit : ∀ r ∈ rs, Record.FitsUnder form (.record r) := by
      have hchildren := Entries.contains_of_get? hget
      have hgathers := ha.gathers hb (Entries.get?_withChildren_children hchildren)
      obtain ⟨ys, hys, -, hfit, -⟩ := gatherChildren_eq_ok_iff.1 hgathers
      obtain rfl := Option.some.inj hys
      exact List.forall_mem_map.1 hfit
    have hplain := isPlain_of_child hv hget
    have hitems : ItemsInGrammar forms form xs := by
      apply loadItems_inGrammar xs _ hfit hrs
      exact fun x hx => ⟨node?_of_isPlain (hplain x hx), hxs xs hget x hx⟩
    exact .branch htype hfind (ha.spellsNode hv hn hcontains hlist) hget hitems

theorem sizeOf_child_lt {es : Entries} {xs : List Value} {x : Value}
    (hget : es.get? "children" = some (.list xs)) (hx : x ∈ xs) :
    sizeOf x < sizeOf (Value.map es) := by
  have hitems := sizeOf_items_lt (Entries.mem_of_get? hget) (.inl rfl)
  have hitem := List.sizeOf_lt_of_mem hx
  rw [Value.map.sizeOf_spec]
  omega

/-- Plain data from which a node is read is in the grammar. -/
theorem load_inGrammar {v : Value} (hv : v.isPlain) {r : Record}
    (h : load forms name v next = .ok (r, next')) : WritesForm forms v r := by
  induction hsize : sizeOf v using Nat.strongRecOn generalizing v next next' r with
  | ind size ih =>
    cases v with
    | map es =>
      refine load_map_inGrammar hv (fun xs hget x hx _ _ _ hload => ?_) h
      have hplain : x.isPlain := isPlain_of_child hv hget x hx
      have hlt : sizeOf x < size := hsize ▸ sizeOf_child_lt hget hx
      exact ih _ hlt hplain hload rfl
    | _ => cases h

end Trees

namespace Family

variable {family : Family} {form : Form} {next mid : Ident}

theorem family_of_mem_registry (family : Family) : ∀ f ∈ family.registry, f.family = family := by
  cases family <;> decide

/-- A new node of the form is read from the value. -/
structure Reads (family : Family) (form : Form) (v : Value) (next : Ident) (r : Record)
    (next' : Ident) : Prop where
  decoded : family.decode v next = .ok (r, next')
  form_eq : r.form = form
  kind_eq : ∃ kind, form.kind? = some kind ∧ r.kind = .str kind
  fresh : Fresh next next' [r]
  walkable : r.Walkable

theorem Reads.fitsUnder {holder : Form} {v : Value} {r : Record} {next' : Ident} {kind : String}
    (h : family.Reads form v next r next') (hkind : form.kind? = some kind)
    (hallowed : kind ∈ holder.allowedChildren) (hfamily : form.family = holder.family) :
    Record.FitsUnder holder (.record r) := by
  obtain ⟨other, hother, hrk⟩ := h.kind_eq
  obtain rfl := Option.some.inj (hkind.symm.trans hother)
  have hf := h.form_eq
  exact ⟨r, kind, rfl, hf ▸ Form.isNode_of_kind hkind, hf ▸ hfamily, hrk, hallowed⟩

theorem reads_of_assembled {es : Entries} {rs : List Record} {r : Record}
    (hform : family.registry.formOf? es = some form)
    (hloaded : loadEntries family.registry family.name form es next =
      .ok (Entries.withChildren es rs, mid))
    (h : Assembled form mid (checkPlace mid) (Entries.withChildren es rs) r)
    (hfresh : Fresh next mid r.childNodes) (hwalk : ∀ c ∈ r.childNodes, c.Walkable) :
    family.Reads form (.map es) next r (mid + 1) := by
  obtain ⟨kind, -, hfind⟩ := Registry.formOf?_eq_some_iff.1 hform
  constructor
  · have hcreated : create form (.map (Entries.withChildren es rs)) mid = .ok (r, mid + 1) :=
      create_eq_ok_iff.2 ⟨checkWith_map_eq_ok_iff.2 h, rfl⟩
    exact load_map_eq_ok_iff.2 ⟨form, _, mid, hform, hloaded, hcreated⟩
  · exact h.form_eq
  · exact h.kind_eq (Form.isNode_of_kind (Registry.kind_of_find? hfind))
  · exact Fresh.node h.ident hfresh
  · exact h.walkable hwalk

theorem exists_read_items {holder : Form} (hholder : holder.family = family) (xs : List Value)
    (hxs : ∀ x ∈ xs, x.node? = none ∧ ∀ form, InGrammar family.registry form x →
      ∀ next, ∃ r next', family.Reads form x next r next')
    (h : ItemsInGrammar family.registry holder xs) (next : Ident) :
    ∃ rs next', loadItems family.registry family.name xs next = .ok (rs.map .record, next') ∧
      Fresh next next' rs ∧ ∀ r ∈ rs, Record.FitsUnder holder (.record r) ∧ r.Walkable := by
  induction xs generalizing next with
  | nil => exact ⟨[], next, by rw [loadItems]; rfl, Fresh.nil, by simp⟩
  | cons x xs ih =>
    obtain ⟨⟨hnode, hx⟩, hothers⟩ := List.forall_mem_cons.1 hxs
    cases h with
    | @cons _ form kind _ _ hgrammar hkind hallowed hrest =>
      obtain ⟨r, mid, hr⟩ := hx form hgrammar next
      obtain ⟨rs, last, hrs, hfresh, hall⟩ := ih hothers hrest mid
      have hitem : loadItem family.registry family.name x next = .ok (r, mid) :=
        loadItem_eq_ok_iff.2 (.inr ⟨hnode, hr.decoded⟩)
      have hfamily : form.family = holder.family :=
        (family.family_of_mem_registry form hgrammar.form_mem).trans hholder.symm
      refine ⟨r :: rs, last, ?_, hr.fresh.cons hfresh, ?_⟩
      · exact loadItems_cons_eq_ok_iff.2 ⟨r, mid, _, hitem, hrs, rfl⟩
      · exact List.forall_mem_cons.2
          ⟨⟨hr.fitsUnder hkind hallowed hfamily, hr.walkable⟩, hall⟩

theorem exists_read_childless {es : Entries} {kind : String} (hv : (Value.map es).isPlain)
    (htype : es.get? "type" = some (.str kind)) (hfind : family.registry.find? kind = some form)
    (hspells : SpellsNode form es) (hnone : es.get? "children" = none) (next : Ident) :
    ∃ r next', family.Reads form (.map es) next r next' := by
  have hform := Registry.formOf?_eq_some_iff.2 ⟨kind, htype, hfind⟩
  have hempty : Entries.withChildren es [] = es := Entries.withChildren_of_get?_none hnone
  have hgather (hc : es.contains "children") :
      ∃ w, gatherChildren form (.list (([] : List Record).map .record)) = .ok w := by
    simp [Entries.contains, hnone] at hc
  obtain ⟨r, hr⟩ := hspells.exists_record next hv (Registry.kind_of_find? hfind)
    (Entries.contains_of_get? htype) (by simp [hnone]) hgather
  have hnodes : r.childNodes = [] := by
    rw [List.eq_nil_iff_forall_not_mem]
    intro c hc
    obtain ⟨v, hget, -⟩ := hr.children.2.2 c hc
    rw [hempty, hnone] at hget
    cases hget
  have hloaded : loadEntries family.registry family.name form es next =
      .ok (Entries.withChildren es [], next) := by
    rw [loadEntries, loadChildren_of_get?_none hnone, ite_self, hempty]
    rfl
  exact ⟨r, next + 1, reads_of_assembled hform hloaded hr (hnodes ▸ Fresh.nil) (by simp [hnodes])⟩

theorem exists_read_branch {es : Entries} {kind : String} {xs : List Value}
    (hv : (Value.map es).isPlain) (htype : es.get? "type" = some (.str kind))
    (hfind : family.registry.find? kind = some form) (hspells : SpellsNode form es)
    (hget : es.get? "children" = some (.list xs))
    (hitems : ItemsInGrammar family.registry form xs)
    (hxs : ∀ x ∈ xs, ∀ form, InGrammar family.registry form x →
      ∀ next, ∃ r next', family.Reads form x next r next') (next : Ident) :
    ∃ r next', family.Reads form (.map es) next r next' := by
  have hform := Registry.formOf?_eq_some_iff.2 ⟨kind, htype, hfind⟩
  have hkind := Registry.kind_of_find? hfind
  have hplain := isPlain_of_child hv hget
  have hcontains := Entries.contains_of_get? hget
  have hfamily := family.family_of_mem_registry form (Registry.mem_of_find? hfind)
  obtain ⟨rs, mid, hrs, hfresh, hall⟩ := exists_read_items hfamily xs
    (fun x hx => ⟨node?_of_isPlain (hplain x hx), hxs x hx⟩) hitems next
  obtain ⟨r, hr⟩ := hspells.exists_record mid hv hkind (Entries.contains_of_get? htype)
    (by simp [hget]) fun _ =>
      ⟨_, gatherChildren_of_fresh rfl hfresh (fun r hr => (hall r hr).2) fun r hr => (hall r hr).1⟩
  have hb : form.shape = .branch := by
    apply (hr.shape (Form.isNode_of_kind hkind)).2
    rwa [Entries.contains_withChildren]
  have hnodes : r.childNodes = rs :=
    hr.childNodes_eq hb (Entries.get?_withChildren_children hcontains) rfl
  have hloaded : loadEntries family.registry family.name form es next =
      .ok (Entries.withChildren es rs, mid) := by
    rw [loadEntries, if_pos hb]
    exact (loadChildren_eq_ok_iff hget (.inl rfl)).2 ⟨rs, hrs, rfl⟩
  exact ⟨r, mid + 1, reads_of_assembled hform hloaded hr (hnodes ▸ hfresh)
    (hnodes ▸ fun c hc => (hall c hc).2)⟩

/-- A node is read from plain data in the grammar. -/
theorem exists_read {v : Value} (hv : v.isPlain) (h : InGrammar family.registry form v)
    (next : Ident) : ∃ r next', family.Reads form v next r next' := by
  induction hsize : sizeOf v using Nat.strongRecOn generalizing v form next with
  | ind size ih =>
    cases v with
    | map es =>
      cases h with
      | node htype hfind hspells hnone =>
        exact exists_read_childless hv htype hfind hspells hnone next
      | branch htype hfind hspells hget hitems =>
        apply exists_read_branch hv htype hfind hspells hget hitems
        intro x hx f hgrammar mid
        have hplain : x.isPlain := isPlain_of_child hv hget x hx
        have hlt : sizeOf x < size := hsize ▸ sizeOf_child_lt hget hx
        exact ih _ hlt hplain hgrammar mid rfl
    | _ => cases h

/-- From plain data a family reads a node if and only if the data is in the grammar of the family.
All other data is refused for its structure, for a field of a node or for the order of a
position. -/
theorem decode_iff_inGrammar {v : Value} (hv : v.isPlain) (family : Family) (next : Ident) :
    ((∃ r next', family.decode v next = .ok (r, next')) ↔
      ∃ form, InGrammar family.registry form v) ∧
    ((¬ ∃ form, InGrammar family.registry form v) →
      ∃ w, family.decode v next = .error w ∧ w.faultClass ∈ [.shape, .field, .order]) := by
  have hiff : (∃ r next', family.decode v next = .ok (r, next')) ↔
      ∃ form, InGrammar family.registry form v := by
    constructor
    · rintro ⟨r, next', h⟩
      exact ⟨r.form, (load_inGrammar hv h).1⟩
    · rintro ⟨form, h⟩
      obtain ⟨r, next', hr⟩ := exists_read hv h next
      exact ⟨r, next', hr.decoded⟩
  refine ⟨hiff, fun hnot => ?_⟩
  cases hd : family.decode v next with
  | ok p => exact absurd (hiff.1 ⟨p.1, p.2, hd⟩) hnot
  | error w =>
    have hsettled : v.Settled next := by simp [Value.Settled, outerRecords_of_isPlain hv]
    have hconclusive : Conclusive (family.decode v next) := load_conclusive v hsettled
    exact ⟨w, rfl, Violation.ne_breakdown_iff.1 fun cause he => hconclusive cause (he ▸ hd)⟩

def countedList : Value :=
  .map [(.str "type", .str "list"), (.str "ordered", .bool true), (.str "start", .int 2),
    (.str "children", .list [.map [(.str "type", .str "listItem"), (.str "checked", .null),
      (.str "position", .map [
        (.str "start", .map [(.str "line", .int 1), (.str "column", .int 1)]),
        (.str "end", .map [(.str "line", .int 1), (.str "column", .int 4)])])]])]

theorem decode_iff_inGrammar_countedList :
    countedList.isPlain ∧ (∃ form, InGrammar Family.mdast.registry form countedList) ∧
      ¬ ∃ form, InGrammar Family.hast.registry form countedList := by
  have hplain : countedList.isPlain := by cbv
  have hread : (Family.mdast.decode countedList 0).isOk := by cbv
  have hrefused : (Family.hast.decode countedList 0).isOk = false := by cbv
  refine ⟨hplain, (decode_iff_inGrammar hplain .mdast 0).1.1 ?_, ?_⟩
  · cases hd : Family.mdast.decode countedList 0 with
    | ok p => exact ⟨p.1, p.2, rfl⟩
    | error w => simp [hd, Except.isOk, Except.toBool] at hread
  · rw [← (decode_iff_inGrammar hplain .hast 0).1]
    rintro ⟨r, next', hd⟩
    simp [hd, Except.isOk, Except.toBool] at hrefused

end Family

end DocTree
