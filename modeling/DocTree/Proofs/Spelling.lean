import DocTree.Grammar
import DocTree.Proofs.Building

/-!
The grammar of entries against the check of entries. Entries spell the fields of a form exactly
when every field can be taken from them and no key is left over; a point is spelt when it is
accepted, and so is a position. Main statements: `spells_iff`, `checkPoint_iff` and
`checkPlace_iff`.
-/
namespace DocTree

section Keys

variable {es : Entries} {f : Field} {key : String} {v : Value}

theorem Field.mem_keys_of_spellings (h : key ∈ f.spellings) : key ∈ f.keys := by
  cases f with
  | kind =>
    obtain rfl := List.mem_singleton.1 h
    decide
  | _ => exact h

theorem Field.mem_spellings_of_keys (h : key ∈ f.keys) (hf : f ≠ .kind) : key ∈ f.spellings := by
  cases f with
  | kind => exact absurd rfl hf
  | _ => exact h

theorem Field.mem_spellings_of_find? (htype : f = .kind → es.contains "type")
    (h : f.find? es = some (key, v)) : key ∈ f.spellings := by
  by_cases hf : f = .kind
  · subst hf
    obtain ⟨w, hw⟩ := Option.isSome_iff_exists.1 (htype rfl)
    have hfind := Field.find?_of_get?_key (f := .kind) hw
    obtain ⟨rfl, -⟩ := Prod.mk.inj (Option.some.inj (h.symm.trans hfind))
    exact List.mem_singleton.2 rfl
  · exact Field.mem_spellings_of_keys (Field.find?_eq_some h).1 hf

theorem Field.eq_children_of_spellings (h : "children" ∈ f.spellings) : f = .children := by
  by_contra hne
  exact Field.children_not_mem_keys hne (Field.mem_keys_of_spellings h)

theorem Field.find?_of_once (hk : key ∈ f.keys) (hv : es.get? key = some v)
    (honce : ∀ other ∈ f.keys, es.contains other → other = key) :
    f.find? es = some (key, v) := by
  cases hf : f.find? es with
  | none =>
    have hnone := Field.find?_eq_none_iff.1 hf key hk
    rw [hv] at hnone
    cases hnone
  | some p =>
    obtain ⟨other, w⟩ := p
    obtain ⟨hother, hw⟩ := Field.find?_eq_some hf
    obtain rfl := honce other hother (Entries.contains_of_get? hw)
    rw [hv] at hw
    rw [Option.some.inj hw]

end Keys

section Spells

variable {form : Form} {place : Form → Value → Except Violation Record}
  {spelt : Form → Entries → Prop} {es : Entries}

theorem Spells.once_keys (h : Spells spelt form es) {s : FieldSpec} (hs : s ∈ form.specs)
    {key other : String} (hk : key ∈ s.field.spellings) (ho : other ∈ s.field.keys)
    (hck : es.contains key) (hco : es.contains other) : other = key := by
  obtain ⟨e, he, hother⟩ := List.mem_map.1 (Entries.contains_iff.1 hco)
  obtain ⟨t, ht, key', hkey', he'⟩ := h.keys e he
  obtain rfl := Value.str.inj (hother.symm.trans he')
  have hfield : t.field = s.field :=
    form.field_of_key t ht s hs other (Field.mem_keys_of_spellings hkey') ho
  rw [hfield] at hkey'
  exact h.once s hs other hkey' key hk hco hck

theorem Spells.find?_eq (h : Spells spelt form es) {s : FieldSpec} (hs : s ∈ form.specs)
    {key : String} {v : Value} (hk : key ∈ s.field.spellings) (hv : es.get? key = some v) :
    s.field.find? es = some (key, v) := by
  apply Field.find?_of_once (Field.mem_keys_of_spellings hk) hv
  intro other ho hco
  exact h.once_keys hs hk ho (Entries.contains_of_get? hv) hco

theorem Spells.unknownKeys_eq (h : Spells spelt form es) : unknownKeys form.specs es = [] := by
  rw [unknownKeys_eq_nil_iff]
  intro k hk
  obtain ⟨e, he, rfl⟩ := List.mem_map.1 hk
  obtain ⟨s, hs, key, hkey, hek⟩ := h.keys e he
  obtain ⟨v, hv⟩ := Option.isSome_iff_exists.1 (Entries.contains_iff.2 (hek ▸ hk))
  exact ⟨s, hs, key, v, hek, h.find?_eq hs hkey hv⟩

theorem Spells.exists_takes (h : Spells spelt form es) {s : FieldSpec} (hs : s ∈ form.specs)
    (hspelling : ∀ key v, s.field.find? es = some (key, v) → key ∈ s.field.spellings)
    (hgives : ∀ key v, s.field.find? es = some (key, v) → s.rule.Accepts form spelt v →
      ∃ w, s.rule.Gives form place v w) : ∃ w, s.Takes form place es w := by
  cases hf : s.field.find? es with
  | none =>
    have hne : s.default? ≠ none := by
      intro hnone
      have hrequired : s.isRequired := by rw [FieldSpec.isRequired, hnone, Option.isNone_none]
      obtain ⟨key, hkey, hc⟩ := h.required s hs hrequired
      obtain ⟨v, hv⟩ := Option.isSome_iff_exists.1 hc
      cases hf.symm.trans (h.find?_eq hs hkey hv)
    obtain ⟨v, hv⟩ := Option.ne_none_iff_exists'.1 hne
    exact ⟨v, .default hf hv⟩
  | some p =>
    obtain ⟨key, v⟩ := p
    by_cases hnull : s.nullable ∧ v = .null
    · obtain ⟨hn, rfl⟩ := hnull
      exact ⟨.null, .null hf hn⟩
    · have hv := h.values s hs key (hspelling key v hf) v (Field.find?_eq_some hf).2
      obtain ⟨w, hw⟩ := hgives key v hf (hv.resolve_left hnull)
      exact ⟨w, .given hf hnull hw⟩

theorem exists_find?_of_known (hknown : unknownKeys form.specs es = []) {s : FieldSpec}
    (hs : s ∈ form.specs) {key : String} (hk : key ∈ s.field.keys) (hc : es.contains key) :
    ∃ v, s.field.find? es = some (key, v) := by
  rw [unknownKeys_eq_nil_iff] at hknown
  obtain ⟨t, ht, key', v, he, hf⟩ := hknown _ (Entries.contains_iff.1 hc)
  obtain rfl := Value.str.inj he
  have hfield : t.field = s.field :=
    form.field_of_key t ht s hs key (Field.find?_eq_some hf).1 hk
  exact ⟨v, hfield ▸ hf⟩

theorem spells_of_takes (hknown : unknownKeys form.specs es = [])
    (htakes : ∀ s ∈ form.specs, ∃ w, s.Takes form place es w)
    (hspelling : ∀ s ∈ form.specs, ∀ key v, s.field.find? es = some (key, v) →
      key ∈ s.field.spellings)
    (haccepts : ∀ s ∈ form.specs, ∀ key v w, s.field.find? es = some (key, v) →
      s.rule.Gives form place v w → s.rule.Accepts form spelt v) : Spells spelt form es := by
  constructor
  · intro e he
    obtain ⟨s, hs, key, v, hek, hf⟩ :=
      unknownKeys_eq_nil_iff.1 hknown e.1 (List.mem_map_of_mem he)
    exact ⟨s, hs, key, hspelling s hs key v hf, hek⟩
  · intro s hs key hk other ho hck hco
    obtain ⟨v, hv⟩ := exists_find?_of_known hknown hs (Field.mem_keys_of_spellings hk) hck
    obtain ⟨w, hw⟩ := exists_find?_of_known hknown hs (Field.mem_keys_of_spellings ho) hco
    exact (Prod.mk.inj (Option.some.inj (hv.symm.trans hw))).1
  · intro s hs key hk v hv
    have hf : s.field.find? es = some (key, v) := by
      obtain ⟨v', hf⟩ := exists_find?_of_known hknown hs (Field.mem_keys_of_spellings hk)
        (Entries.contains_of_get? hv)
      obtain rfl : v = v' := Option.some.inj (hv.symm.trans (Field.find?_eq_some hf).2)
      exact hf
    obtain ⟨w, hw⟩ := htakes s hs
    cases hw with
    | default hf' => cases hf'.symm.trans hf
    | null hf' hn =>
      obtain ⟨-, rfl⟩ := Prod.mk.inj (Option.some.inj (hf'.symm.trans hf))
      exact .inl ⟨hn, rfl⟩
    | given hf' _ hg =>
      obtain ⟨-, rfl⟩ := Prod.mk.inj (Option.some.inj (hf'.symm.trans hf))
      exact .inr (haccepts s hs key _ w hf hg)
  · intro s hs hrequired
    have hgiven {key : String} {v : Value} (hf : s.field.find? es = some (key, v)) :
        ∃ key ∈ s.field.spellings, es.contains key :=
      ⟨key, hspelling s hs key v hf, Entries.contains_of_get? (Field.find?_eq_some hf).2⟩
    obtain ⟨w, hw⟩ := htakes s hs
    cases hw with
    | default _ hd => simp [FieldSpec.isRequired, hd] at hrequired
    | null hf => exact hgiven hf
    | given hf => exact hgiven hf

/-- Entries spell the fields of a form when every field can be taken from them and no other keys
are given. `haccepts` says, for each field, which values may be given. -/
theorem spells_iff (htype : form.isNode → es.contains "type")
    (haccepts : ∀ s ∈ form.specs, ∀ key v, s.field.find? es = some (key, v) →
      ((∃ w, s.rule.Gives form place v w) ↔ s.rule.Accepts form spelt v)) :
    Spells spelt form es ↔ unknownKeys form.specs es = [] ∧
      ∀ s ∈ form.specs, ∃ w, s.Takes form place es w := by
  have hspelling : ∀ s ∈ form.specs, ∀ key v, s.field.find? es = some (key, v) →
      key ∈ s.field.spellings := by
    intro s hs key v hf
    exact Field.mem_spellings_of_find? (fun hk => htype (form.isNode_of_kind_field s hs hk)) hf
  constructor
  · intro h
    refine ⟨h.unknownKeys_eq, fun s hs => h.exists_takes hs (hspelling s hs) ?_⟩
    exact fun key v hf => (haccepts s hs key v hf).2
  · rintro ⟨hknown, htakes⟩
    apply spells_of_takes hknown htakes hspelling
    exact fun s hs key v w hf hw => (haccepts s hs key v hf).1 ⟨w, hw⟩

end Spells

section Plain

theorem isPlain_of_mem_list {xs : List Value} (h : (Value.list xs).isPlain) :
    ∀ x ∈ xs, x.isPlain := by
  rw [Value.isPlain] at h
  induction xs with
  | nil => simp
  | cons x xs ih =>
    rw [plainItems, Bool.and_eq_true] at h
    exact List.forall_mem_cons.2 ⟨h.1, ih h.2⟩

theorem isPlain_of_mem_map {es : Entries} (h : (Value.map es).isPlain) :
    ∀ e ∈ es, (∃ key, e.1 = .str key) ∧ e.2.isPlain := by
  rw [Value.isPlain, Bool.and_eq_true] at h
  have hentries := h.1
  clear h
  induction es with
  | nil => simp
  | cons e es ih =>
    obtain ⟨k, v⟩ := e
    cases k with
    | str key =>
      rw [plainEntries, Bool.and_eq_true] at hentries
      exact List.forall_mem_cons.2 ⟨⟨⟨key, rfl⟩, hentries.1⟩, ih hentries.2⟩
    | _ => simp [plainEntries] at hentries

theorem outerRecords_of_isPlain {v : Value} (hv : v.isPlain) : v.outerRecords = [] := by
  induction hsize : sizeOf v using Nat.strongRecOn generalizing v with
  | ind size ih =>
    rw [List.eq_nil_iff_forall_not_mem]
    intro q hq
    cases v with
    | list xs =>
      obtain ⟨x, hx, hqx⟩ := mem_outerRecordsOfItems.1 hq
      have hlt : sizeOf x < size := by
        have := List.sizeOf_lt_of_mem hx
        rw [← hsize, Value.list.sizeOf_spec]
        omega
      rw [ih _ hlt (isPlain_of_mem_list hv x hx) rfl] at hqx
      cases hqx
    | map es =>
      obtain ⟨e, he, hqe⟩ := mem_outerRecordsOfEntries.1 hq
      obtain ⟨⟨key, hkey⟩, hplain⟩ := isPlain_of_mem_map hv e he
      have hlt : sizeOf e.2 < size := by
        have := List.sizeOf_lt_of_mem he
        obtain ⟨k, x⟩ := e
        rw [← hsize, Value.map.sizeOf_spec]
        simp at this ⊢
        omega
      rw [hkey, ih _ hlt hplain rfl] at hqe
      rcases hqe with hqe | hqe <;> cases hqe
    | null | bool | int | float | str => cases hq
    | _ => cases hv

theorem isPlain_of_child {es : Entries} {xs : List Value} (h : (Value.map es).isPlain)
    (hget : es.get? "children" = some (.list xs)) : ∀ x ∈ xs, x.isPlain :=
  isPlain_of_mem_list (isPlain_of_mem_map h _ (Entries.mem_of_get? hget)).2

theorem node?_of_isPlain {v : Value} (h : v.isPlain) : v.node? = none := by
  cases v with
  | record => cases h
  | _ => rfl

theorem isPlain_of_find? {es : Entries} (h : (Value.map es).isPlain) {f : Field} {key : String}
    {v : Value} (hf : f.find? es = some (key, v)) : v.isPlain :=
  (isPlain_of_mem_map h _ (Entries.mem_of_get? (Field.find?_eq_some hf).2)).2

variable {form : Form} {place : Form → Value → Except Violation Record}
  {spelt : Form → Entries → Prop}

theorem isProperty_of_property? {v w : Value} (hv : v.isPlain) (h : v.property? = some w) :
    v.IsProperty := by
  obtain ⟨hw, hsame | ⟨xs, htuple, -⟩⟩ := property?_eq_some_iff.1 h
  · rwa [← hsame]
  · rw [htuple] at hv
    cases hv

theorem gatherProperties_iff {v : Value} (hv : v.isPlain) :
    (∃ w, gatherProperties v = .ok w) ↔
      v = .null ∨ ∃ es, v = .map es ∧ ∀ e ∈ es, e.2.IsProperty := by
  simp only [gatherProperties_eq_ok_iff]
  constructor
  · rintro ⟨w, ⟨hnull, -⟩ | ⟨es, fs, rfl, -, hall⟩⟩
    · exact .inl hnull
    · have hplain : ∀ e ∈ es, e.2.isPlain := fun e he => (isPlain_of_mem_map hv e he).2
      refine .inr ⟨es, rfl, ?_⟩
      clear hv
      induction hall with
      | nil => simp
      | cons hp _ ih =>
        obtain ⟨hplain, hrest⟩ := List.forall_mem_cons.1 hplain
        obtain ⟨name, -, -, hprop⟩ := hp
        exact List.forall_mem_cons.2 ⟨isProperty_of_property? hplain hprop, ih hrest⟩
  · rintro (rfl | ⟨es, rfl, hall⟩)
    · exact ⟨_, .inl ⟨rfl, rfl⟩⟩
    · have hprops : ∀ e ∈ es, (∃ s, e.1 = .str s) ∧ e.2.IsProperty :=
        fun e he => ⟨(isPlain_of_mem_map hv e he).1, hall e he⟩
      exact ⟨_, gatherProperties_eq_ok_iff.1 (gatherProperties_of_isProperty hprops)⟩

theorem Rule.gives_iff_accepts {rule : Rule} {v : Value} (hv : v.isPlain)
    (hp : ∀ f, rule ≠ .place f) (hc : rule ≠ .children) :
    (∃ w, rule.Gives form place v w) ↔ rule.Accepts form spelt v := by
  have hstores {P : Prop} : (∃ w, w = v ∧ P) ↔ P :=
    ⟨fun ⟨_, _, h⟩ => h, fun h => ⟨v, rfl, h⟩⟩
  cases rule with
  | place f => exact absurd rfl (hp f)
  | children => exact absurd rfl hc
  | properties => exact gatherProperties_iff hv
  | kind | text | integer | flag | metadata => exact hstores

theorem Rule.gives_place_iff {place : Form → Value → Except Violation Record} {f : Form}
    {v : Value} : (∃ w, (Rule.place f).Gives form place v w) ↔ ∃ r, place f v = .ok r := by
  constructor
  · rintro ⟨w, r, hr, -⟩
    exact ⟨r, hr⟩
  · rintro ⟨r, hr⟩
    exact ⟨.record r, r, hr, rfl⟩

end Plain

section Places

variable {form : Form} {place : Form → Value → Except Violation Record} {es : Entries} {id : Ident}

theorem FieldSpec.Takes.get?_eq {s : FieldSpec} {v : Value} {key : String}
    (h : s.Takes form place es v) (hr : s.rule.isScalar) (hkeys : s.field.keys = [key]) :
    es.get? key = none ∧ s.default? = some v ∨ es.get? key = some v := by
  have hget {key' : String} {w : Value} (hf : s.field.find? es = some (key', w)) :
      es.get? key = some w := by
    obtain ⟨hk, hw⟩ := Field.find?_eq_some hf
    rw [hkeys, List.mem_singleton] at hk
    rwa [← hk]
  cases h with
  | default hf hd => exact .inl ⟨Field.find?_eq_none_iff.1 hf key (by simp [hkeys]), hd⟩
  | null hf => exact .inr (hget hf)
  | @given _ w _ hf _ hg =>
    have hsame : v = w := by
      cases hrule : s.rule with
      | text | integer | flag =>
        rw [hrule] at hg
        exact hg.1
      | _ => simp [hrule, Rule.isScalar] at hr
    rw [hsame]
    exact .inr (hget hf)

theorem SpellsPlace.unique {p q : Place} (hp : SpellsPlace es p) (hq : SpellsPlace es q) :
    p = q := by
  obtain ⟨line, column, offset?⟩ := p
  obtain ⟨line', column', offset?'⟩ := q
  obtain ⟨hl, hc, ho⟩ := hp
  obtain ⟨hl', hc', ho'⟩ := hq
  rw [hl] at hl'
  rw [hc] at hc'
  obtain rfl : line = line' := Value.int.inj (Option.some.inj hl')
  obtain rfl : column = column' := Value.int.inj (Option.some.inj hc')
  obtain rfl : offset? = offset?' := Option.ext fun o => (ho o).trans (ho' o).symm
  rfl

theorem Assembled.spellsPlace {r : Record} (h : Assembled .point id place es r) :
    ∃ p, (Value.record r).IsPointAt p ∧ SpellsPlace es p := by
  obtain ⟨p, hp⟩ := h.isPointAt
  refine ⟨p, hp, ?_⟩
  obtain ⟨⟨i, hr⟩, -⟩ := hp
  obtain rfl := Value.record.inj hr
  have hline : es.get? "line" = none ∧ none = some (Value.int p.line) ∨
      es.get? "line" = some (.int p.line) :=
    (h.takes _ Form.line_mem_specs).get?_eq rfl rfl
  have hcolumn : es.get? "column" = none ∧ none = some (Value.int p.column) ∨
      es.get? "column" = some (.int p.column) :=
    (h.takes _ Form.column_mem_specs).get?_eq rfl rfl
  have hoffset : es.get? "offset" = none ∧ some Value.null = some p.offsetValue ∨
      es.get? "offset" = some p.offsetValue :=
    (h.takes _ Form.offset_mem_specs).get?_eq rfl rfl
  refine ⟨hline.resolve_left (by simp), hcolumn.resolve_left (by simp), fun o => ?_⟩
  obtain ⟨line, column, _ | offset⟩ := p
  · rcases hoffset with ⟨hget, -⟩ | hget <;> simp [hget, Place.offsetValue]
  · have hget := hoffset.resolve_left (by simp [Place.offsetValue])
    simp [hget, Place.offsetValue]

theorem checkPoint_iff {v : Value} (hv : v.isPlain) :
    (∃ r, checkPoint id v = .ok r) ↔ ∃ es, v = .map es ∧ SpellsPoint es := by
  have hspells {es : Entries} (hes : (Value.map es).isPlain) :
      SpellsPoint es ↔ unknownKeys Form.point.specs es = [] ∧ ∀ s ∈ Form.point.specs, ∃ w,
        s.Takes .point (fun form _ => .error (.badFields form [])) es w := by
    refine spells_iff nofun fun s hs key w hf => ?_
    exact Rule.gives_iff_accepts (isPlain_of_find? hes hf) (Form.not_place_of_point s hs)
      (Form.not_children_of_point s hs)
  constructor
  · rintro ⟨r, hr⟩
    rcases checkWith_eq_ok_iff.1 hr with ⟨es, rfl, ha⟩ | ⟨rfl, -⟩
    · exact ⟨es, rfl, (hspells hv).2 ⟨ha.known, fun s hs => ⟨_, ha.takes s hs⟩⟩⟩
    · cases hv
  · rintro ⟨es, rfl, hes⟩
    obtain ⟨hknown, htakes⟩ := (hspells hv).1 hes
    obtain ⟨r, ha, -⟩ := exists_assembled id (P := fun _ _ => True)
      (by simp [Form.isNode]) hknown
      (fun s hs => (htakes s hs).imp fun w hw => ⟨hw, trivial⟩) fun _ _ _ _ => rfl
    exact ⟨r, checkWith_map_eq_ok_iff.2 ha⟩

theorem FieldSpec.Takes.exists_point {f : Field} {key : String} {v : Value}
    (hes : (Value.map es).isPlain) (hkeys : f.keys = [key])
    (h : (FieldSpec.required f (.place .point)).Takes .position (fun _ => checkPoint id) es v) :
    ∃ ends p, es.get? key = some (.map ends) ∧ SpellsPlace ends p ∧ v.IsPointAt p := by
  cases h with
  | default _ hd => cases hd
  | null _ hn => cases hn
  | @given key' w _ hf _ hg =>
    obtain ⟨r, hr, rfl⟩ := hg
    obtain ⟨hk, hget⟩ := Field.find?_eq_some hf
    obtain rfl : key' = key := by simpa [FieldSpec.required, hkeys] using hk
    rcases checkWith_eq_ok_iff.1 hr with ⟨ends, rfl, ha⟩ | ⟨rfl, -⟩
    · obtain ⟨p, hp, hspells⟩ := ha.spellsPlace
      exact ⟨ends, p, hget, hspells, hp⟩
    · cases isPlain_of_find? hes hf

theorem checkCoupled_position_iff_spelt {r : Record} (hes : (Value.map es).isPlain)
    (h : ∀ s ∈ Form.position.specs, s.Takes .position (fun _ => checkPoint id) es (r.get s.field)) :
    checkCoupled .position r = .ok () ↔
      ∀ start stop p q, es.get? "start" = some (.map start) → es.get? "end" = some (.map stop) →
        SpellsPlace start p → SpellsPlace stop q → p.Ordered q := by
  obtain ⟨first, p, hfirst, hspellsp, hp⟩ :=
    (h _ Form.first_mem_specs).exists_point hes (show Field.start.keys = ["start"] from rfl)
  obtain ⟨last, q, hlast, hspellsq, hq⟩ :=
    (h _ Form.last_mem_specs).exists_point hes (show Field.stop.keys = ["end"] from rfl)
  rw [checkCoupled_position_iff hp hq]
  constructor
  · intro hordered start stop p' q' hs he hp' hq'
    rw [hfirst] at hs
    rw [hlast] at he
    obtain rfl := Value.map.inj (Option.some.inj hs)
    obtain rfl := Value.map.inj (Option.some.inj he)
    rwa [← hspellsp.unique hp', ← hspellsq.unique hq']
  · intro hordered
    exact hordered first last p q hfirst hlast hspellsp hspellsq

theorem checkPlace_iff {v : Value} (hv : v.isPlain) :
    (∃ r, checkPlace id .position v = .ok r) ↔ ∃ es, v = .map es ∧ SpellsPosition es := by
  have hspells {es : Entries} (hes : (Value.map es).isPlain) :
      Spells (fun _ => SpellsPoint) .position es ↔ unknownKeys Form.position.specs es = [] ∧
        ∀ s ∈ Form.position.specs, ∃ w, s.Takes .position (fun _ => checkPoint id) es w := by
    refine spells_iff nofun fun s hs key w hf => ?_
    rw [Form.place_of_position s hs, Rule.gives_place_iff, checkPoint_iff (isPlain_of_find? hes hf),
      Rule.Accepts]
  constructor
  · rintro ⟨r, hr⟩
    rcases checkWith_eq_ok_iff.1 hr with ⟨es, rfl, ha⟩ | ⟨rfl, -⟩
    · exact ⟨es, rfl, (hspells hv).2 ⟨ha.known, fun s hs => ⟨_, ha.takes s hs⟩⟩,
        (checkCoupled_position_iff_spelt hv ha.takes).1 ha.coupled⟩
    · cases hv
  · rintro ⟨es, rfl, hes, hordered⟩
    obtain ⟨hknown, htakes⟩ := (hspells hv).1 hes
    obtain ⟨r, ha, -⟩ := exists_assembled id
      (P := fun s w => s.Takes .position (fun _ => checkPoint id) es w)
      (by simp [Form.isNode]) hknown
      (fun s hs => (htakes s hs).imp fun w hw => ⟨hw, hw⟩)
      fun r _ _ htakes => (checkCoupled_position_iff_spelt hv htakes).2 hordered
    exact ⟨r, checkWith_map_eq_ok_iff.2 ha⟩

end Places

end DocTree
