import DocTree.NormalForm
import DocTree.Proofs.Acceptance
import DocTree.Proofs.RoundTrip

/-!
What is written for a node that was read is the normal form of the data that it was read from.
Field by field, what the entries give and what a record stores of it are written in one way; the
children follow by recursion on the data. The normal form is plain data again, so it is read in its
turn, and what is written then is the normal form once more. Main statements:
`Takes.normal?_eq`, `load_encode_eq`, `isPlain_normalForm` and `Family.encode_of_decode`.
-/
namespace DocTree

section Plain

theorem isPlain_of_get? {es : Entries} (h : (Value.map es).isPlain) (key : String) (v : Value)
    (hget : es.get? key = some v) : v.isPlain :=
  (isPlain_of_mem_map h _ (Entries.mem_of_get? hget)).2

theorem eraseDups_of_nodup {xs : List String} (h : xs.Nodup) : xs.eraseDups = xs := by
  induction xs with
  | nil => rfl
  | cons x xs ih =>
    obtain ⟨hx, hxs⟩ := List.nodup_cons.1 h
    have hfilter : xs.filter (fun y => !y == x) = xs := by
      rw [List.filter_eq_self]
      intro y hy
      have hne : y ≠ x := fun he => hx (he ▸ hy)
      simpa using hne
    rw [List.eraseDups_cons, hfilter, ih hxs]

theorem length_eraseDups_le (xs : List String) : xs.eraseDups.length ≤ xs.length := by
  induction hlength : xs.length using Nat.strongRecOn generalizing xs with
  | ind n ih =>
    cases xs with
    | nil => simp
    | cons x xs =>
      have hfilter := List.length_filter_le (fun y => !y == x) xs
      rw [List.length_cons] at hlength
      have hrest := ih _ (by omega) (xs.filter fun y => !y == x) rfl
      rw [List.eraseDups_cons, List.length_cons]
      omega

theorem nodup_of_length_eraseDups {xs : List String} (h : xs.eraseDups.length = xs.length) :
    xs.Nodup := by
  induction xs with
  | nil => exact .nil
  | cons x xs ih =>
    have hle := length_eraseDups_le (xs.filter fun y => !y == x)
    have hfilter := List.length_filter_le (fun y => !y == x) xs
    rw [List.eraseDups_cons, List.length_cons, List.length_cons] at h
    have hsame : xs.filter (fun y => !y == x) = xs :=
      List.filter_sublist.eq_of_length (by omega)
    rw [hsame] at h
    refine List.nodup_cons.2 ⟨fun hx => ?_, ih (by omega)⟩
    have hne := List.filter_eq_self.1 hsame x hx
    simp at hne

theorem nodup_texts_of_isPlain {es : Entries} (h : (Value.map es).isPlain) : es.texts.Nodup := by
  have hkeys := isPlain_of_mem_map h
  have hlength : es.texts.length = es.length := by
    clear h
    induction es with
    | nil => rfl
    | cons e es ih =>
      obtain ⟨k, v⟩ := e
      obtain ⟨⟨⟨key, hkey⟩, -⟩, hrest⟩ := List.forall_mem_cons.1 hkeys
      obtain rfl : k = .str key := hkey
      have htexts : Entries.texts ((.str key, v) :: es) = key :: Entries.texts es := rfl
      rw [htexts, List.length_cons, List.length_cons, ih hrest]
  rw [Value.isPlain, Bool.and_eq_true] at h
  have hdistinct : es.texts.eraseDups.length = es.length := of_decide_eq_true h.2
  exact nodup_of_length_eraseDups (hdistinct.trans hlength.symm)

theorem isPlain_map {es : Entries} (h : ∀ e ∈ es, (∃ key, e.1 = .str key) ∧ e.2.isPlain)
    (hn : es.texts.Nodup) : (Value.map es).isPlain := by
  have hentries : plainEntries es ∧ es.texts.length = es.length := by
    clear hn
    induction es with
    | nil => exact ⟨rfl, rfl⟩
    | cons e es ih =>
      obtain ⟨k, v⟩ := e
      obtain ⟨⟨⟨key, hkey⟩, hv⟩, hrest⟩ := List.forall_mem_cons.1 h
      obtain rfl : k = .str key := hkey
      obtain ⟨hplain, hlength⟩ := ih hrest
      have htexts : Entries.texts ((.str key, v) :: es) = key :: Entries.texts es := rfl
      rw [plainEntries, Bool.and_eq_true, htexts, List.length_cons, List.length_cons, hlength]
      exact ⟨⟨hv, hplain⟩, rfl⟩
  rw [Value.isPlain, Bool.and_eq_true]
  refine ⟨hentries.1, ?_⟩
  change decide (es.texts.eraseDups.length = es.length) = true
  rw [eraseDups_of_nodup hn, hentries.2, decide_eq_true rfl]

theorem isPlain_list {xs : List Value} (h : ∀ x ∈ xs, x.isPlain) : (Value.list xs).isPlain := by
  rw [Value.isPlain]
  induction xs with
  | nil => rfl
  | cons x xs ih =>
    obtain ⟨hx, hxs⟩ := List.forall_mem_cons.1 h
    rw [plainItems, hx, ih hxs]
    rfl

end Plain

section Entries

variable {form : Form} {es : Entries} {normal : FieldSpec → Value → Value}

/-- What stands for a field in normal form, if anything; `normal` gives the normal form of a value
that is given. -/
def FieldSpec.normal? (normal : Value → Value) (es : Entries) (s : FieldSpec) : Option Value :=
  match s.field.find? es with
  | some (_, v) => if s.nullable && v.isNull then none else some (normal v)
  | none =>
    match s.default? with
    | some .null | none => none
    | some (.tuple xs) => some (.list xs)
    | some v => some v

/-- The entries in normal form, those of a node or of a place. -/
def normalEntries (normal : FieldSpec → Value → Value) (form : Form) (es : Entries) : Entries :=
  form.specs.filterMap fun s => (s.normal? (normal s) es).map fun v => (.str s.field.key, v)

theorem FieldSpec.normal?_congr {s : FieldSpec} {fs : Entries}
    (h : s.field.find? fs = s.field.find? es) (normal : Value → Value) :
    s.normal? normal fs = s.normal? normal es := by
  rw [normal?, normal?, h]

theorem Field.findSome?_keys (f : Field) (es : Entries) :
    f.keys.findSome? es.get? = (f.find? es).map Prod.snd := by
  unfold find?
  induction f.keys with
  | nil => rfl
  | cons key keys ih =>
    rw [List.findSome?_cons, List.findSome?_cons, ih]
    cases es.get? key <;> rfl

theorem normalFields_eq (form : Form) (es : Entries) :
    normalFields form es = normalEntries (fun s => s.rule.normal) form es := by
  refine List.filterMap_congr fun s _ => ?_
  unfold FieldSpec.normal?
  rw [Field.findSome?_keys]
  cases s.field.find? es with
  | some p =>
    dsimp only [Option.map_some]
    split <;> rfl
  | none =>
    cases s.default? with
    | none => rfl
    | some v => cases v <;> rfl

theorem Form.optional_of_place (form : Form) : form.isNode = false → ∀ s ∈ form.specs,
    s.field.alias? = none ∧ s.default?.all Value.isNull ∧ s.rule ≠ .properties := by
  cases form <;> decide

theorem normalPlace_eq (place : Value → Value) (hn : form.isNode = false) (es : Entries) :
    normalPlace place form es = normalEntries (fun _ => place) form es := by
  refine List.filterMap_congr fun s hs => ?_
  obtain ⟨halias, hdefault, -⟩ := form.optional_of_place hn s hs
  have hkey : s.field.key = s.field.label := by rw [Field.key, halias, Option.getD_none]
  have hfind : s.field.find? es = (es.get? s.field.label).map fun v => (s.field.label, v) := by
    simp [Field.find?, Field.keys, halias]
  unfold FieldSpec.normal?
  rw [hfind, hkey]
  cases es.get? s.field.label with
  | some v =>
    simp only [Option.bind_some, Option.map_some]
    split <;> rfl
  | none =>
    cases hd : s.default? with
    | none => rfl
    | some v =>
      rw [hd, Option.all_some, Value.isNull_iff] at hdefault
      rw [hdefault]
      rfl

end Entries

section Written

variable {form : Form} {place : Form → Value → Except Violation Record} {es : Entries}
  {id : Ident} {r : Record}

/-- What is written for a field that stores the value, if anything. -/
def Field.written? (f : Field) (v : Value) : Option Value :=
  if v.isNull then none else some (f.written v)

theorem Record.Sound.written_eq_normalEntries (h : r.Sound)
    {normal : FieldSpec → Value → Value}
    (hnormal : ∀ s ∈ r.form.specs, s.normal? (normal s) es = s.field.written? (r.get s.field)) :
    r.written = normalEntries normal r.form es := by
  rw [h.written_eq]
  refine List.filterMap_congr fun s hs => ?_
  rw [hnormal s hs, Field.written?]
  split <;> rfl

theorem Rule.Gives.ne_null {rule : Rule} {v w : Value} (h : rule.Gives form place v w) :
    w ≠ .null := by
  cases rule with
  | place f =>
    obtain ⟨q, -, rfl⟩ := h
    simp
  | children =>
    obtain ⟨xs, -, rfl, -⟩ := gatherChildren_eq_ok_iff.1 h
    simp
  | properties =>
    rcases gatherProperties_eq_ok_iff.1 h with ⟨-, rfl⟩ | ⟨es, fs, -, rfl, -⟩ <;> simp
  | kind | text | integer | flag | metadata =>
    obtain ⟨rfl, hs⟩ := h
    exact hs.ne_null

theorem FieldSpec.normal?_of_default {s : FieldSpec} (hs : s ∈ form.specs) {v : Value}
    (hd : s.default? = some v) (hnone : s.field.find? es = none) (normal : Value → Value) :
    s.normal? normal es = s.field.written? v := by
  unfold FieldSpec.normal?
  rw [hnone, hd]
  cases Form.declares hs with
  | kind hn =>
    obtain ⟨kind, -, rfl⟩ := Option.map_eq_some_iff.1 hd
    rfl
  | flag hf =>
    obtain rfl := Option.some.inj hd
    rename_i f
    have hchildren : f ≠ .children := by
      rintro rfl
      cases hf
    change some (Value.bool false) = some (f.written (.bool false))
    rw [Field.written, if_neg hchildren]
    simp
  | place | required => cases hd
  | position | metadata | children | properties | optional =>
    obtain rfl := Option.some.inj hd
    rfl

/-- What is stored for a field is written in the way that the normal form asks for; `hgiven` says
so of values that are given. -/
theorem FieldSpec.Takes.normal?_eq {s : FieldSpec} {v : Value} (h : s.Takes form place es v)
    (hs : s ∈ form.specs) {normal : Value → Value}
    (hgiven : ∀ key w, s.field.find? es = some (key, w) → s.rule.Gives form place w v →
      s.field.written v = normal w) : s.normal? normal es = s.field.written? v := by
  cases h with
  | default hnone hd => exact normal?_of_default hs hd hnone normal
  | null hf hn =>
    unfold FieldSpec.normal?
    rw [hf]
    simp [hn, Value.isNull, Field.written?]
  | @given key w _ hf hn hg =>
    have hnull : ¬ (s.nullable && w.isNull) = true := by
      rwa [Bool.and_eq_true, Value.isNull_iff]
    unfold FieldSpec.normal?
    rw [hf, Field.written?, if_neg (mt Value.isNull_iff.1 hg.ne_null), hgiven _ _ hf hg]
    exact if_neg hnull

end Written

section Places

variable {form : Form} {es : Entries} {id : Ident} {v w : Value} {r : Record}
  {place : Form → Value → Except Violation Record}

theorem Rule.Gives.written_eq {rule : Rule} {f : Field} (h : rule.Gives form place w v)
    (hp : ∀ f, rule ≠ .place f) (hc : rule ≠ .children) (hr : rule ≠ .properties)
    (hf : f ≠ .children) : f.written v = w := by
  have hstores : v = w ∧ rule.Stores form w := by
    cases rule with
    | place f => exact absurd rfl (hp f)
    | children => exact absurd rfl hc
    | properties => exact absurd rfl hr
    | kind | text | integer | flag | metadata => exact h
  obtain ⟨rfl, hs⟩ := hstores
  rw [Field.written, if_neg hf]
  exact (hs.gives place hp hc).2

theorem checkPoint_dump_eq (hv : v.isPlain) (h : checkPoint id v = .ok r) :
    r.dump = normalPoint v := by
  rcases checkWith_eq_ok_iff.1 h with ⟨es, rfl, ha⟩ | ⟨rfl, -⟩
  · obtain ⟨p, hp⟩ := ha.isPointAt
    obtain ⟨hsound, hform⟩ := hp.sound
    rw [normalPoint, normalPlace_eq _ rfl, hsound.dump_eq (by rw [hform]; rfl), ← hform]
    refine congrArg _ (hsound.written_eq_normalEntries fun s hs => ?_)
    rw [hform] at hs
    refine (ha.takes s hs).normal?_eq hs fun key w _ hg => ?_
    exact hg.written_eq (Form.not_place_of_point s hs) (Form.not_children_of_point s hs)
      (Form.optional_of_place _ rfl s hs).2.2 (Form.label_eq_key _ rfl s hs).2
  · cases hv

theorem checkPlace_dump_eq (hv : v.isPlain) (h : checkPlace id .position v = .ok r) :
    r.dump = normalPosition v := by
  have hplaced : ∀ q ∈ v.outerRecords, q.Placed := by
    simp [outerRecords_of_isPlain hv]
  obtain ⟨hsound, hform⟩ :=
    Value.IsPosition.sound (checkPlace_stores (.inr rfl) hplaced h .position)
  rcases checkWith_eq_ok_iff.1 h with ⟨es, rfl, ha⟩ | ⟨rfl, -⟩
  · rw [normalPosition, normalPlace_eq _ rfl, hsound.dump_eq (by rw [hform]; rfl), ← hform]
    refine congrArg _ (hsound.written_eq_normalEntries fun s hs => ?_)
    rw [hform] at hs
    refine (ha.takes s hs).normal?_eq hs fun key w hf hg => ?_
    rw [Form.place_of_position s hs] at hg
    obtain ⟨q, hq, hqv⟩ := hg
    rw [← hqv, Field.written, if_neg (Form.label_eq_key _ rfl s hs).2]
    exact checkPoint_dump_eq (isPlain_of_find? hv hf) hq
  · cases hv

theorem gatherProperties_of_isPlain {w v : Value} (hw : w.isPlain)
    (h : gatherProperties w = .ok v) : v = Rule.properties.normal w := by
  rcases gatherProperties_eq_ok_iff.1 h with ⟨rfl, rfl⟩ | ⟨es, fs, rfl, -, -⟩
  · rfl
  · obtain hnull | ⟨es', he, hprops⟩ := (gatherProperties_iff hw).1 ⟨v, h⟩
    · cases hnull
    · obtain rfl := Value.map.inj he
      have hkeys : ∀ e ∈ es, (∃ s, e.1 = .str s) ∧ e.2.IsProperty :=
        fun e he => ⟨(isPlain_of_mem_map hw e he).1, hprops e he⟩
      exact Except.ok.inj (h.symm.trans (gatherProperties_of_isProperty hkeys))

theorem Rule.Gives.written_eq_normal {s : FieldSpec} (hs : s ∈ form.specs) (hn : form.isNode)
    (hf : s.field ≠ .children) (hw : w.isPlain)
    (h : s.rule.Gives form (checkPlace id) w v) : s.field.written v = s.rule.normal w := by
  have hc : s.rule ≠ .children := mt (form.field_of_rule s hs).2 hf
  by_cases hp : ∃ f, s.rule = .place f
  · obtain ⟨f, hrule⟩ := hp
    obtain rfl := Form.position_of_place hs hn hrule
    rw [hrule] at h ⊢
    obtain ⟨q, hq, rfl⟩ := h
    rw [Field.written, if_neg hf]
    exact checkPlace_dump_eq hw hq
  by_cases hr : s.rule = .properties
  · rw [hr] at h ⊢
    rw [← gatherProperties_of_isPlain hw h, Field.written, if_neg hf]
    rcases gatherProperties_eq_ok_iff.1 h with ⟨-, rfl⟩ | ⟨es, fs, -, rfl, -⟩ <;> simp
  · rw [h.written_eq (fun f hrule => hp ⟨f, hrule⟩) hc hr hf]
    cases hrule : s.rule with
    | place f => exact absurd ⟨f, hrule⟩ hp
    | properties => exact absurd hrule hr
    | kind | text | integer | flag | metadata | children => rfl

/-- A field of a node is written in normal form, if no children are given for it; `fs` are the
entries that the node is made from, which may differ from the data in other fields. -/
theorem FieldSpec.Takes.normal?_eq_written {s : FieldSpec} {fs : Entries}
    (h : s.Takes form (checkPlace id) fs v) (hs : s ∈ form.specs) (hn : form.isNode)
    (hes : (Value.map es).isPlain) (hfind : s.field.find? fs = s.field.find? es)
    (hc : s.field = .children → s.field.find? es = none) :
    s.normal? s.rule.normal es = s.field.written? v := by
  rw [← normal?_congr hfind]
  refine h.normal?_eq hs fun key w hf hg => ?_
  rw [hfind] at hf
  have hchildren : s.field ≠ .children := by
    intro hchildren
    rw [hc hchildren] at hf
    cases hf
  exact hg.written_eq_normal hs hn hchildren (isPlain_of_find? hes hf)

end Places

section Children

variable {forms : Registry} {es : Entries} {key : String}

theorem normalChildren_cons (e : Value × Value) (es : Entries) :
    normalChildren forms (e :: es) = e :: normalChildren forms es ∨
      ∃ xs, e = (.str "children", .list xs) ∧ normalChildren forms (e :: es) =
        (.str "children", .list (normalItems forms xs)) :: es := by
  by_cases h : ∃ xs, e = (.str "children", .list xs)
  · obtain ⟨xs, rfl⟩ := h
    exact .inr ⟨xs, rfl, rfl⟩
  · refine .inl ?_
    rw [normalChildren]
    exact fun xs he => h ⟨xs, he⟩

theorem get?_normalChildren (h : key ≠ "children") :
    Entries.get? (normalChildren forms es) key = es.get? key := by
  induction es with
  | nil => rfl
  | cons e es ih =>
    rcases normalChildren_cons e es with he | ⟨xs, rfl, he⟩
    · rw [he, Entries.get?_cons, Entries.get?_cons, ih]
    · have hkey : ¬ (Value.str "children").isText key := by simpa using h.symm
      rw [he, Entries.get?_cons, Entries.get?_cons, if_neg hkey, if_neg hkey]

theorem get?_normalChildren_children {xs : List Value}
    (h : es.get? "children" = some (.list xs)) :
    Entries.get? (normalChildren forms es) "children" = some (.list (normalItems forms xs)) := by
  induction es with
  | nil => cases h
  | cons e es ih =>
    rw [Entries.get?_cons] at h
    by_cases hk : e.1.isText "children"
    · obtain rfl : e = (.str "children", .list xs) := by
        rw [if_pos hk] at h
        exact Prod.ext (Value.isText_iff.1 hk) (Option.some.inj h)
      rw [normalChildren, Entries.get?_cons, if_pos (Value.isText_iff.2 rfl)]
    · rw [if_neg hk] at h
      rcases normalChildren_cons e es with he | ⟨ys, rfl, -⟩
      · rw [he, Entries.get?_cons, if_neg hk, ih h]
      · exact absurd (Value.isText_iff.2 rfl) hk

theorem normalChildren_of_get?_none (h : es.get? "children" = none) :
    normalChildren forms es = es := by
  induction es with
  | nil => rfl
  | cons e es ih =>
    rw [Entries.get?_cons] at h
    by_cases hk : e.1.isText "children"
    · rw [if_pos hk] at h
      cases h
    · rw [if_neg hk] at h
      rcases normalChildren_cons e es with he | ⟨ys, rfl, -⟩
      · rw [he, ih h]
      · exact absurd (Value.isText_iff.2 rfl) hk

theorem Field.find?_normalChildren {f : Field} (hf : f ≠ .children) :
    f.find? (normalChildren forms es) = f.find? es :=
  Field.find?_congr hf fun _ => get?_normalChildren

theorem normal?_children {form : Form} {s : FieldSpec} (hs : s ∈ form.specs)
    (hf : s.field = .children) {xs stored : List Value} (hget : es.get? "children" = some (.list xs))
    (hitems : encodeItems stored = normalItems forms xs) :
    s.normal? s.rule.normal (normalChildren forms es) = s.field.written? (.tuple stored) := by
  have hfind : Field.children.find? (normalChildren forms es) =
      some ("children", .list (normalItems forms xs)) :=
    Field.find?_of_get?_key (f := .children) (get?_normalChildren_children hget)
  have hnormal : s.rule.normal (.list (normalItems forms xs)) = .list (normalItems forms xs) := by
    rw [form.rule_of_children s hs hf]
    rfl
  have hwritten : Field.children.written (.tuple stored) = .list (normalItems forms xs) := by
    rw [Field.written, if_pos rfl, Value.items_tuple, hitems]
    simp
  rw [FieldSpec.normal?, hf, hfind, Field.written?, hwritten]
  simp [Value.isNull, hnormal]

end Children

section Trees

variable {forms : Registry} {name : String} {next next' : Ident} {r : Record}

theorem load_wellFormed {v : Value} (hv : v.isPlain) (h : load forms name v next = .ok (r, next')) :
    r.WellFormed := by
  have hsettled : v.Settled next := by
    simp [Value.Settled, outerRecords_of_isPlain hv]
  obtain ⟨-, kind, hkind, -⟩ := load_inGrammar hv h
  exact (load_established v hsettled h).2.node (Form.isNode_of_kind hkind)

theorem loadItems_encode_eq (xs : List Value) {rs : List Record}
    (hxs : ∀ x ∈ xs, x.node? = none ∧ ∀ {next next' : Ident} {r : Record},
      load forms name x next = .ok (r, next') → r.encode = normalForm forms x)
    (h : loadItems forms name xs next = .ok (rs.map .record, next')) :
    encodeItems (rs.map .record) = normalItems forms xs := by
  induction xs generalizing rs next with
  | nil =>
    rw [loadItems] at h
    have hnil : rs.map Value.record = [] := (Build.pure_eq_ok_iff.1 h).1.symm
    rw [hnil]
    rfl
  | cons x xs ih =>
    obtain ⟨⟨hnode, hx⟩, hothers⟩ := List.forall_mem_cons.1 hxs
    obtain ⟨r, mid, rest, rfl, hload, hrest⟩ := exists_of_loadItems_cons hnode h
    have hnormal : normalItems forms (x :: xs) = normalForm forms x :: normalItems forms xs := rfl
    have hencode : encodeItems ((r :: rest).map .record) =
      r.encode :: encodeItems (rest.map .record) := rfl
    rw [hencode, hnormal, hx hload, ih hothers hrest]

theorem load_map_encode_eq {es : Entries} (hv : (Value.map es).isPlain)
    (hxs : ∀ xs, es.get? "children" = some (.list xs) → ∀ x ∈ xs, ∀ {next next' : Ident}
      {r : Record}, load forms name x next = .ok (r, next') → r.encode = normalForm forms x)
    (h : load forms name (.map es) next = .ok (r, next')) :
    r.encode = normalForm forms (.map es) := by
  have hwf := load_wellFormed hv h
  have hsound := hwf.sound r (Record.mem_preorder_iff.2 (.inl rfl))
  obtain ⟨form, loaded, mid, hform, hl, hc⟩ := load_map_eq_ok_iff.1 h
  have ha := checkWith_map_eq_ok_iff.1 (create_eq_ok_iff.1 hc).1
  obtain rfl := ha.form_eq
  have hnormal : normalForm forms (.map es) =
      .map (normalEntries (fun s => s.rule.normal) r.form (normalChildren forms es)) := by
    rw [Registry.formOf?] at hform
    rw [normalForm, hform, ← normalFields_eq]
  rw [hnormal, hsound.encode_eq]
  refine congrArg _ (hsound.written_eq_normalEntries fun s hs => ?_)
  rcases loadEntries_cases_of_isPlain hv hwf.isNode hl ha with
    ⟨hnone, rfl⟩ | ⟨xs, rs, hget, hb, hrs, rfl⟩
  · rw [normalChildren_of_get?_none hnone]
    refine (ha.takes s hs).normal?_eq_written hs hwf.isNode hv rfl fun hchildren => ?_
    rw [hchildren, Field.find?_eq_none_iff]
    simpa [Field.keys, Field.alias?, Field.label] using hnone
  · by_cases hchildren : s.field = .children
    · have hplain := isPlain_of_child hv hget
      have hitems : encodeItems (rs.map .record) = normalItems forms xs :=
        loadItems_encode_eq xs (fun x hx => ⟨node?_of_isPlain (hplain x hx), hxs xs hget x hx⟩) hrs
      have hgathers := ha.gathers hb
        (Entries.get?_withChildren_children (Entries.contains_of_get? hget))
      obtain ⟨ys, hys, hstored, -⟩ := gatherChildren_eq_ok_iff.1 hgathers
      obtain rfl := Option.some.inj hys
      have hvalue : r.get s.field = .tuple (rs.map .record) := by rw [hchildren, hstored]
      rw [hvalue]
      exact normal?_children hs hchildren hget hitems
    · rw [FieldSpec.normal?_congr (Field.find?_normalChildren hchildren)]
      exact (ha.takes s hs).normal?_eq_written hs hwf.isNode hv (Field.find?_withChildren hchildren)
        fun h => absurd h hchildren

/-- Induction on the data: what is written for a node read from it is its normal form. -/
theorem load_encode_eq {v : Value} (hv : v.isPlain)
    (h : load forms name v next = .ok (r, next')) : r.encode = normalForm forms v := by
  induction hsize : sizeOf v using Nat.strongRecOn generalizing v next next' r with
  | ind size ih =>
    cases v with
    | map es =>
      refine load_map_encode_eq hv (fun xs hget x hx _ _ _ hload => ?_) h
      have hplain : x.isPlain := isPlain_of_child hv hget x hx
      have hlt : sizeOf x < size := hsize ▸ sizeOf_child_lt hget hx
      exact ih _ hlt hplain hload rfl
    | _ => cases h

end Trees

section PlainNormal

variable {form : Form} {es : Entries} {forms : Registry}

theorem isPlain_default {s : FieldSpec} (hs : s ∈ form.specs) {v : Value}
    (hd : s.default? = some v) : v = .tuple [] ∨ v.isPlain := by
  cases Form.declares hs with
  | kind hn =>
    obtain ⟨kind, -, rfl⟩ := Option.map_eq_some_iff.1 hd
    exact .inr rfl
  | place | required => cases hd
  | children => exact .inl (Option.some.inj hd).symm
  | position | metadata | optional | properties | flag =>
    obtain rfl := Option.some.inj hd
    exact .inr rfl

theorem FieldSpec.isPlain_normal? {s : FieldSpec} (hs : s ∈ form.specs)
    (hes : ∀ key v, es.get? key = some v → v.isPlain) {normal : Value → Value}
    (hnormal : ∀ v, v.isPlain → (normal v).isPlain) {w : Value}
    (h : s.normal? normal es = some w) : w.isPlain := by
  cases hf : s.field.find? es with
  | some p =>
    obtain ⟨key, v⟩ := p
    have hv := hes key v (Field.find?_eq_some hf).2
    rw [normal?, hf] at h
    dsimp only at h
    split at h
    · cases h
    · obtain rfl := Option.some.inj h
      exact hnormal v hv
  | none =>
    rw [normal?, hf] at h
    cases hd : s.default? with
    | none =>
      rw [hd] at h
      cases h
    | some v =>
      rw [hd] at h
      rcases isPlain_default hs hd with rfl | hv
      · obtain rfl := Option.some.inj h
        rfl
      · cases v with
        | null => cases h
        | bool | int | float | str | list | map =>
          obtain rfl := Option.some.inj h
          exact hv
        | _ => cases hv

theorem isPlain_normalEntries {normal : FieldSpec → Value → Value}
    (hes : ∀ key v, es.get? key = some v → v.isPlain)
    (hnormal : ∀ s v, v.isPlain → (normal s v).isPlain) :
    (Value.map (normalEntries normal form es)).isPlain := by
  have hsub (specs : List FieldSpec) : (Entries.texts (specs.filterMap fun s =>
      (s.normal? (normal s) es).map fun v => (.str s.field.key, v))).Sublist
        (specs.map fun s => s.field.key) := by
    induction specs with
    | nil => exact List.Sublist.refl _
    | cons s specs ih =>
      cases hs : s.normal? (normal s) es with
      | none =>
        rw [List.filterMap_cons_none (by rw [hs]; rfl)]
        exact ih.cons _
      | some v =>
        rw [List.filterMap_cons_some (by rw [hs]; rfl)]
        exact ih.cons_cons _
  apply isPlain_map
  · intro e he
    obtain ⟨s, hs, he⟩ := List.mem_filterMap.1 he
    obtain ⟨w, hw, rfl⟩ := Option.map_eq_some_iff.1 he
    exact ⟨⟨_, rfl⟩, FieldSpec.isPlain_normal? hs hes (hnormal s) hw⟩
  · exact form.nodup_key.sublist (hsub form.specs)

theorem isPlain_normalPoint {v : Value} (hv : v.isPlain) : (normalPoint v).isPlain := by
  cases v with
  | map es =>
    rw [normalPoint, normalPlace_eq _ rfl]
    exact isPlain_normalEntries (isPlain_of_get? hv) fun _ _ h => h
  | _ => exact hv

theorem isPlain_normalPosition {v : Value} (hv : v.isPlain) : (normalPosition v).isPlain := by
  cases v with
  | map es =>
    rw [normalPosition, normalPlace_eq _ rfl]
    exact isPlain_normalEntries (isPlain_of_get? hv) fun _ _ => isPlain_normalPoint
  | _ => exact hv

theorem Rule.isPlain_normal (rule : Rule) {v : Value} (hv : v.isPlain) :
    (rule.normal v).isPlain := by
  cases rule with
  | place f => exact isPlain_normalPosition hv
  | properties =>
    cases v with
    | null => rfl
    | _ => exact hv
  | kind | text | integer | flag | metadata | children => exact hv

mutual

/-- The normal form of plain data is plain data. -/
theorem isPlain_normalForm (v : Value) (hv : v.isPlain) : (normalForm forms v).isPlain := by
  cases v with
  | map es =>
    rw [normalForm]
    split
    · exact hv
    · rw [normalFields_eq]
      have hchildren := isPlain_normalChildren es fun e he => (isPlain_of_mem_map hv e he).2
      have hget : ∀ key v, Entries.get? (normalChildren forms es) key = some v → v.isPlain :=
        fun key v h => hchildren _ (Entries.mem_of_get? h)
      exact isPlain_normalEntries hget fun s _ => s.rule.isPlain_normal
  | _ => exact hv

theorem isPlain_normalChildren (es : Entries) (h : ∀ e ∈ es, e.2.isPlain) :
    ∀ e ∈ normalChildren forms es, e.2.isPlain := by
  cases es with
  | nil => exact h
  | cons e es =>
    obtain ⟨he, hrest⟩ := List.forall_mem_cons.1 h
    rcases normalChildren_cons e es with hcons | ⟨xs, rfl, hcons⟩
    · rw [hcons]
      exact List.forall_mem_cons.2 ⟨he, isPlain_normalChildren es hrest⟩
    · rw [hcons]
      have hitems := isPlain_normalItems xs (isPlain_of_mem_list he)
      exact List.forall_mem_cons.2 ⟨isPlain_list hitems, hrest⟩

theorem isPlain_normalItems (xs : List Value) (h : ∀ x ∈ xs, x.isPlain) :
    ∀ x ∈ normalItems forms xs, x.isPlain := by
  cases xs with
  | nil => exact h
  | cons x xs =>
    obtain ⟨hx, hrest⟩ := List.forall_mem_cons.1 h
    exact List.forall_mem_cons.2 ⟨isPlain_normalForm x hx, isPlain_normalItems xs hrest⟩

end

end PlainNormal

namespace Family

variable {family : Family} {v : Value} {r : Record} {next next' : Ident}

/-- A node that was read from plain data is written as the normal form of the data, and so comes
back as it was if it was in normal form. The normal form is plain data itself, is in normal form,
and a node is read from it that is written as it stands. -/
theorem encode_of_decode (hv : v.isPlain) (h : family.decode v next = .ok (r, next')) :
    r.encode = normalForm family.registry v ∧
      (normalForm family.registry v = v → r.encode = v) ∧
      (normalForm family.registry v).isPlain ∧
      normalForm family.registry (normalForm family.registry v) = normalForm family.registry v ∧
      ∀ mid, ∃ q mid', family.decode (normalForm family.registry v) mid = .ok (q, mid') ∧
        q.encode = normalForm family.registry v := by
  have hencode : r.encode = normalForm family.registry v := load_encode_eq hv h
  have hplain : (normalForm family.registry v).isPlain := isPlain_normalForm v hv
  have hfamily : r.form.family = family :=
    family.family_of_mem_registry r.form (load_inGrammar hv h).1.form_mem
  have hread (mid : Ident) : ∃ q mid',
      family.decode (normalForm family.registry v) mid = .ok (q, mid') ∧
        q.encode = normalForm family.registry v := by
    obtain ⟨q, mid', hq⟩ := (load_wellFormed hv h).exists_reloaded mid
    have hdecoded := hq.decoded
    rw [hfamily, hencode] at hdecoded
    exact ⟨q, mid', hdecoded, hq.encode_eq.trans hencode⟩
  have hfixed : normalForm family.registry (normalForm family.registry v) =
      normalForm family.registry v := by
    obtain ⟨q, mid, hq, hsame⟩ := hread next
    have hagain : q.encode = normalForm family.registry (normalForm family.registry v) :=
      load_encode_eq hplain hq
    exact hagain.symm.trans hsame
  exact ⟨hencode, hencode.trans, hplain, hfixed, hread⟩

def looseElement : Value :=
  .map [(.str "children", .list [.map [(.str "value", .str "x"), (.str "type", .str "text")]]),
    (.str "properties", .null), (.str "type", .str "element"),
    (.str "position", .map [(.str "end", .map [(.str "line", .int 1), (.str "column", .int 9)]),
      (.str "start", .map [(.str "offset", .null), (.str "column", .int 1),
        (.str "line", .int 1)])]), (.str "tag_name", .str "p")]

theorem encode_of_decode_looseElement : looseElement.isPlain ∧
    ∃ r next', Family.hast.decode looseElement 0 = .ok (r, next') ∧ r.encode =
      .map [(.str "type", .str "element"),
        (.str "position", .map [
          (.str "start", .map [(.str "line", .int 1), (.str "column", .int 1)]),
          (.str "end", .map [(.str "line", .int 1), (.str "column", .int 9)])]),
        (.str "children", .list [.map [(.str "type", .str "text"), (.str "value", .str "x")]]),
        (.str "tagName", .str "p"), (.str "properties", .map [])] := by
  have hplain : looseElement.isPlain := by cbv
  have hread : (Family.hast.decode looseElement 0).isOk := by cbv
  refine ⟨hplain, ?_⟩
  cases hd : Family.hast.decode looseElement 0 with
  | ok p =>
    obtain ⟨hencode, -⟩ := encode_of_decode hplain hd
    refine ⟨p.1, p.2, rfl, hencode.trans ?_⟩
    cbv
  | error w => simp [hd, Except.isOk, Except.toBool] at hread

end Family

end DocTree
