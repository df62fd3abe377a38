import DocTree.Encode
import DocTree.Proofs.WellFormed

/-!
Written nodes as entries. Every field that does not hold null is written under its preferred key
and nothing else is, so reading a field finds exactly what was written for it. Main statements:
`Record.Sound.encode_eq`, `get?_written` and `find?_written`.
-/
namespace DocTree

namespace Entries

variable {es : Entries} {key : String} {v : Value}

def texts (es : Entries) : List String :=
  es.filterMap fun e => e.1.text?

theorem texts_eq (es : Entries) : texts es = (es.map Prod.fst).filterMap Value.text? := by
  rw [List.filterMap_map]
  rfl

theorem get?_eq_some_iff (hn : es.texts.Nodup) :
    es.get? key = some v ↔ (.str key, v) ∈ es := by
  refine ⟨mem_of_get?, fun hm => ?_⟩
  induction es with
  | nil => simp at hm
  | cons e es ih =>
    rw [get?_cons]
    rcases List.mem_cons.1 hm with rfl | hm
    · rw [if_pos (Value.isText_iff.2 rfl)]
    · have hmem : key ∈ texts es := List.mem_filterMap.2 ⟨_, hm, rfl⟩
      have hne : ¬ e.1.isText key := by
        intro hk
        have htexts : texts (e :: es) = key :: texts es := by
          rw [texts, List.filterMap_cons, Value.isText_iff.1 hk]
          rfl
        rw [htexts, List.nodup_cons] at hn
        exact hn.1 hmem
      rw [if_neg hne]
      refine ih ?_ hm
      exact hn.sublist ((List.sublist_cons_self e es).filterMap _)

end Entries

/-- What is written for the value that a field stores. -/
def Field.written (f : Field) (v : Value) : Value :=
  if f = .children then .list (encodeItems v.items)
  else match v with
    | .record r => r.dump
    | v => v

theorem encodeFields_eq {fields : List (Field × Value)}
    (h : ∀ p ∈ fields, p.1 = .children → ∃ xs, p.2 = .tuple xs) :
    encodeFields fields = fields.filterMap fun p =>
      if p.2.isNull then none else some (.str p.1.key, p.1.written p.2) := by
  induction fields with
  | nil => simp [encodeFields]
  | cons p fields ih =>
    obtain ⟨f, v⟩ := p
    obtain ⟨hp, hrest⟩ := List.forall_mem_cons.1 h
    rw [List.filterMap_cons, ← ih hrest]
    by_cases hf : f = .children
    · obtain ⟨xs, rfl⟩ := hp hf
      subst hf
      simp [encodeFields, Value.isNull, Field.written, Field.key, Field.alias?, Field.label]
    · cases v <;> simp [encodeFields, Value.isNull, Field.written, hf]

namespace Record

variable {r : Record} {s : FieldSpec}

def written (r : Record) : Entries :=
  r.fields.filterMap fun p =>
    if p.2.isNull then none else some (.str p.1.key, p.1.written p.2)

/-- A record whose children are a tuple is written field by field. -/
theorem encode_eq (h : ∀ p ∈ r.fields, p.1 = .children → ∃ xs, p.2 = .tuple xs) :
    r.encode = .map r.written := by
  obtain ⟨id, form, fields⟩ := r
  rw [encode, encodeFields_eq h, written]

theorem Sound.encode_eq (h : r.Sound) : r.encode = .map r.written := by
  apply Record.encode_eq
  rintro ⟨f, v⟩ hp rfl
  obtain ⟨s, hs, hsf, rfl⟩ := h.exists_spec_of_mem hp
  have hb := r.form.branch_of_children s hs hsf
  exact ⟨r.children, by rw [← h.children_eq hb, hsf]⟩

theorem dumpFields_eq {fields : List (Field × Value)}
    (h : ∀ p ∈ fields, p.1.label = p.1.key ∧ p.1 ≠ .children) :
    dumpFields fields = fields.filterMap fun p =>
      if p.2.isNull then none else some (.str p.1.key, p.1.written p.2) := by
  induction fields with
  | nil => simp [dumpFields]
  | cons p fields ih =>
    obtain ⟨f, v⟩ := p
    obtain ⟨⟨hl, hc⟩, hrest⟩ := List.forall_mem_cons.1 h
    rw [List.filterMap_cons, ← ih hrest]
    cases v <;> simp_all [dumpFields, Value.isNull, Field.written]

theorem Sound.dump_eq (h : r.Sound) (hn : r.form.isNode = false) : r.dump = .map r.written := by
  have hlabel : ∀ p ∈ r.fields, p.1.label = p.1.key ∧ p.1 ≠ .children := by
    intro p hp
    obtain ⟨s, hs, hsf, -⟩ := h.exists_spec_of_mem hp
    rw [← hsf]
    exact r.form.label_eq_key hn s hs
  obtain ⟨id, form, fields⟩ := r
  rw [dump, dumpFields_eq hlabel, written]

theorem Sound.written_eq (h : r.Sound) : r.written = r.form.specs.filterMap fun s =>
    if (r.get s.field).isNull then none
    else some (.str s.field.key, s.field.written (r.get s.field)) := by
  rw [written, h.fields_eq, List.filterMap_map]
  rfl

theorem Sound.mem_written (h : r.Sound) {key : String} {w : Value} :
    (.str key, w) ∈ r.written ↔ ∃ s ∈ r.form.specs, r.get s.field ≠ .null ∧
      s.field.key = key ∧ s.field.written (r.get s.field) = w := by
  simp only [h.written_eq, List.mem_filterMap, ite_eq_iff, reduceCtorEq, and_false, false_or,
    Value.isNull_iff, Option.some.injEq, Prod.mk.injEq, Value.str.injEq, ne_eq]

theorem Sound.nodup_texts (h : r.Sound) : r.written.texts.Nodup := by
  have hsub (specs : List FieldSpec) : (Entries.texts (specs.filterMap fun s =>
      if (r.get s.field).isNull then none
      else some (.str s.field.key, s.field.written (r.get s.field)))).Sublist
        (specs.map fun s => s.field.key) := by
    induction specs with
    | nil => simp [Entries.texts]
    | cons s specs ih =>
      rw [List.filterMap_cons]
      split
      · exact ih.cons _
      · rename_i e he
        split at he
        · simp at he
        · obtain rfl := Option.some.inj he
          exact ih.cons_cons _
  rw [h.written_eq]
  exact r.form.nodup_key.sublist (hsub r.form.specs)

theorem Sound.get?_written (h : r.Sound) (hs : s ∈ r.form.specs) (hne : r.get s.field ≠ .null) :
    Entries.get? r.written s.field.key = some (s.field.written (r.get s.field)) := by
  rw [Entries.get?_eq_some_iff h.nodup_texts, h.mem_written]
  exact ⟨s, hs, hne, rfl, rfl⟩

/-- What is found for a field is what was written for it, and nothing for null. -/
theorem Sound.find?_written (h : r.Sound) (hs : s ∈ r.form.specs) :
    s.field.find? r.written = if (r.get s.field).isNull then none
      else some (s.field.key, s.field.written (r.get s.field)) := by
  split
  · rename_i hnull
    refine Field.find?_eq_none_iff.2 fun key hkey => ?_
    cases hw : Entries.get? r.written key with
    | none => rfl
    | some w =>
      obtain ⟨t, ht, hne, rfl, -⟩ := h.mem_written.1 (Entries.mem_of_get? hw)
      have hfield : t.field = s.field :=
        r.form.field_of_key t ht s hs t.field.key t.field.key_mem_keys hkey
      rw [hfield] at hne
      exact absurd (Value.isNull_iff.1 hnull) hne
  · rename_i hne
    exact Field.find?_of_get?_key (h.get?_written hs (mt Value.isNull_iff.2 hne))

theorem Sound.unknownKeys_written (h : r.Sound) : unknownKeys r.form.specs r.written = [] := by
  rw [unknownKeys_eq_nil_iff, List.forall_mem_map]
  intro e he
  rw [h.written_eq] at he
  obtain ⟨s, hs, he⟩ := List.mem_filterMap.1 he
  split at he
  · simp at he
  · rename_i hnull
    obtain rfl := Option.some.inj he
    exact ⟨s, hs, _, _, rfl, by rw [h.find?_written hs, if_neg hnull]⟩

theorem Sound.contains_written (h : r.Sound) (hc : Entries.contains r.written "children") :
    r.form.shape = .branch := by
  obtain ⟨w, hw⟩ := Option.isSome_iff_exists.1 hc
  obtain ⟨s, hs, -, hkey, -⟩ := h.mem_written.1 (Entries.mem_of_get? hw)
  refine r.form.branch_of_children s hs ?_
  by_contra hne
  exact Field.children_not_mem_keys hne (hkey ▸ s.field.key_mem_keys)

end Record

end DocTree
