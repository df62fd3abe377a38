import DocTree.Evolve
import DocTree.Proofs.Reading

/-!
Mappings after changes, and the stored fields of a record as a mapping. Main statements:
`Entries.get?_update_eq_some`, `Entries.Named.update`, `Entries.Named.get?_update`,
`Record.Sound.mem_entries` and `Record.baseEntries_eq`.
-/
namespace DocTree

theorem Value.str_equals (s : String) (v : Value) : (Value.str s).equals v = v.isText s := by
  cases v with
  | str t => simp [isText, eq_comm]
  | _ => simp [equals, isText]

namespace Entries

variable {es changes : Entries} {key : String} {k v w : Value}

theorem get?_insert_of_not_isText (h : ¬ k.isText key) :
    (es.insert k v).get? key = es.get? key := by
  have hreplace (es : Entries) : (es.replace k v).get? key = es.get? key := by
    induction es with
    | nil => rfl
    | cons e es ih =>
      rw [replace, List.map_cons, get?_cons, get?_cons, ← ih]
      by_cases he : e.1.isText key
      · have hne : e.1.equals k = false := by
          rw [Value.isText_iff.1 he, Value.str_equals]
          simpa using h
        simp only [hne, Bool.false_eq_true, if_false, replace]
      · have hkeep : (if e.1.equals k then (e.1, v) else e).1 = e.1 := by
          split <;> rfl
        rw [hkeep, if_neg he, if_neg he]
        rfl
  unfold insert
  split
  · exact hreplace es
  · rw [get?_append, get?_cons, if_neg h]
    simp

theorem get?_insert_eq_some (h : (es.insert k v).get? key = some w) :
    k.isText key ∧ w = v ∨ ¬ k.isText key ∧ es.get? key = some w := by
  by_cases hk : k.isText key
  · rw [Value.isText_iff.1 hk, get?_insert, if_pos rfl] at h
    exact .inl ⟨hk, (Option.some.inj h).symm⟩
  · rw [get?_insert_of_not_isText hk] at h
    exact .inr ⟨hk, h⟩

theorem get?_update_of_none (h : changes.get? key = none) :
    (update es changes).get? key = es.get? key := by
  induction changes generalizing es with
  | nil => rfl
  | cons e changes ih =>
    rw [get?_cons] at h
    by_cases hk : e.1.isText key
    · rw [if_pos hk] at h
      cases h
    · rw [if_neg hk] at h
      exact (ih h).trans (get?_insert_of_not_isText hk)

/-- What stands under a text after changes comes from a change, or was there before and no change
names the text. -/
theorem get?_update_eq_some (h : (update es changes).get? key = some w) :
    (∃ e ∈ changes, e.2 = w) ∨ changes.contains key = false ∧ es.get? key = some w := by
  induction changes generalizing es with
  | nil => exact .inr ⟨rfl, h⟩
  | cons e changes ih =>
    rcases ih h with ⟨c, hc, rfl⟩ | ⟨hno, hget⟩
    · exact .inl ⟨c, List.mem_cons_of_mem e hc, rfl⟩
    · rcases get?_insert_eq_some hget with ⟨-, rfl⟩ | ⟨hk, hget⟩
      · exact .inl ⟨e, List.mem_cons_self, rfl⟩
      · have hcons : contains (e :: changes) key = contains changes key := by
          rw [contains, get?_cons, if_neg hk, contains]
        exact .inr ⟨hcons.trans hno, hget⟩

def Named (es : Entries) (names : List String) : Prop :=
  es.map Prod.fst = names.map .str

variable {names changed : List String}

theorem Named.contains_iff (h : es.Named names) : es.contains key ↔ key ∈ names := by
  rw [Entries.contains_iff, h, List.mem_map_of_injective fun _ _ => Value.str.inj]

theorem Named.get?_eq_none_iff (h : es.Named names) : es.get? key = none ↔ key ∉ names := by
  rw [← h.contains_iff, Bool.not_eq_true, contains_eq_false_iff]

theorem Named.exists_of_cons {e : Value × Value} (h : Named (e :: es) names) :
    ∃ name rest, names = name :: rest ∧ e.1 = .str name ∧ Named es rest := by
  cases names with
  | nil => cases h
  | cons name rest =>
    obtain ⟨hname, hrest⟩ := List.cons.inj h
    exact ⟨name, rest, rfl, hname, hrest⟩

theorem Named.insert (h : es.Named names) (key : String) (v : Value) :
    (es.insert (.str key) v).Named (if key ∈ names then names else names ++ [key]) := by
  have hany : (es.any fun e => e.1.equals (.str key)) = true ↔ key ∈ names := by
    rw [← h.contains_iff, Entries.contains_iff]
    simp [Value.isText_iff]
  have hreplace : (es.replace (.str key) v).map Prod.fst = es.map Prod.fst := by
    rw [replace, List.map_map]
    refine List.map_congr_left fun e _ => ?_
    show (if e.1.equals (.str key) then (e.1, v) else e).1 = e.1
    split <;> rfl
  unfold Entries.insert Named
  by_cases hk : key ∈ names
  · rw [if_pos (hany.2 hk), if_pos hk, hreplace, h]
  · rw [if_neg (mt hany.1 hk), if_neg hk, List.map_append, List.map_append, h]
    rfl

/-- Changed keys keep their places and new ones follow in the order of the changes. -/
theorem Named.update (h : es.Named names) (hc : changes.Named changed) (hn : changed.Nodup) :
    (update es changes).Named (names ++ changed.filter (· ∉ names)) := by
  induction changes generalizing es names changed with
  | nil =>
    obtain rfl : changed = [] := List.map_eq_nil_iff.1 hc.symm
    rwa [List.filter_nil, List.append_nil]
  | cons e changes ih =>
    obtain ⟨name, rest, rfl, he, hrest⟩ := hc.exists_of_cons
    obtain ⟨hname, hn⟩ := List.nodup_cons.1 hn
    have hinsert := ih (h.insert name e.2) hrest hn
    rw [← he] at hinsert
    by_cases hmem : name ∈ names
    · rw [if_pos hmem] at hinsert
      rwa [List.filter_cons_of_neg (by simpa using hmem)]
    · rw [if_neg hmem, List.append_assoc] at hinsert
      have hsame : rest.filter (· ∉ names ++ [name]) = rest.filter (· ∉ names) := by
        refine List.filter_congr fun k hk => ?_
        have hne : k ≠ name := fun hkn => hname (hkn ▸ hk)
        simp [hne]
      rw [hsame] at hinsert
      rwa [List.filter_cons_of_pos (by simpa using hmem)]

theorem nodup_changed (hn : names.Nodup) (hc : changed.Nodup) :
    (names ++ changed.filter (· ∉ names)).Nodup := by
  refine List.nodup_append.2 ⟨hn, hc.filter _, ?_⟩
  rintro name hname _ hother rfl
  simp [hname] at hother

/-- What stands under a text after changes is what they give for it, and else what was there. -/
theorem Named.get?_update (hc : changes.Named changed) (hn : changed.Nodup) :
    (Entries.update es changes).get? key = (changes.get? key).or (es.get? key) := by
  induction changes generalizing es changed with
  | nil => rfl
  | cons e changes ih =>
    obtain ⟨name, rest, rfl, he, hrest⟩ := hc.exists_of_cons
    obtain ⟨hname, hn⟩ := List.nodup_cons.1 hn
    have hstep : (Entries.update es (e :: changes)).get? key =
        (get? changes key).or ((es.insert e.1 e.2).get? key) := ih hrest hn
    rw [hstep, he, get?_insert, get?_cons, he, Value.isText_str]
    by_cases hk : name = key
    · subst hk
      have hnone : get? changes name = none := hrest.get?_eq_none_iff.2 hname
      simp [hnone]
    · simp [hk]

end Entries

namespace Record

variable {r : Record}

theorem Sound.fields_eq (h : r.Sound) :
    r.fields = r.form.specs.map fun s => (s.field, r.get s.field) :=
  fields_eq_map r.form.nodup_fields h.fields

theorem Sound.exists_spec_of_mem (h : r.Sound) {p : Field × Value} (hp : p ∈ r.fields) :
    ∃ s ∈ r.form.specs, s.field = p.1 ∧ r.get s.field = p.2 := by
  rw [h.fields_eq] at hp
  obtain ⟨s, hs, rfl⟩ := List.mem_map.1 hp
  exact ⟨s, hs, rfl, rfl⟩

theorem Sound.exists_spec (h : r.Sound) {f : Field} (hf : r.get f ≠ .null) :
    ∃ s ∈ r.form.specs, s.field = f := by
  cases hl : r.fields.lookup f with
  | none => simp [get, get?, hl] at hf
  | some v =>
    obtain ⟨before, after, he, -⟩ := List.lookup_eq_some_iff.1 hl
    have hp : (f, v) ∈ r.fields := by simp [he]
    obtain ⟨s, hs, hsf, -⟩ := h.exists_spec_of_mem hp
    exact ⟨s, hs, hsf⟩

/-- The labelled entries of a node are its fields, each with the value that it stores. -/
theorem Sound.mem_entries (h : r.Sound) {key : String} {v : Value}
    (hm : (.str key, v) ∈ r.entries) :
    ∃ s ∈ r.form.specs, s.field.label = key ∧ r.get s.field = v := by
  obtain ⟨⟨f, v'⟩, hp, he⟩ := List.mem_map.1 hm
  obtain ⟨hkey, rfl⟩ := Prod.mk.inj he
  obtain ⟨s, hs, rfl, hget⟩ := h.exists_spec_of_mem hp
  exact ⟨s, hs, Value.str.inj hkey, hget⟩

theorem checkStored_eq_ok (h : r.fields.map Prod.fst = r.form.specs.map FieldSpec.field) :
    r.checkStored = .ok () := by
  have hstored : ∀ s ∈ r.form.specs, ∃ v, r.get? s.field = some v := by
    intro s hs
    refine Option.isSome_iff_exists.1 (Option.isSome_iff_ne_none.2 fun hnone => ?_)
    have hmem : s.field ∈ r.fields.map Prod.fst := h ▸ List.mem_map_of_mem hs
    obtain ⟨p, hp, he⟩ := List.mem_map.1 hmem
    simpa [he] using List.lookup_eq_none_iff.1 hnone p hp
  unfold checkStored
  generalize r.form.specs = specs at hstored
  induction specs with
  | nil => rfl
  | cons s specs ih =>
    obtain ⟨⟨v, hv⟩, hspecs⟩ := List.forall_mem_cons.1 hstored
    rw [List.forM, Value.attribute_of_get? hv]
    exact ih hspecs

theorem baseEntries_eq (h : r.fields.map Prod.fst = r.form.specs.map FieldSpec.field)
    (changes : Entries) : r.baseEntries changes =
      if r.isBranch && !changes.contains "children" then do
        let copies ← r.copyChildren
        return r.entries.map fun e => if e.1.isText "children" then (e.1, .tuple copies) else e
      else pure r.entries := by
  unfold baseEntries
  rw [checkStored_eq_ok h]
  rfl

theorem copyChildren_eq {xs : List Value} (h : r.get .children = .tuple xs) :
    r.copyChildren = xs.mapM Value.copyMember := by
  rw [copyChildren, h]
  rfl

end Record

end DocTree
