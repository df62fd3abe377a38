import DocTree.Proofs.WellFormed
import DocTree.Value.Alike

/-!
Values that differ in identities only. They are equal, and they may be stored and may stand in the
same places. Main statements: `Value.equals_refl`, `Record.Alike.equals` and `Sound.of_alike`.
-/
namespace DocTree

theorem membersAmong_of_forall {xs ys : List Value} (h : ∀ x ∈ xs, ∃ y ∈ ys, x.equals y) :
    membersAmong xs ys := by
  induction xs with
  | nil => simp [membersAmong]
  | cons x xs ih =>
    obtain ⟨hx, hxs⟩ := List.forall_mem_cons.1 h
    rw [membersAmong, Bool.and_eq_true, List.any_eq_true]
    exact ⟨hx, ih hxs⟩

theorem entriesAmong_of_forall {es fs : Entries}
    (h : ∀ e ∈ es, ∃ f ∈ fs, e.1.equals f.1 ∧ e.2.equals f.2) : entriesAmong es fs := by
  induction es with
  | nil => simp [entriesAmong]
  | cons e es ih =>
    obtain ⟨⟨f, hf, hk, hv⟩, hes⟩ := List.forall_mem_cons.1 h
    rw [entriesAmong, Bool.and_eq_true, List.any_eq_true]
    exact ⟨⟨f, hf, by rw [hk, hv, Bool.and_self]⟩, ih hes⟩

mutual

/-- Every value equals itself, a not-a-number and a stream included. -/
theorem Value.equals_refl (v : Value) : v.equals v := by
  cases v with
  | float x => simp [Value.equals]
  | list xs | tuple xs =>
    rw [Value.equals]
    exact equalItems_refl xs
  | set xs =>
    have hall := forall_equals_refl xs
    simp only [Value.equals, decide_true, Bool.true_and]
    exact membersAmong_of_forall fun x hx => ⟨x, hx, hall x hx⟩
  | map es =>
    have hall := forall_entries_refl es
    simp only [Value.equals, decide_true, Bool.true_and]
    exact entriesAmong_of_forall fun e he => ⟨e, he, hall e he⟩
  | record r =>
    rw [Value.equals]
    exact Record.equals_refl r
  | bool b => cases b <;> simp [Value.equals, Value.isInteger]
  | _ => simp [Value.equals, Value.isInteger]

theorem Record.equals_refl (r : Record) : r.equals r := by
  obtain ⟨id, form, fields⟩ := r
  rw [Record.equals, decide_eq_true rfl, Bool.true_and]
  exact equalFields_refl fields

theorem equalItems_refl (xs : List Value) : equalItems xs xs := by
  cases xs with
  | nil => simp [equalItems]
  | cons x xs => rw [equalItems, Value.equals_refl x, equalItems_refl xs, Bool.and_self]

theorem forall_equals_refl (xs : List Value) : ∀ x ∈ xs, x.equals x := by
  cases xs with
  | nil => simp
  | cons x xs => exact List.forall_mem_cons.2 ⟨x.equals_refl, forall_equals_refl xs⟩

theorem forall_entries_refl (es : List (Value × Value)) :
    ∀ e ∈ es, e.1.equals e.1 ∧ e.2.equals e.2 := by
  match es with
  | [] => simp
  | (k, v) :: es =>
    exact List.forall_mem_cons.2 ⟨⟨k.equals_refl, v.equals_refl⟩, forall_entries_refl es⟩

theorem equalFields_refl (fields : List (Field × Value)) : equalFields fields fields := by
  match fields with
  | [] => simp [equalFields]
  | (f, v) :: fields =>
    rw [equalFields, Value.equals_refl v, equalFields_refl fields, decide_eq_true rfl]
    rfl

end

mutual

theorem Value.Alike.equals {v w : Value} (h : v.Alike w) : v.equals w := by
  cases h with
  | same => exact Value.equals_refl v
  | record h =>
    rw [Value.equals]
    exact h.equals
  | tuple h =>
    rw [Value.equals]
    exact h.equalItems

theorem Record.Alike.equals {r s : Record} (h : r.Alike s) : r.equals s := by
  cases h with
  | mk h =>
    rw [Record.equals, decide_eq_true rfl, Bool.true_and]
    exact h.equalFields

theorem AlikeItems.equalItems {xs ys : List Value} (h : AlikeItems xs ys) :
    equalItems xs ys := by
  cases h with
  | nil => simp [DocTree.equalItems]
  | cons hx hxs => rw [DocTree.equalItems, hx.equals, hxs.equalItems, Bool.and_self]

theorem AlikeFields.equalFields {fields fields' : List (Field × Value)}
    (h : AlikeFields fields fields') : equalFields fields fields' := by
  cases h with
  | nil => simp [DocTree.equalFields]
  | cons hv hrest =>
    rw [DocTree.equalFields, hv.equals, hrest.equalFields, decide_eq_true rfl]
    rfl

end

section OfAlike

variable {v w : Value}

theorem Value.Alike.eq (h : v.Alike w) (hr : ∀ r, w ≠ .record r) (ht : ∀ xs, w ≠ .tuple xs) :
    v = w := by
  cases h with
  | same => rfl
  | record => exact absurd rfl (hr _)
  | tuple => exact absurd rfl (ht _)

theorem Value.Alike.eq_left (h : v.Alike w) (hr : ∀ r, v ≠ .record r) (ht : ∀ xs, v ≠ .tuple xs) :
    v = w := by
  cases h with
  | same => rfl
  | record => exact absurd rfl (hr _)
  | tuple => exact absurd rfl (ht _)

theorem Value.Alike.isNull_eq (h : v.Alike w) : v.isNull = w.isNull := by
  cases h <;> rfl

theorem Place.offsetValue_eq_of_alike {p : Place} (h : v.Alike p.offsetValue) :
    v = p.offsetValue := by
  obtain ⟨line, column, _ | offset⟩ := p <;> exact h.eq nofun nofun

theorem Value.IsPointAt.of_alike {p : Place} (h : v.Alike w) (hw : w.IsPointAt p) :
    v.IsPointAt p := by
  obtain ⟨⟨id, rfl⟩, hp⟩ := hw
  cases h with
  | same => exact ⟨⟨id, rfl⟩, hp⟩
  | record h =>
    cases h with
    | mk h =>
      cases h with
      | cons hline h =>
        cases h with
        | cons hcolumn h =>
          cases h with
          | cons hoffset h =>
            cases h
            rw [hline.eq nofun nofun, hcolumn.eq nofun nofun, Place.offsetValue_eq_of_alike hoffset]
            exact ⟨⟨_, rfl⟩, hp⟩

theorem Value.IsPosition.of_alike (h : v.Alike w) (hw : w.IsPosition) : v.IsPosition := by
  obtain ⟨id, first, last, p, q, rfl, hp, hq, ho⟩ := hw
  cases h with
  | same => exact ⟨id, first, last, p, q, rfl, hp, hq, ho⟩
  | record h =>
    cases h with
    | mk h =>
      cases h with
      | cons hstart h =>
        cases h with
        | cons hstop h =>
          cases h
          exact ⟨_, _, _, p, q, rfl, hp.of_alike hstart, hq.of_alike hstop, ho⟩

theorem Rule.Stores.of_alike {form : Form} {rule : Rule} (h : v.Alike w)
    (hw : rule.Stores form w) : rule.Stores form v := by
  cases rule with
  | place f =>
    cases f with
    | position => exact Value.IsPosition.of_alike h hw
    | _ => exact hw.imp fun p hp => hp.of_alike h
  | children =>
    obtain ⟨xs, rfl⟩ := hw
    cases h with
    | same => exact ⟨xs, rfl⟩
    | tuple => exact ⟨_, rfl⟩
  | properties | metadata =>
    obtain ⟨es, rfl, hes⟩ := hw
    rw [h.eq nofun nofun]
    exact ⟨es, rfl, hes⟩
  | kind =>
    obtain ⟨kind, hk, rfl⟩ := hw
    rw [h.eq nofun nofun]
    exact ⟨kind, hk, rfl⟩
  | text | integer =>
    obtain ⟨x, rfl, hx⟩ := hw
    rw [h.eq nofun nofun]
    exact ⟨x, rfl, hx⟩
  | flag =>
    obtain ⟨b, rfl⟩ := hw
    rw [h.eq nofun nofun]
    exact ⟨b, rfl⟩

end OfAlike

theorem AlikeFields.refl (fields : List (Field × Value)) : AlikeFields fields fields := by
  induction fields with
  | nil => exact .nil
  | cons p fields ih => exact .cons (.same p.2) ih

theorem AlikeFields.map_fst {fields fields' : List (Field × Value)}
    (h : AlikeFields fields fields') : fields.map Prod.fst = fields'.map Prod.fst := by
  cases h with
  | nil => rfl
  | cons _ h => rw [List.map_cons, List.map_cons, h.map_fst]

theorem AlikeFields.lookup {fields fields' : List (Field × Value)}
    (h : AlikeFields fields fields') (f : Field) :
    ((fields.lookup f).getD .null).Alike ((fields'.lookup f).getD .null) := by
  cases h with
  | nil => exact .same .null
  | @cons g _ _ _ _ hv h =>
    rw [List.lookup_cons, List.lookup_cons]
    cases f == g with
    | true => exact hv
    | false => exact h.lookup f

namespace Record

variable {q r : Record}

theorem Alike.form_eq (h : q.Alike r) : q.form = r.form := by
  cases h
  rfl

theorem Alike.map_fst_fields (h : q.Alike r) : q.fields.map Prod.fst = r.fields.map Prod.fst := by
  cases h with
  | mk h => exact h.map_fst

theorem Alike.get (h : q.Alike r) (f : Field) : (q.get f).Alike (r.get f) := by
  cases h with
  | mk h => exact h.lookup f

theorem alike_of_get (hform : q.form = r.form)
    (hq : q.fields.map Prod.fst = r.form.specs.map FieldSpec.field)
    (hr : r.fields.map Prod.fst = r.form.specs.map FieldSpec.field)
    (h : ∀ s ∈ r.form.specs, (q.get s.field).Alike (r.get s.field)) : q.Alike r := by
  have hmap (specs : List FieldSpec) (hs : ∀ s ∈ specs, (q.get s.field).Alike (r.get s.field)) :
      AlikeFields (specs.map fun s => (s.field, q.get s.field))
        (specs.map fun s => (s.field, r.get s.field)) := by
    induction specs with
    | nil => exact .nil
    | cons s specs ih =>
      obtain ⟨hhead, htail⟩ := List.forall_mem_cons.1 hs
      exact .cons hhead (ih htail)
  have halike := hmap r.form.specs h
  rw [← fields_eq_map r.form.nodup_fields hq, ← fields_eq_map r.form.nodup_fields hr] at halike
  obtain ⟨i, form, fields⟩ := q
  obtain ⟨j, form', fields'⟩ := r
  obtain rfl : form = form' := hform
  exact .mk halike

theorem Sound.of_alike (h : q.Alike r) (hr : r.Sound) : q.Sound := by
  constructor
  · rw [h.map_fst_fields, h.form_eq]
    exact hr.fields
  · rw [h.form_eq]
    intro s hs
    have hv := h.get s.field
    rcases hr.stores s hs with ⟨hn, hnull⟩ | hstores
    · rw [hnull] at hv
      exact .inl ⟨hn, hv.eq nofun nofun⟩
    · exact .inr (hstores.of_alike hv)
  · intro hlist hordered n hn
    have ho := h.get .ordered
    have hs := h.get .start
    rw [hordered] at ho
    rw [hn] at hs
    rw [h.form_eq] at hlist
    exact hr.start hlist (ho.eq_left nofun nofun).symm n (hs.eq_left nofun nofun).symm

theorem FitsUnder.of_alike {holder : Form} {v w : Value} (h : v.Alike w)
    (hw : FitsUnder holder w) : FitsUnder holder v := by
  obtain ⟨child, kind, rfl, hn, hf, hk, hm⟩ := hw
  cases h with
  | same => exact ⟨child, kind, rfl, hn, hf, hk, hm⟩
  | @record q _ h =>
    have hkind : q.kind = child.kind := by
      have hget := h.get .kind
      change (q.get .kind).Alike child.kind at hget
      rw [hk] at hget ⊢
      exact hget.eq nofun nofun
    exact ⟨q, kind, rfl, h.form_eq ▸ hn, h.form_eq ▸ hf, hkind ▸ hk, hm⟩

end Record

theorem AlikeItems.fitsUnder {holder : Form} {xs ys : List Value} (h : AlikeItems xs ys)
    (hy : ∀ y ∈ ys, Record.FitsUnder holder y) : ∀ x ∈ xs, Record.FitsUnder holder x := by
  cases h with
  | nil => exact hy
  | cons hx hxs =>
    obtain ⟨hfirst, hrest⟩ := List.forall_mem_cons.1 hy
    exact List.forall_mem_cons.2 ⟨hfirst.of_alike hx, hxs.fitsUnder hrest⟩

end DocTree
