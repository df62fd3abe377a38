import DocTree.Proofs.Acceptance

/-!
One more field among the entries of a node. A field that has one key only, given anywhere among
entries from which a node is accepted without it, leaves the other fields as they are; so the field
alone decides whether the node is built, and why it is not. Main statements:
`exists_new_of_gives_around` and `new_eq_error_of_accept_around`.
-/
namespace DocTree

section Keys

variable {before after : Entries} {key other : String} {f : Field}

theorem Entries.get?_left_of_append (h : (before ++ after).get? key = none) :
    before.get? key = none := by
  rw [get?_append] at h
  exact (Option.or_eq_none_iff.1 h).1

theorem Entries.get?_around (before after : Entries) (v : Value) (h : other ≠ key) :
    get? (before ++ (.str key, v) :: after) other = get? (before ++ after) other := by
  rw [get?_append, get?_append, get?_cons, if_neg (by simpa using h.symm)]

theorem Entries.get?_same_around (hnone : before.get? key = none) (after : Entries) (v : Value) :
    get? (before ++ (.str key, v) :: after) key = some v := by
  rw [get?_append, hnone, get?_cons, if_pos (Value.isText_iff.2 rfl)]
  rfl

theorem Field.find?_around (before after : Entries) (v : Value) (hf : key ∉ f.keys) :
    f.find? (before ++ (.str key, v) :: after) = f.find? (before ++ after) := by
  unfold find?
  generalize f.keys = keys at hf
  induction keys with
  | nil => rfl
  | cons k keys ih =>
    obtain ⟨hk, hrest⟩ := not_or.1 (mt List.mem_cons.2 hf)
    rw [List.findSome?_cons, List.findSome?_cons, Entries.get?_around before after v (Ne.symm hk),
      ih hrest]

theorem Field.find?_same_around (hkeys : f.keys = [key]) (hnone : before.get? key = none)
    (after : Entries) (v : Value) :
    f.find? (before ++ (.str key, v) :: after) = some (key, v) := by
  rw [find?, hkeys, List.findSome?_singleton, Entries.get?_same_around hnone]
  rfl

end Keys

section New

variable {form : Form} {before after : Entries} {s t : FieldSpec} {key : String} {next : Ident}
  {r : Record} {v stored : Value} {w : Violation}

theorem FieldSpec.Takes.of_find?_eq {place : Form → Value → Except Violation Record}
    {es es' : Entries} (h : s.Takes form place es v) (hf : s.field.find? es' = s.field.find? es) :
    s.Takes form place es' v := by
  cases h with
  | default hnone hd => exact .default (hf.trans hnone) hd
  | null hfind hn => exact .null (hf.trans hfind) hn
  | given hfind hn hg => exact .given (hf.trans hfind) hn hg

/-- The faults of the structure come before the errors of fields: if one field has such a fault
and no other has, it is the answer. -/
theorem readFields_eq_error {accept : Rule → Value → Except Violation Verdict} {es : Entries}
    {specs : List FieldSpec} (hs : s ∈ specs) (hread : s.read accept es = .error w)
    (hothers : ∀ t ∈ specs, t ≠ s → ∃ verdict, t.read accept es = .ok verdict) :
    readFields accept es specs = .error w := by
  obtain ⟨before, after, rfl, hbefore⟩ := List.eq_append_cons_of_mem hs
  refine readFields_eq_error_iff.2 ⟨before, s, after, rfl, fun t ht w' hw => ?_, hread⟩
  obtain ⟨verdict, hverdict⟩ :=
    hothers t (List.mem_append_left _ ht) fun hts => hbefore (hts ▸ ht)
  cases hw.symm.trans hverdict

theorem check_eq_error_of_read {id : Ident} {es : Entries}
    (hshape : checkShape form es = .ok ())
    (hread : readFields (Rule.accept form (checkPlace id)) es form.specs = .error w) :
    check form id (.map es) = .error w := by
  change (assemble form id (Rule.accept form (checkPlace id)) es >>= fun r =>
    checkCoupled form r >>= fun _ => pure r) = _
  rw [assemble, hshape, hread]
  rfl

theorem not_mem_keys_of_ne (hs : s ∈ form.specs) (hkeys : s.field.keys = [key])
    (ht : t ∈ form.specs) (hne : t ≠ s) : key ∉ t.field.keys := by
  intro hmem
  have hfield := form.field_of_key t ht s hs key hmem (hkeys ▸ List.mem_singleton_self key)
  exact hne (List.inj_on_of_nodup_map form.nodup_fields ht hs hfield)

theorem unknownKeys_around (hs : s ∈ form.specs) (hkeys : s.field.keys = [key])
    (hnone : (before ++ after).get? key = none)
    (hknown : unknownKeys form.specs (before ++ after) = []) (v : Value) :
    unknownKeys form.specs (before ++ (.str key, v) :: after) = [] := by
  have hfind := Field.find?_same_around hkeys (Entries.get?_left_of_append hnone) after v
  rw [unknownKeys_eq_nil_iff] at hknown ⊢
  intro k hk
  rw [List.map_append, List.map_cons, List.mem_append, List.mem_cons] at hk
  by_cases hkey : k = .str key
  · exact ⟨s, hs, key, v, hkey, hfind⟩
  have hk : k ∈ (before ++ after).map Prod.fst := by
    rw [List.map_append, List.mem_append]
    exact hk.imp_right fun hk => hk.resolve_left hkey
  obtain ⟨t, ht, other, w, rfl, hf⟩ := hknown k hk
  have hne : t ≠ s := by
    rintro rfl
    obtain ⟨hother, hget⟩ := Field.find?_eq_some hf
    obtain rfl : other = key := by simpa [hkeys] using hother
    exact hkey rfl
  exact ⟨t, ht, other, w, rfl,
    by rw [Field.find?_around before after v (not_mem_keys_of_ne hs hkeys ht hne), hf]⟩

theorem shape_around (hs : s ∈ form.specs) (hkeys : s.field.keys = [key])
    (h : form.isNode → form.kind?.isSome ∧
      ((before ++ after).contains "children" → form.shape = .branch)) (v : Value) :
    form.isNode → form.kind?.isSome ∧
      ((before ++ (.str key, v) :: after : Entries).contains "children" →
        form.shape = .branch) := by
  refine fun hn => ⟨(h hn).1, fun hc => ?_⟩
  by_cases hchildren : key = "children"
  · have hfield : s.field = .children := by
      by_contra hne
      exact Field.children_not_mem_keys hne (by simp [hkeys, hchildren])
    exact form.branch_of_children s hs hfield
  · apply (h hn).2
    rwa [Entries.contains, Entries.get?_around before after v (Ne.symm hchildren)] at hc

/-- A value that its rule accepts may be added to fields that are accepted without it, if nothing
is coupled with it. -/
theorem exists_new_of_gives_around (hn : form.isNode) (hs : s ∈ form.specs)
    (hkeys : s.field.keys = [key]) (hfree : key ≠ "ordered" ∧ key ≠ "start")
    (hnone : (before ++ after).get? key = none)
    (h : check form next (.map (before ++ after)) = .ok r) (hnull : ¬ (s.nullable ∧ v = .null))
    (hv : s.rule.Gives form (checkPlace next) v stored) :
    ∃ q, form.new (before ++ (.str key, v) :: after) next = .ok (q, next + 1) ∧
      q.form = form ∧ q.get s.field = stored := by
  have ha : Assembled form next (checkPlace next) (before ++ after) r :=
    checkWith_map_eq_ok_iff.1 h
  have hfind := Field.find?_same_around hkeys (Entries.get?_left_of_append hnone) after v
  have htakes : ∀ t ∈ form.specs, ∃ w,
      t.Takes form (checkPlace next) (before ++ (.str key, v) :: after) w ∧
        (t = s → w = stored) ∧
        t.Takes form (checkPlace next) (before ++ (.str key, v) :: after) w := by
    intro t ht
    by_cases hts : t = s
    · subst hts
      exact ⟨stored, .given hfind hnull hv, fun _ => rfl, .given hfind hnull hv⟩
    · have htakes := (ha.takes t ht).of_find?_eq
        (Field.find?_around before after v (not_mem_keys_of_ne hs hkeys ht hts))
      exact ⟨_, htakes, fun he => absurd he hts, htakes⟩
  obtain ⟨q, hq, hstored⟩ := exists_assembled next
    (shape_around hs hkeys ha.shape v) (unknownKeys_around hs hkeys hnone ha.known v)
    htakes fun q _ _ htakes => by
      rw [checkCoupled_iff_spelt hn fun t ht => (htakes t ht).2,
        Entries.get?_around before after v hfree.1.symm,
        Entries.get?_around before after v hfree.2.symm]
      exact (checkCoupled_iff_spelt hn ha.takes).1 ha.coupled
  exact ⟨q, create_eq_ok_iff.2 ⟨checkWith_map_eq_ok_iff.2 hq, rfl⟩, hq.form_eq,
    (hstored s hs).1 rfl⟩

/-- Beside fields that are accepted, a fault of the structure below one more is why a node is
refused. -/
theorem new_eq_error_of_accept_around (hs : s ∈ form.specs) (hkeys : s.field.keys = [key])
    (hnone : before.get? key = none) (h : check form next (.map (before ++ after)) = .ok r)
    (hk : form.kind?.isSome) (hnull : ¬ (s.nullable ∧ v = .null))
    (hv : s.rule.accept form (checkPlace next) v = .error w) :
    form.new (before ++ (.str key, v) :: after) next = .error w := by
  have ha : Assembled form next (checkPlace next) (before ++ after) r :=
    checkWith_map_eq_ok_iff.1 h
  have hread : s.read (Rule.accept form (checkPlace next)) (before ++ (.str key, v) :: after) =
      .error w := by
    have hnot : ¬ (s.nullable && v.isNull) = true := by
      rwa [Bool.and_eq_true, Value.isNull_iff]
    rw [FieldSpec.read, Field.find?_same_around hkeys hnone]
    dsimp only
    rw [if_neg hnot, hv]
    rfl
  have hothers : ∀ t ∈ form.specs, t ≠ s → ∃ verdict,
      t.read (Rule.accept form (checkPlace next)) (before ++ (.str key, v) :: after) =
        .ok verdict := by
    intro t ht hne
    have htakes := (ha.takes t ht).of_find?_eq
      (Field.find?_around before after v (not_mem_keys_of_ne hs hkeys ht hne))
    exact ⟨_, (FieldSpec.takes_iff fun _ => hk).2 htakes⟩
  have hcheck : check form next (.map (before ++ (.str key, v) :: after)) = .error w :=
    check_eq_error_of_read (checkShape_eq_ok_iff.2 (shape_around hs hkeys ha.shape v))
      (readFields_eq_error hs hread hothers)
  rw [Form.new, create, hcheck]
  rfl

end New

end DocTree
