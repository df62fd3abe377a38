import DocTree.Proofs.Matching
import DocTree.Proofs.Properties
import DocTree.Respelt

/-!
The order of keys does not count. Mappings of plain data are the same but for the order of their
entries if they have the same keys, and the same under each key but for the order of entries there.
So a field is found alike in both, and what is refused in the one is refused in the other, for a
reason of the same class. Main statements: `Reordered.equals`, `Reordered.shuffled`,
`FieldSpec.accept_reordered` and `ReorderedTidy.loadsAlike`.
-/
namespace DocTree

/-- Violations of the same class, which are reported alike under a condition. -/
structure Violation.SameClass (P : Prop) (v w : Violation) : Prop where
  faultClass : v.faultClass = w.faultClass
  alike : P → v.Alike w

/-- Errors in both lists or in neither, and the same ones under a condition. -/
structure SameErrors (P : Prop) (xs ys : List FieldError) : Prop where
  nil_iff : xs = [] ↔ ys = []
  eq : P → xs = ys

/-- The same keys in any order, with the same values but for the order of entries in these. -/
structure Entries.Shuffled (es fs : Entries) : Prop where
  keys : (es.map Prod.fst).Perm (fs.map Prod.fst)
  get? : ∀ key, Option.Rel Reordered (es.get? key) (fs.get? key)

structure ReorderedPlain (v w : Value) : Prop where
  reordered : Reordered v w
  left : v.isPlain
  right : w.isPlain

section Comparison

variable {P : Prop}

theorem SameErrors.refl (xs : List FieldError) : SameErrors P xs xs :=
  ⟨.rfl, fun _ => rfl⟩

theorem SameErrors.map {xs ys : List FieldError} (h : SameErrors P xs ys)
    (f : FieldError → FieldError) : SameErrors P (xs.map f) (ys.map f) where
  nil_iff := by rw [List.map_eq_nil_iff, List.map_eq_nil_iff, h.nil_iff]
  eq hp := by rw [h.eq hp]

theorem Comparison.sameClass (P : Prop) : Comparison (Violation.SameClass P) (SameErrors P) where
  of_alike h := ⟨h.faultClass, fun _ => h⟩
  refl := .refl
  append h h' := ⟨by rw [List.append_eq_nil_iff, List.append_eq_nil_iff, h.nil_iff, h'.nil_iff],
    fun hp => by rw [h.eq hp, h'.eq hp]⟩
  nil_iff h := h.nil_iff
  badFields form h := ⟨rfl, fun hp => h.eq hp ▸ .refl _⟩

end Comparison

section Data

variable {es fs : Entries} {v w : Value} {key : String} {f : Field}

theorem forall₂_of_reorderedItems {xs ys : List Value} (h : ReorderedItems xs ys) :
    List.Forall₂ Reordered xs ys := by
  cases h with
  | nil => exact .nil
  | cons hxy hrest => exact .cons hxy (forall₂_of_reorderedItems hrest)

theorem forall₂_of_reorderedEntries {es fs : List (Value × Value)} (h : ReorderedEntries es fs) :
    List.Forall₂ (fun e f => e.1 = f.1 ∧ Reordered e.2 f.2) es fs := by
  cases h with
  | nil => exact .nil
  | cons hxy hrest => exact .cons ⟨rfl, hxy⟩ (forall₂_of_reorderedEntries hrest)

mutual

/-- The order of entries does not count for equality. -/
theorem Reordered.equals {v w : Value} (h : Reordered v w) : v.equals w := by
  cases h with
  | same => exact v.equals_refl
  | list hitems =>
    rw [Value.equals]
    exact hitems.equals
  | @map es fs gs hentries hperm =>
    have hlength : es.length = gs.length :=
      (forall₂_of_reorderedEntries hentries).length_eq.trans hperm.length_eq
    rw [Value.equals, decide_eq_true hlength, Bool.true_and]
    apply entriesAmong_of_forall
    intro e he
    obtain ⟨f, hf, hkey, hvalue⟩ := hentries.equals e he
    exact ⟨f, hperm.mem_iff.1 hf, hkey ▸ e.1.equals_refl, hvalue⟩

theorem ReorderedItems.equals {xs ys : List Value} (h : ReorderedItems xs ys) :
    equalItems xs ys := by
  cases h with
  | nil => simp [equalItems]
  | cons hxy hrest => rw [equalItems, hxy.equals, hrest.equals, Bool.and_self]

theorem ReorderedEntries.equals {es fs : List (Value × Value)} (h : ReorderedEntries es fs) :
    ∀ e ∈ es, ∃ f ∈ fs, e.1 = f.1 ∧ e.2.equals f.2 := by
  cases h with
  | nil => exact fun _ he => absurd he List.not_mem_nil
  | cons hxy hrest =>
    rintro e he
    rcases List.mem_cons.1 he with rfl | he
    · exact ⟨_, .head _, rfl, hxy.equals⟩
    · obtain ⟨f, hf, hef⟩ := hrest.equals e he
      exact ⟨f, .tail _ hf, hef⟩

end

theorem Entries.get?_of_perm (h : es.Perm fs) (hn : es.texts.Nodup) (key : String) :
    es.get? key = fs.get? key := by
  have hfs : fs.texts.Nodup := (h.filterMap _).nodup_iff.1 hn
  refine Option.ext fun v => ?_
  rw [Entries.get?_eq_some_iff hn, Entries.get?_eq_some_iff hfs]
  exact h.mem_iff

theorem Reordered.shuffled (h : Reordered (.map es) (.map fs)) (hes : (Value.map es).isPlain) :
    es.Shuffled fs := by
  cases h with
  | same =>
    refine ⟨.refl _, fun key => ?_⟩
    cases es.get? key with
    | none => exact .none
    | some v => exact .some (.same v)
  | @map _ gs _ hentries hperm =>
    have hpairs := forall₂_of_reorderedEntries hentries
    have hkeys : es.map Prod.fst = gs.map Prod.fst := by
      rw [← List.forall₂_eq_eq_eq, List.forall₂_map_left_iff, List.forall₂_map_right_iff]
      exact hpairs.imp fun _ _ hef => hef.1
    refine ⟨hkeys ▸ hperm.map _, fun key => ?_⟩
    have htexts : Entries.texts gs = es.texts := by
      rw [Entries.texts_eq, Entries.texts_eq, hkeys]
    rw [← Entries.get?_of_perm hperm (htexts ▸ nodup_texts_of_isPlain hes)]
    clear hkeys htexts hperm hentries hes
    induction hpairs with
    | nil => exact .none
    | @cons e f es fs hef _ ih =>
      rw [Entries.get?_cons, Entries.get?_cons, hef.1]
      split
      · exact .some hef.2
      · exact ih

theorem ReorderedPlain.cases (h : ReorderedPlain v w) :
    v = w ∧ v.isScalar ∨
    (∃ xs ys, v = .list xs ∧ w = .list ys ∧ List.Forall₂ ReorderedPlain xs ys) ∨
    ∃ es fs : Entries, v = .map es ∧ w = .map fs ∧ es.Shuffled fs := by
  obtain ⟨hvw, hv, hw⟩ := h
  have hlist {xs ys : List Value} (hxs : (Value.list xs).isPlain) (hys : (Value.list ys).isPlain)
      (h : List.Forall₂ Reordered xs ys) : List.Forall₂ ReorderedPlain xs ys :=
    (forall₂_with_mem h).imp fun _ _ hxy =>
      ⟨hxy.2.2, isPlain_of_mem_list hxs _ hxy.1, isPlain_of_mem_list hys _ hxy.2.1⟩
  cases hvw with
  | same =>
    cases v with
    | list xs =>
      exact .inr (.inl ⟨xs, xs, rfl, rfl, hlist hv hw (List.forall₂_same.2 fun x _ => .same x)⟩)
    | map es => exact .inr (.inr ⟨es, es, rfl, rfl, (Reordered.same _).shuffled hv⟩)
    | null | bool | int | float | str => exact .inl ⟨rfl, rfl⟩
    | _ => cases hv
  | list hitems =>
    exact .inr (.inl ⟨_, _, rfl, rfl, hlist hv hw (forall₂_of_reorderedItems hitems)⟩)
  | map hentries hperm =>
    exact .inr (.inr ⟨_, _, rfl, rfl, (Reordered.map hentries hperm).shuffled hv⟩)

theorem ne_of_isScalar (h : v.isScalar) : (∀ xs, v ≠ .list xs) ∧ ∀ es, v ≠ .map es := by
  constructor
  · rintro xs rfl
    cases h
  · rintro es rfl
    cases h

theorem ReorderedPlain.isNull_eq (h : ReorderedPlain v w) : v.isNull = w.isNull := by
  rcases h.cases with ⟨rfl, -⟩ | ⟨xs, ys, rfl, rfl, -⟩ | ⟨es, fs, rfl, rfl, -⟩ <;> rfl

theorem ReorderedPlain.typeName_eq (h : ReorderedPlain v w) : v.typeName = w.typeName := by
  rcases h.cases with ⟨rfl, -⟩ | ⟨xs, ys, rfl, rfl, -⟩ | ⟨es, fs, rfl, rfl, -⟩ <;> rfl

theorem Field.find?_shuffled (h : es.Shuffled fs) (f : Field) :
    Option.Rel (fun p q => p.1 = q.1 ∧ Reordered p.2 q.2) (f.find? es) (f.find? fs) := by
  unfold find?
  induction f.keys with
  | nil => exact .none
  | cons key keys ih =>
    rw [List.findSome?_cons, List.findSome?_cons]
    have hget := h.get? key
    generalize es.get? key = v at hget ⊢
    generalize fs.get? key = w at hget ⊢
    cases hget with
    | none => exact ih
    | some hvw => exact .some ⟨rfl, hvw⟩

theorem unknownKeys_shuffled {P : Prop} {specs : List FieldSpec} (h : es.Shuffled fs)
    (hP : P → unknownKeys specs es = []) :
    SameErrors P (unknownKeys specs es) (unknownKeys specs fs) := by
  have hfound (f : Field) (key : String) :
      (∃ v, f.find? es = some (key, v)) ↔ ∃ w, f.find? fs = some (key, w) := by
    have hfind := Field.find?_shuffled h f
    generalize f.find? es = given at hfind ⊢
    generalize f.find? fs = given' at hfind ⊢
    cases hfind with
    | none => simp
    | some hpq => simp [Prod.ext_iff, hpq.1]
  have hiff : unknownKeys specs es = [] ↔ unknownKeys specs fs = [] := by
    rw [unknownKeys_eq_nil_iff, unknownKeys_eq_nil_iff]
    refine forall_congr' fun k => imp_congr h.keys.mem_iff (exists_congr fun s =>
      and_congr_right fun _ => exists_congr fun key => ?_)
    rw [exists_and_left, exists_and_left, hfound]
  exact ⟨hiff, fun hp => (hP hp).trans (hiff.1 (hP hp)).symm⟩

theorem Entries.Shuffled.get?_plain (h : es.Shuffled fs) (hes : (Value.map es).isPlain)
    (hfs : (Value.map fs).isPlain) (key : String) :
    Option.Rel ReorderedPlain (es.get? key) (fs.get? key) :=
  rel_imp (h.get? key) fun v w hv hw hvw =>
    ⟨hvw, isPlain_of_get? hes key v hv, isPlain_of_get? hfs key w hw⟩

end Data

section Fields

variable {P : Prop} {form : Form} {es fs : Entries} {v w : Value} {s : FieldSpec} {m m' : Ident}
  {place place' : Form → Value → Except Violation Record}

theorem FieldSpec.read_shuffled {R : Field → Value → Value → Prop}
    {accept accept' : Rule → Value → Except Violation Verdict} (h : es.Shuffled fs)
    (hes : (Value.map es).isPlain) (hfs : (Value.map fs).isPlain) (hR : ∀ v, R s.field v v)
    (haccept : ∀ key v w, key ∈ s.field.keys → es.get? key = some v → ReorderedPlain v w →
      Outcomes (Violation.SameClass P) (Outcomes (SameErrors P) (R s.field)) (accept s.rule v)
        (accept' s.rule w)) :
    Outcomes (Violation.SameClass P) (Outcomes (SameErrors P) (R s.field)) (s.read accept es)
      (s.read accept' fs) := by
  apply read_outcomes_of_rel (.sameClass P) hR
  refine rel_imp (Field.find?_shuffled h s.field) ?_
  rintro ⟨key, v⟩ ⟨other, w⟩ hfes hffs ⟨hkeys, hvw⟩
  obtain rfl : key = other := hkeys
  obtain ⟨hkey, hget⟩ := Field.find?_eq_some hfes
  have hplain : ReorderedPlain v w :=
    ⟨hvw, isPlain_of_find? hes hfes, isPlain_of_find? hfs hffs⟩
  refine ⟨hplain.isNull_eq, fun _ => ?_⟩
  refine (haccept key v w hkey hget hplain).map fun verdict verdict' hverdict => ?_
  cases hverdict with
  | ok hR => exact .ok hR
  | error herrors => exact .error (herrors.map _)

theorem Rule.accept_eq_of_reordered {rule : Rule} (hrule : rule = .kind ∨ rule.isScalar)
    (h : ReorderedPlain v w) : rule.accept form place v = rule.accept form place' w := by
  rcases h.cases with ⟨rfl, -⟩ | ⟨xs, ys, rfl, rfl, -⟩ | ⟨es, fs, rfl, rfl, -⟩ <;>
    cases rule with
    | kind | text | integer | flag => rfl
    | _ => simp [Rule.isScalar] at hrule

theorem Field.matches_map {f : Field} (hf : f = .metadata ∨ f = .properties)
    (h : Reordered (.map es) (.map fs)) : f.Matches (.map es) (.map fs) := by
  rcases hf with rfl | rfl <;>
    exact ⟨rfl, h.equals, h.equals, fun hne => absurd (by decide) hne⟩

theorem acceptMetadata_reordered (h : ReorderedPlain v w) :
    Outcomes (SameErrors P) Field.metadata.Matches (acceptMetadata v) (acceptMetadata w) := by
  rcases h.cases with ⟨rfl, -⟩ | ⟨xs, ys, rfl, rfl, -⟩ | ⟨es, fs, rfl, rfl, -⟩
  · exact .refl .refl (Field.Matches.refl _) _
  · exact .error (.refl _)
  · have hok {es : Entries} (hes : (Value.map es).isPlain) :
        acceptMetadata (.map es) = .ok (.map es) :=
      acceptMetadata_eq_ok_iff.2 ⟨rfl, es, rfl, fun e he => (isPlain_of_mem_map hes e he).1⟩
    rw [hok h.left, hok h.right]
    exact .ok (Field.matches_map (.inl rfl) h.reordered)

theorem ReorderedPlain.isProperty_iff (h : ReorderedPlain v w) : v.IsProperty ↔ w.IsProperty := by
  have hmember {x y : Value} (h : ReorderedPlain x y) : x.isListMember = y.isListMember := by
    rcases h.cases with ⟨rfl, -⟩ | ⟨xs, ys, rfl, rfl, -⟩ | ⟨es, fs, rfl, rfl, -⟩ <;> rfl
  rcases h.cases with ⟨rfl, -⟩ | ⟨xs, ys, rfl, rfl, hall⟩ | ⟨es, fs, rfl, rfl, -⟩
  · rfl
  · rw [← all_isListMember_iff, ← all_isListMember_iff]
    clear h
    induction hall with
    | nil => rfl
    | cons hxy _ ih =>
      rw [List.all_cons, List.all_cons, hmember hxy, Bool.and_eq_true, Bool.and_eq_true]
      exact and_congr_right fun _ => ih
  · exact ⟨nofun, nofun⟩

theorem forall_isProperty_iff (hes : (Value.map es).isPlain) :
    (∀ e ∈ es, e.2.IsProperty) ↔ ∀ key v, es.get? key = some v → v.IsProperty := by
  constructor
  · exact fun h key v hget => h _ (Entries.mem_of_get? hget)
  · rintro h ⟨k, v⟩ he
    obtain ⟨key, rfl⟩ := (isPlain_of_mem_map hes _ he).1
    exact h key v ((Entries.get?_eq_some_iff (nodup_texts_of_isPlain hes)).2 he)

theorem forall_isProperty_shuffled (h : es.Shuffled fs) (hes : (Value.map es).isPlain)
    (hfs : (Value.map fs).isPlain) :
    (∀ e ∈ es, e.2.IsProperty) ↔ ∀ f ∈ fs, f.2.IsProperty := by
  rw [forall_isProperty_iff hes, forall_isProperty_iff hfs]
  refine forall_congr' fun key => ?_
  have hget := h.get?_plain hes hfs key
  generalize es.get? key = given at hget ⊢
  generalize fs.get? key = given' at hget ⊢
  cases hget with
  | none => simp
  | some hvw => simp [hvw.isProperty_iff]

theorem PropertiesFault.faultClass {x : Violation} (h : PropertiesFault v x) :
    x.faultClass = .field := by
  cases h with
  | notMapping => rfl
  | entry _ hfault => cases hfault <;> rfl

theorem gatherProperties_map_cases (hes : (Value.map es).isPlain) :
    (∀ e ∈ es, e.2.IsProperty) ∧ gatherProperties (.map es) = .ok (.map es) ∨
    (¬ ∀ e ∈ es, e.2.IsProperty) ∧
      ∃ x, gatherProperties (.map es) = .error x ∧ x.faultClass = .field := by
  by_cases hall : ∀ e ∈ es, e.2.IsProperty
  · exact .inl ⟨hall, gatherProperties_of_isProperty fun e he =>
      ⟨(isPlain_of_mem_map hes e he).1, hall e he⟩⟩
  · refine .inr ⟨hall, ?_⟩
    cases hgather : gatherProperties (.map es) with
    | error x => exact ⟨x, rfl, (gatherProperties_eq_error_iff.1 hgather).faultClass⟩
    | ok u =>
      obtain hnull | ⟨es', he, hall'⟩ := (gatherProperties_iff hes).1 ⟨u, hgather⟩
      · cases hnull
      · exact absurd (Value.map.inj he ▸ hall') hall

theorem isProperty_of_mayBeEntry {e : Value × Value} (he : e.2.isPlain) (h : MayBeEntry e) :
    e.2.IsProperty := by
  obtain ⟨-, hprop | ⟨xs, htuple, -⟩⟩ := h
  · exact hprop
  · rw [htuple] at he
    cases he

theorem gatherProperties_reordered (h : ReorderedPlain v w)
    (hP : P → ∀ ps, v = .map ps → ∀ e ∈ ps, MayBeEntry e) :
    Outcomes (Violation.SameClass P) Field.properties.Matches (gatherProperties v)
      (gatherProperties w) := by
  have hE := Comparison.sameClass P
  rcases h.cases with ⟨rfl, -⟩ | ⟨xs, ys, rfl, rfl, -⟩ | ⟨es, fs, rfl, rfl, hshuffled⟩
  · exact .refl (fun _ => hE.of_alike (.refl _)) (Field.Matches.refl _) _
  · exact .error (hE.of_alike ⟨rfl, rfl, rfl⟩)
  · have hiff := forall_isProperty_shuffled hshuffled h.left h.right
    rcases gatherProperties_map_cases h.left with ⟨hall, hes⟩ | ⟨hno, x, hx, hclass⟩
    · rcases gatherProperties_map_cases h.right with ⟨-, hfs⟩ | ⟨hno, -⟩
      · rw [hes, hfs]
        exact .ok (Field.matches_map (.inr rfl) h.reordered)
      · exact absurd (hiff.1 hall) hno
    · rcases gatherProperties_map_cases h.right with ⟨hall, -⟩ | ⟨-, y, hy, hclass'⟩
      · exact absurd (hiff.2 hall) hno
      · rw [hx, hy]
        refine .error ⟨hclass.trans hclass'.symm, fun hp => absurd (fun e he => ?_) hno⟩
        exact isProperty_of_mayBeEntry (isPlain_of_mem_map h.left e he).2 (hP hp es rfl e he)

theorem checkPoint_reordered (h : ReorderedPlain v w)
    (hP : P → ∀ ps, v = .map ps → unknownKeys Form.point.specs ps = []) (m m' : Ident) :
    Outcomes (Violation.SameClass P) (fun q r => q.form = r.form ∧ q.fields = r.fields)
      (checkPoint m v) (checkPoint m' w) := by
  have hE := Comparison.sameClass P
  rcases h.cases with ⟨rfl, -⟩ | ⟨xs, ys, rfl, rfl, -⟩ | ⟨es, fs, rfl, rfl, hshuffled⟩
  · exact (checkPoint_outcomes m m' v).mono fun _ _ => hE.of_alike
  · exact .error (hE.of_alike (.refl _))
  · have hcheck : Outcomes (Violation.SameClass P) (Record.Fieldwise fun _ => Eq)
        (checkPoint m (.map es)) (checkPoint m' (.map fs)) := by
      refine checkWith_map_outcomes hE (contains_eq_of_rel (hshuffled.get? _))
        (unknownKeys_shuffled hshuffled fun hp => hP hp es rfl) (fun s hs => ?_)
        fun _ _ _ => .ok rfl
      refine FieldSpec.read_shuffled (R := fun _ => Eq) hshuffled h.left h.right (fun _ => rfl)
        fun _ v w _ _ hvw => ?_
      have hscalar : s.rule.isScalar := (by decide : ∀ s ∈ Form.point.specs, s.rule.isScalar) s hs
      rw [Rule.accept_eq_of_reordered (.inr hscalar) hvw]
      exact .refl (fun _ => hE.of_alike (.refl _)) (.refl .refl fun _ => rfl) _
    exact hcheck.imp fun _ _ _ _ hqr => ⟨hqr.form_eq, hqr.fields_eq⟩

theorem checkPosition_reordered (h : ReorderedPlain v w)
    (hP : P → ∀ ps, v = .map ps → Entries.TidyPosition ps) (m m' : Ident) :
    Outcomes (Violation.SameClass P) (Record.Fieldwise fun _ => Value.Twin)
      (checkPlace m .position v) (checkPlace m' .position w) := by
  have hE := Comparison.sameClass P
  rcases h.cases with ⟨rfl, -⟩ | ⟨xs, ys, rfl, rfl, -⟩ | ⟨es, fs, rfl, rfl, hshuffled⟩
  · exact (checkPosition_outcomes m m' v).mono fun _ _ => hE.of_alike
  · exact .error (hE.of_alike (.refl _))
  · refine checkWith_map_outcomes hE (contains_eq_of_rel (hshuffled.get? _))
      (unknownKeys_shuffled hshuffled fun hp => (hP hp es rfl).1) (fun s hs => ?_) fun _ _ hqr =>
        (checkOrder_outcomes hqr).mono fun _ _ => hE.of_alike
    refine FieldSpec.read_shuffled (R := fun _ => Value.Twin) hshuffled h.left h.right
      (fun _ => .inl rfl) fun key v w hkey hget hvw => ?_
    have hplaces : ∀ s ∈ Form.position.specs, ∀ key ∈ s.field.keys, key ∈ ["start", "end"] := by
      decide
    rw [Form.place_of_position s hs]
    refine (checkPoint_reordered hvw (fun hp ps hps => ?_) m m').map fun q r hqr =>
      .ok (.inr ⟨q, r, rfl, rfl, hqr⟩)
    exact (hP hp es rfl).2 key (hplaces s hs key hkey) ps (hps ▸ hget)

/-- A field of a node accepts values alike that differ in the order of entries. -/
theorem FieldSpec.accept_reordered (hn : form.isNode) (hs : s ∈ form.specs)
    (hc : s.field ≠ .children) (h : ReorderedPlain v w)
    (hposition : P → s.field = .position → ∀ ps, v = .map ps → Entries.TidyPosition ps)
    (hproperties : P → s.field = .properties → ∀ ps, v = .map ps → ∀ e ∈ ps, MayBeEntry e)
    (m m' : Ident) :
    Outcomes (Violation.SameClass P) (Outcomes (SameErrors P) s.field.Matches)
      (Rule.accept form (checkPlace m) s.rule v) (Rule.accept form (checkPlace m') s.rule w) := by
  have hE := Comparison.sameClass P
  have hsingle (hrule : s.rule = .kind ∨ s.rule.isScalar) :
      Outcomes (Violation.SameClass P) (Outcomes (SameErrors P) s.field.Matches)
        (Rule.accept form (checkPlace m) s.rule v) (Rule.accept form (checkPlace m') s.rule w) := by
    rw [Rule.accept_eq_of_reordered hrule h]
    exact .refl (fun _ => hE.of_alike (.refl _)) (.refl .refl (Field.Matches.refl _)) _
  cases hrule : s.rule with
  | kind => exact hrule ▸ hsingle (.inl hrule)
  | text | integer | flag => exact hrule ▸ hsingle (.inr (hrule ▸ rfl))
  | metadata =>
    rw [(form.field_of_rule s hs).1 hrule]
    exact .ok (acceptMetadata_reordered h)
  | place f =>
    obtain rfl := Form.position_of_place hs hn hrule
    have hfield := form.field_of_position s hs hrule
    rw [hfield]
    exact (checkPosition_reordered h (fun hp => hposition hp hfield) m m').map fun _ _ hqr =>
      .ok (Field.matches_position hqr)
  | children => exact absurd ((form.field_of_rule s hs).2 hrule) hc
  | properties =>
    have hfield := form.field_of_properties s hs hrule
    rw [hfield]
    exact (gatherProperties_reordered h fun hp => hproperties hp hfield).map fun _ _ hvw => .ok hvw

end Fields

section Load

variable {P : Prop} {family : Family} {form : Form} {es fs : Entries} {v w : Value}

/-- Plain data that differs in the order of entries, and is tidy under a condition. -/
structure ReorderedTidy (family : Family) (P : Prop) (v w : Value) : Prop where
  plain : ReorderedPlain v w
  tidy : P → v.Tidy family.registry

theorem Value.Tidy.child {forms : Registry} {xs : List Value} (h : (Value.map es).Tidy forms)
    (hform : forms.formOf? es = some form) (hb : form.shape = .branch)
    (hes : (Value.map es).isPlain) (hget : es.get? "children" = some (.list xs)) :
    ∀ x ∈ xs, x.Tidy forms := by
  rintro x hx fs steps rest hreaches
  obtain ⟨before, after, hbefore, hsplit, -⟩ :=
    @loadChildren_of_get? forms "" es _ xs hget (.inl rfl)
  obtain ⟨left, right, rfl⟩ := List.append_of_mem hx
  have hno : ∀ e ∈ before, ¬ holdsItems e := by
    rintro ⟨k, v⟩ he ⟨hk, -⟩
    obtain rfl : k = .str "children" := hk
    exact absurd (Entries.contains_iff.2 (List.mem_map_of_mem he))
      (by rw [Entries.contains_eq_false_iff.2 hbefore]; simp)
  have hx : x.node? = none := node?_of_isPlain (isPlain_of_child hes hget x hx)
  exact h fs _ _ (.child hform hb hsplit hno (.inl rfl) hx hreaches)

theorem Entries.type_shuffled (h : es.Shuffled fs) (hes : (Value.map es).isPlain)
    (hfs : (Value.map fs).isPlain) : ReorderedPlain (Entries.type es) (Entries.type fs) := by
  have hget := h.get?_plain hes hfs "type"
  unfold type
  generalize es.get? "type" = given at hget ⊢
  generalize fs.get? "type" = given' at hget ⊢
  cases hget with
  | none => exact ⟨.same _, rfl, rfl⟩
  | some hvw => exact hvw

theorem formOf?_shuffled {forms : Registry} (h : es.Shuffled fs) (hes : (Value.map es).isPlain)
    (hfs : (Value.map fs).isPlain) : forms.formOf? es = forms.formOf? fs := by
  have htext : (Entries.type es).text? = (Entries.type fs).text? := by
    rcases (Entries.type_shuffled h hes hfs).cases with
      ⟨he, -⟩ | ⟨xs, ys, hx, hy, -⟩ | ⟨ps, qs, hx, hy, -⟩
    · rw [he]
    · rw [hx, hy]
      rfl
    · rw [hx, hy]
      rfl
  show (Entries.type es).text?.bind forms.find? = (Entries.type fs).text?.bind forms.find?
  rw [htext]

theorem unknownType_shuffled {name : String} (h : es.Shuffled fs) (hes : (Value.map es).isPlain)
    (hfs : (Value.map fs).isPlain)
    (hP : P → (∀ xs, Entries.type es ≠ .list xs) ∧ ∀ ps, Entries.type es ≠ .map ps) :
    Violation.SameClass P (.unknownType name (Entries.type es))
      (.unknownType name (Entries.type fs)) := by
  refine ⟨rfl, fun hp => ?_⟩
  rcases (Entries.type_shuffled h hes hfs).cases with
    ⟨he, -⟩ | ⟨xs, ys, hx, -⟩ | ⟨ps, qs, hx, -⟩
  · rw [he]
    exact .refl _
  · exact absurd hx ((hP hp).1 xs)
  · exact absurd hx ((hP hp).2 ps)

theorem corresponds_of_shuffled (h : es.Shuffled fs) (hes : (Value.map es).isPlain)
    (hfs : (Value.map fs).isPlain) (hform : family.registry.formOf? es = some form)
    (htidy : P → (Value.map es).Tidy family.registry) :
    es.Corresponds (Violation.SameClass P) (SameErrors P) (ReorderedTidy family P) form fs := by
  obtain ⟨kind, -, hfind⟩ := Registry.formOf?_eq_some_iff.1 hform
  have hn := Form.isNode_of_kind (Registry.kind_of_find? hfind)
  have hself (hp : P) : Entries.Tidy family.registry es := htidy hp es [] [] (.here _)
  constructor
  · refine rel_imp (h.get?_plain hes hfs "children") fun v w hv _ hvw => ?_
    by_cases hlist : ∃ xs ys, v = .list xs ∧ w = .list ys ∧ List.Forall₂ ReorderedPlain xs ys
    · obtain ⟨xs, ys, rfl, rfl, hall⟩ := hlist
      refine .inl ⟨xs, ys, rfl, rfl, fun hb => ?_⟩
      exact (forall₂_with_mem hall).imp fun x y hxy =>
        ⟨hxy.2.2, fun hp => (htidy hp).child hform hb hes hv x hxy.1⟩
    · have hno : (∀ xs, v ≠ .list xs) ∧ ∀ ys, w ≠ .list ys := by
        rcases hvw.cases with ⟨rfl, hs⟩ | hall | ⟨ps, qs, rfl, rfl, -⟩
        · exact ⟨(ne_of_isScalar hs).1, (ne_of_isScalar hs).1⟩
        · exact absurd hall hlist
        · exact ⟨nofun, nofun⟩
      exact .inr ⟨sequence?_of_isPlain hvw.left hno.1, sequence?_of_isPlain hvw.right hno.2,
        hvw.isNull_eq, hvw.typeName_eq⟩
  · exact unknownKeys_shuffled h fun hp => (hself hp).known form hform
  · intro s hs hc m m'
    refine FieldSpec.read_shuffled h hes hfs (Field.Matches.refl s.field)
      fun key v w hkey hget hvw => ?_
    have hkey {f : Field} (hf : s.field = f) (hkeys : f.keys = [f.key]) :
        es.get? f.key = some v := by
      rw [hf, hkeys, List.mem_singleton] at hkey
      rw [← hkey, hget]
    exact FieldSpec.accept_reordered hn hs hc hvw
      (fun hp hf ps hps => (hself hp).position ps (hps ▸ hkey hf rfl))
      (fun hp hf ps hps => (hself hp).properties ps (hps ▸ hkey hf rfl)) m m'

/-- Data that differs in the order of entries is to be loaded alike. -/
theorem ReorderedTidy.loadsAlike (h : ReorderedTidy family P v w) :
    family.LoadsAlike (Violation.SameClass P) (SameErrors P) (ReorderedTidy family P) v w := by
  rcases h.plain.cases with ⟨rfl, hs⟩ | ⟨xs, ys, rfl, rfl, -⟩ | ⟨es, fs, rfl, rfl, hshuffled⟩
  · exact .other (ne_of_isScalar hs).2 (ne_of_isScalar hs).2 rfl
  · exact .other nofun nofun rfl
  · obtain ⟨⟨-, hes, hfs⟩, htidy⟩ := h
    have hsame : family.registry.formOf? es = family.registry.formOf? fs :=
      formOf?_shuffled hshuffled hes hfs
    cases hform : family.registry.formOf? es with
    | none =>
      exact .unknown hform (hsame ▸ hform) (unknownType_shuffled hshuffled hes hfs
        fun hp => (htidy hp es [] [] (.here _)).type)
    | some form =>
      exact .node hform (hsame ▸ hform)
        (corresponds_of_shuffled hshuffled hes hfs hform htidy)

end Load

/-- The order of keys does not matter. Plain data that differs in the order of entries of mappings
at any depth gives equal nodes, or failures of the same class; and if the data is tidy, what the
failures say is the same too. -/
theorem Family.decode_reordered (family : Family) (d d' : Value) (hd : d.isPlain)
    (hd' : d'.isPlain) (h : Reordered d d') (next next' : Ident) :
    Outcomes (fun v w => v.faultClass = w.faultClass ∧
        (d.Tidy family.registry → v.message = w.message ∧ v.errors = w.errors))
      (fun p q => p.1.equals q.1 ∧ p.1.encode.equals q.1.encode)
      (family.decode d next) (family.decode d' next') := by
  have hlike : ReorderedTidy family (d.Tidy family.registry) d d' := ⟨⟨h, hd, hd'⟩, id⟩
  have hloaded := decode_outcomes (.sameClass _) (fun _ _ hvw => ⟨hvw.plain.left, hvw.plain.right⟩)
    (fun _ _ => ReorderedTidy.loadsAlike) hlike next next'
  exact (hloaded.imp fun _ _ _ _ hpq => ⟨hpq.equals, hpq.encode_equals⟩).mono fun v w hvw =>
    ⟨hvw.faultClass, fun htidy => ⟨(hvw.alike htidy).message, (hvw.alike htidy).errors⟩⟩

/-- An element with its keys and its properties in two orders, and a text whose value is none. -/
theorem Family.decode_reordered_element :
    let properties : Entries := [(.str "id", .int 1), (.str "class", .list [.str "a"])]
    let element : Entries := [(.str "type", .str "element"), (.str "tagName", .str "p"),
      (.str "properties", .map properties)]
    let text : Entries := [(.str "type", .str "text"), (.str "value", .int 1)]
    (∃ p q, Family.hast.decode (.map element) 0 = .ok p ∧
      Family.hast.decode (.map [(.str "properties", .map properties.reverse),
        (.str "tagName", .str "p"), (.str "type", .str "element")]) 0 = .ok q ∧
      p.1.equals q.1) ∧
    ∃ v w, Family.hast.decode (.map text) 0 = .error v ∧
      Family.hast.decode (.map text.reverse) 0 = .error w ∧ v.message = w.message := by
  intro properties element text
  constructor
  · have hproperties : Reordered (.map properties) (.map properties.reverse) :=
      .of_perm (List.reverse_perm _).symm
    have hreordered : Reordered (.map element) (.map [(.str "properties", .map properties.reverse),
        (.str "tagName", .str "p"), (.str "type", .str "element")]) :=
      .map (.cons (.same _) (.cons (.same _) (.cons hproperties .nil))) (List.reverse_perm _).symm
    obtain ⟨p, q, hp, hq, hpq, -⟩ :=
      (decode_reordered .hast _ _ (by decide) (by decide) hreordered 0 0).exists_oks rfl
    exact ⟨p, q, hp, hq, hpq⟩
  · have htidy : (Value.map text).Tidy Family.hast.registry := by
      intro es steps rest h
      cases h with
      | here =>
        constructor
        · constructor <;> rintro _ ⟨⟩
        · rintro form ⟨⟩
          rfl
        · rintro ps ⟨⟩
        · rintro ps ⟨⟩
      | child hform hb =>
        cases hform
        cases hb
    obtain ⟨v, w, hv, hw, -, hmessage⟩ := (decode_reordered .hast (.map text) (.map text.reverse)
      (by decide) (by decide) (.of_perm (List.reverse_perm _).symm) 0 0).exists_errors rfl
    exact ⟨v, w, hv, hw, (hmessage htidy).1⟩

end DocTree
