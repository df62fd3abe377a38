import DocTree.Encode
import DocTree.Proofs.Alike

/-!
Two checks side by side. Checks of the same data with different identities at hand have the same
outcome: both succeed, with records that differ in identities only, or both fail, with violations
that are reported alike. What is shown of two runs field by field is put together here for whole
records. Main statements: `readFields_outcomes`, `checkWith_map_outcomes` and
`checkPosition_outcomes`.
-/
namespace DocTree

structure Violation.Alike (v w : Violation) : Prop where
  faultClass : v.faultClass = w.faultClass
  message : v.message = w.message
  errors : v.errors = w.errors

theorem Violation.Alike.refl (v : Violation) : v.Alike v :=
  ⟨rfl, rfl, rfl⟩

/-- Outcomes of two runs: both succeed, with results as `R` says, or both fail, with errors as `E`
says. -/
inductive Outcomes {ε δ α β : Type} (E : ε → δ → Prop) (R : α → β → Prop) :
    Except ε α → Except δ β → Prop
  | ok {a : α} {b : β} : R a b → Outcomes E R (.ok a) (.ok b)
  | error {e : ε} {d : δ} : E e d → Outcomes E R (.error e) (.error d)

namespace Outcomes

variable {ε δ α β γ κ : Type} {E : ε → δ → Prop} {R : α → β → Prop} {S : γ → κ → Prop}
  {x : Except ε α} {y : Except δ β}

theorem refl {E : ε → ε → Prop} {R : α → α → Prop} (hE : ∀ e, E e e) (hR : ∀ a, R a a)
    (x : Except ε α) : Outcomes E R x x := by
  cases x with
  | ok a => exact .ok (hR a)
  | error e => exact .error (hE e)

theorem bind (h : Outcomes E R x y) {f : α → Except ε γ} {g : β → Except δ κ}
    (hfg : ∀ a b, R a b → Outcomes E S (f a) (g b)) : Outcomes E S (x >>= f) (y >>= g) := by
  cases h with
  | ok h => exact hfg _ _ h
  | error h => exact .error h

theorem map (h : Outcomes E R x y) {f : α → γ} {g : β → κ} (hfg : ∀ a b, R a b → S (f a) (g b)) :
    Outcomes E S (x.map f) (y.map g) := by
  cases h with
  | ok h => exact .ok (hfg _ _ h)
  | error h => exact .error h

theorem imp {R' : α → β → Prop} (h : Outcomes E R x y)
    (hR : ∀ a b, x = .ok a → y = .ok b → R a b → R' a b) : Outcomes E R' x y := by
  cases h with
  | ok h => exact .ok (hR _ _ rfl rfl h)
  | error h => exact .error h

theorem mono {E' : ε → δ → Prop} (h : Outcomes E R x y) (hE : ∀ e d, E e d → E' e d) :
    Outcomes E' R x y := by
  cases h with
  | ok h => exact .ok h
  | error h => exact .error (hE _ _ h)

theorem exists_ok {a : α} (h : Outcomes E R (.ok a) y) : ∃ b, y = .ok b ∧ R a b := by
  cases h with
  | ok h => exact ⟨_, rfl, h⟩

theorem exists_oks (h : Outcomes E R x y) (hx : x.toOption.isSome) :
    ∃ a b, x = .ok a ∧ y = .ok b ∧ R a b := by
  cases h with
  | ok h => exact ⟨_, _, rfl, rfl, h⟩
  | error => cases hx

theorem exists_errors (h : Outcomes E R x y) (hx : x.toOption.isNone) :
    ∃ e d, x = .error e ∧ y = .error d ∧ E e d := by
  cases h with
  | ok => cases hx
  | error h => exact ⟨_, _, rfl, rfl, h⟩

end Outcomes

theorem Build.bind_outcomes {α β γ κ : Type} {E : Violation → Violation → Prop} {x : Build α}
    {y : Build β} {f : α → Build γ} {g : β → Build κ} {R : α × Ident → β × Ident → Prop}
    {S : γ × Ident → κ × Ident → Prop} {next next' : Ident} (h : Outcomes E R (x next) (y next'))
    (hfg : ∀ p q, R p q → Outcomes E S (f p.1 p.2) (g q.1 q.2)) :
    Outcomes E S ((x >>= f) next) ((y >>= g) next') :=
  Outcomes.bind h hfg

/-- Records of one form, with the same fields in the same order, whose values are as `R` says. -/
structure Record.Fieldwise (R : Field → Value → Value → Prop) (q r : Record) : Prop where
  form_eq : q.form = r.form
  fields : List.Forall₂ (fun p p' => p.1 = p'.1 ∧ R p.1 p.2 p'.2) q.fields r.fields

section Fieldwise

variable {R : Field → Value → Value → Prop} {q r : Record}

theorem Record.Fieldwise.refl (hR : ∀ f v, R f v v) (r : Record) : r.Fieldwise R r :=
  ⟨rfl, List.forall₂_same.2 fun p _ => ⟨rfl, hR p.1 p.2⟩⟩

theorem Record.Fieldwise.get? (h : q.Fieldwise R r) (f : Field) :
    Option.Rel (R f) (q.get? f) (r.get? f) := by
  have hlookup {fields fields' : List (Field × Value)}
      (h : List.Forall₂ (fun p p' => p.1 = p'.1 ∧ R p.1 p.2 p'.2) fields fields') :
      Option.Rel (R f) (fields.lookup f) (fields'.lookup f) := by
    induction h with
    | nil => exact .none
    | @cons p p' fields fields' hp _ ih =>
      obtain ⟨g, v⟩ := p
      obtain ⟨g', w⟩ := p'
      obtain ⟨rfl, hvw⟩ : g = g' ∧ R g v w := hp
      rw [List.lookup_cons, List.lookup_cons]
      cases hg : f == g with
      | true => exact .some ((beq_iff_eq.1 hg) ▸ hvw)
      | false => exact ih
  exact hlookup h.fields

theorem Record.Fieldwise.get (h : q.Fieldwise R r) {f : Field} (hnull : R f .null .null) :
    R f (q.get f) (r.get f) := by
  unfold Record.get
  have hget := h.get? f
  generalize q.get? f = found at hget ⊢
  generalize r.get? f = found' at hget ⊢
  cases hget with
  | none => exact hnull
  | some hvw => exact hvw

theorem Record.Fieldwise.equals (h : q.Fieldwise R r) (hR : ∀ f v w, R f v w → v.equals w) :
    q.equals r := by
  obtain ⟨i, form, fields⟩ := q
  obtain ⟨j, form', fields'⟩ := r
  obtain ⟨rfl, hfields⟩ := h
  rw [Record.equals, decide_eq_true rfl, Bool.true_and]
  show equalFields fields fields'
  change List.Forall₂ _ fields fields' at hfields
  induction hfields with
  | nil => rw [equalFields]
  | @cons p p' fields fields' hp _ ih =>
    obtain ⟨f, v⟩ := p
    obtain ⟨f', w⟩ := p'
    obtain ⟨rfl, hvw⟩ : f = f' ∧ R f v w := hp
    rw [equalFields, decide_eq_true rfl, hR f v w hvw, ih]
    rfl

theorem Record.Fieldwise.fields_eq (h : q.Fieldwise (fun _ => Eq) r) : q.fields = r.fields := by
  have hfields : List.Forall₂ Eq q.fields r.fields := h.fields.imp fun _ _ hp => Prod.ext hp.1 hp.2
  exact List.forall₂_eq_eq_eq ▸ hfields

end Fieldwise

/-- How violations and collected field errors of two runs compare. Lists of errors compare part by
part, and the violations that report them compare as the lists do. -/
structure Comparison (E : Violation → Violation → Prop)
    (F : List FieldError → List FieldError → Prop) : Prop where
  of_alike : ∀ {v w}, v.Alike w → E v w
  refl : ∀ xs, F xs xs
  append : ∀ {xs ys xs' ys'}, F xs ys → F xs' ys' → F (xs ++ xs') (ys ++ ys')
  nil_iff : ∀ {xs ys}, F xs ys → (xs = [] ↔ ys = [])
  badFields : ∀ {xs ys} (form : Form), F xs ys → E (.badFields form xs) (.badFields form ys)

theorem Comparison.alike : Comparison Violation.Alike Eq where
  of_alike := id
  refl := fun _ => rfl
  append := by
    rintro xs _ xs' _ rfl rfl
    rfl
  nil_iff := by
    rintro xs _ rfl
    rfl
  badFields := by
    rintro xs _ form rfl
    exact .refl _

section Fields

variable {E : Violation → Violation → Prop} {F : List FieldError → List FieldError → Prop}
  {R : Field → Value → Value → Prop} {es fs : Entries}
  {accept accept' : Rule → Value → Except Violation Verdict}

theorem Verdict.under_outcomes {R : Value → Value → Prop} {v w : Verdict}
    (h : Outcomes Eq R v w) (key : String) : Outcomes Eq R (v.under key) (w.under key) := by
  cases h with
  | ok h => exact .ok h
  | error h => exact .error (congrArg _ h)

theorem FieldSpec.read_outcomes_of_rel {s : FieldSpec} (hE : Comparison E F)
    (hR : ∀ v, R s.field v v)
    (hfind : Option.Rel (fun p q => p.2.isNull = q.2.isNull ∧ (¬ (s.nullable ∧ p.2.isNull) →
      Outcomes E (Outcomes F (R s.field)) ((accept s.rule p.2).map (Verdict.under p.1))
        ((accept' s.rule q.2).map (Verdict.under q.1)))) (s.field.find? es) (s.field.find? fs)) :
    Outcomes E (Outcomes F (R s.field)) (s.read accept es) (s.read accept' fs) := by
  unfold read
  generalize s.field.find? es = given at hfind ⊢
  generalize s.field.find? fs = given' at hfind ⊢
  cases hfind with
  | none =>
    dsimp only
    split
    · exact .ok (.ok (hR _))
    · exact .ok (.error (hE.refl _))
  | @some p q hpq =>
    obtain ⟨key, v⟩ := p
    obtain ⟨other, w⟩ := q
    obtain ⟨hnull, haccept⟩ := hpq
    change v.isNull = w.isNull at hnull
    dsimp only
    by_cases h : s.nullable ∧ v.isNull
    · obtain ⟨hs, hv⟩ := h
      have hw : w.isNull := hnull ▸ hv
      rw [hs, hv, hw, Value.isNull_iff.1 hv, Value.isNull_iff.1 hw]
      exact .ok (.ok (hR _))
    · have hno : ¬ (s.nullable && v.isNull) = true := by rwa [Bool.and_eq_true]
      rw [if_neg hno, if_neg (hnull ▸ hno)]
      exact haccept h

theorem FieldSpec.read_outcomes {s : FieldSpec} (hR : ∀ v, R s.field v v)
    (hfind : s.field.find? es = s.field.find? fs)
    (haccept : ∀ v, Outcomes Violation.Alike (Outcomes Eq (R s.field)) (accept s.rule v)
      (accept' s.rule v)) :
    Outcomes Violation.Alike (Outcomes Eq (R s.field)) (s.read accept es)
      (s.read accept' fs) := by
  apply read_outcomes_of_rel .alike hR
  rw [hfind]
  cases s.field.find? fs with
  | none => exact .none
  | some p =>
    exact .some ⟨rfl, fun _ => (haccept p.2).map fun _ _ h => Verdict.under_outcomes h p.1⟩

theorem readFields_outcomes (hE : Comparison E F) {specs : List FieldSpec}
    (h : ∀ s ∈ specs, Outcomes E (Outcomes F (R s.field)) (s.read accept es)
      (s.read accept' fs)) :
    Outcomes E (fun p p' => F p.1 p'.1 ∧
        List.Forall₂ (fun a a' => a.1 = a'.1 ∧ R a.1 a.2 a'.2) p.2 p'.2)
      (readFields accept es specs) (readFields accept' fs specs) := by
  induction specs with
  | nil => exact .ok ⟨hE.refl _, .nil⟩
  | cons s specs ih =>
    obtain ⟨hs, hspecs⟩ := List.forall_mem_cons.1 h
    rw [readFields, readFields]
    refine hs.bind fun verdict verdict' hverdict => (ih hspecs).bind fun p p' hp => ?_
    obtain ⟨errors, fields⟩ := p
    obtain ⟨errors', fields'⟩ := p'
    obtain ⟨herrors, hfields⟩ : F errors errors' ∧ List.Forall₂ _ fields fields' := hp
    cases hverdict with
    | ok hvw => exact .ok ⟨herrors, .cons ⟨rfl, hvw⟩ hfields⟩
    | error he => exact .ok ⟨hE.append he herrors, hfields⟩

end Fields

section Keys

variable {form : Form} {es fs : Entries}

theorem checkShape_congr (h : es.contains "children" = fs.contains "children") :
    checkShape form es = checkShape form fs := by
  rw [checkShape, checkShape, h]

theorem contains_congr (h : es.map Prod.fst = fs.map Prod.fst) (key : String) :
    es.contains key = fs.contains key := by
  rw [Bool.eq_iff_iff, Entries.contains_iff, Entries.contains_iff, h]

end Keys

section Check

variable {E : Violation → Violation → Prop} {F : List FieldError → List FieldError → Prop}
  {R : Field → Value → Value → Prop} {form : Form} {es fs : Entries} {id id' : Ident}
  {place place' : Form → Value → Except Violation Record}

/-- Two mappings pass a check alike if each field is read alike from them, and if what gives no
field is reported alike. -/
theorem checkWith_map_outcomes (hE : Comparison E F)
    (hchildren : es.contains "children" = fs.contains "children")
    (hstray : F (unknownKeys form.specs es) (unknownKeys form.specs fs))
    (hread : ∀ s ∈ form.specs, Outcomes E (Outcomes F (R s.field))
      (s.read (Rule.accept form place) es) (s.read (Rule.accept form place') fs))
    (hcoupled : ∀ q r : Record, q.Fieldwise R r →
      Outcomes E Eq (checkCoupled form q) (checkCoupled form r)) :
    Outcomes E (Record.Fieldwise R) (checkWith form id place (.map es))
      (checkWith form id' place' (.map fs)) := by
  have hassemble : Outcomes E (Record.Fieldwise R)
      (assemble form id (Rule.accept form place) es)
      (assemble form id' (Rule.accept form place') fs) := by
    unfold assemble
    rw [checkShape_congr hchildren]
    refine (Outcomes.refl (fun _ => hE.of_alike (.refl _)) (fun _ => rfl)
      (checkShape form fs)).bind fun _ _ _ => ?_
    refine (readFields_outcomes hE hread).bind fun p p' hp => ?_
    obtain ⟨errors, fields⟩ := p
    obtain ⟨errors', fields'⟩ := p'
    obtain ⟨herrors, hfields⟩ : F errors errors' ∧ List.Forall₂ _ fields fields' := hp
    have hall := hE.append herrors hstray
    have hnil := hE.nil_iff hall
    dsimp only
    cases hxs : errors ++ unknownKeys form.specs es with
    | nil =>
      rw [hnil.1 hxs]
      exact .ok ⟨rfl, hfields⟩
    | cons x xs =>
      cases hys : errors' ++ unknownKeys form.specs fs with
      | nil => cases (hnil.2 hys).symm.trans hxs
      | cons y ys =>
        rw [hxs, hys] at hall
        exact .error (hE.badFields form hall)
  exact hassemble.bind fun q r hqr => (hcoupled q r hqr).bind fun _ _ _ => .ok hqr

/-- Likewise of two mappings with the same keys, in which each field is found under one key. -/
theorem checkWith_map_outcomes_of_keys (hkeys : es.map Prod.fst = fs.map Prod.fst)
    (hfind : ∀ s ∈ form.specs,
      (s.field.find? es).map Prod.fst = (s.field.find? fs).map Prod.fst)
    (hread : ∀ s ∈ form.specs, Outcomes Violation.Alike (Outcomes Eq (R s.field))
      (s.read (Rule.accept form place) es) (s.read (Rule.accept form place') fs))
    (hcoupled : ∀ q r : Record, q.Fieldwise R r →
      Outcomes Violation.Alike Eq (checkCoupled form q) (checkCoupled form r)) :
    Outcomes Violation.Alike (Record.Fieldwise R) (checkWith form id place (.map es))
      (checkWith form id' place' (.map fs)) :=
  checkWith_map_outcomes .alike (contains_congr hkeys "children") (unknownKeys_congr hkeys hfind)
    hread hcoupled

theorem checkWith_outcomes (hR : ∀ f v, R f v v)
    (haccept : ∀ s ∈ form.specs, ∀ v, Outcomes Violation.Alike (Outcomes Eq (R s.field))
      (Rule.accept form place s.rule v) (Rule.accept form place' s.rule v))
    (hcoupled : ∀ q r : Record, q.Fieldwise R r →
      Outcomes Violation.Alike Eq (checkCoupled form q) (checkCoupled form r)) (v : Value) :
    Outcomes Violation.Alike (Record.Fieldwise R) (checkWith form id place v)
      (checkWith form id' place' v) := by
  cases v with
  | map es =>
    exact checkWith_map_outcomes_of_keys rfl (fun _ _ => rfl)
      (fun s hs => FieldSpec.read_outcomes (hR s.field) rfl (haccept s hs)) hcoupled
  | _ => exact .refl .refl (.refl hR) _

theorem Rule.accept_outcomes {rule : Rule} {R : Value → Value → Prop} (hR : ∀ v, R v v)
    (hplace : ∀ f, rule = .place f → ∀ v, Outcomes Violation.Alike
      (fun q r => R (.record q) (.record r)) (place f v) (place' f v)) (v : Value) :
    Outcomes Violation.Alike (Outcomes Eq R) (rule.accept form place v)
      (rule.accept form place' v) := by
  cases rule with
  | place f => exact (hplace f rfl v).map fun _ _ h => .ok h
  | _ => exact .refl .refl (.refl (fun _ => rfl) hR) _

end Check

section Places

variable {q r : Record}

/-- The same value, or two records that differ in their own identities only. -/
def Value.Twin (v w : Value) : Prop :=
  v = w ∨ ∃ q r : Record, v = .record q ∧ w = .record r ∧ q.form = r.form ∧ q.fields = r.fields

theorem Value.Twin.equals {v w : Value} (h : v.Twin w) : v.equals w := by
  rcases h with rfl | ⟨⟨i, form, fields⟩, ⟨j, _, _⟩, rfl, rfl, rfl, rfl⟩
  · exact v.equals_refl
  · exact (Value.Alike.record (.mk (.refl fields))).equals

theorem Record.dump_eq_of_twins (h : q.Fieldwise (fun _ => Value.Twin) r) : q.dump = r.dump := by
  obtain ⟨i, form, fields⟩ := q
  obtain ⟨j, form', fields'⟩ := r
  obtain ⟨-, hfields⟩ := h
  show Value.map (dumpFields fields) = .map (dumpFields fields')
  change List.Forall₂ _ fields fields' at hfields
  congr 1
  induction hfields with
  | nil => rfl
  | @cons p p' fields fields' hp _ ih =>
    obtain ⟨f, v⟩ := p
    obtain ⟨f', w⟩ := p'
    obtain ⟨rfl, hvw⟩ : f = f' ∧ v.Twin w := hp
    rcases hvw with rfl | ⟨⟨i, form, fields⟩, ⟨j, _, _⟩, rfl, rfl, rfl, rfl⟩
    · cases v <;> simp [dumpFields, ih]
    · rw [dumpFields, dumpFields, ih]
      rfl

theorem checkPoint_outcomes (id id' : Ident) (v : Value) :
    Outcomes Violation.Alike (fun q r => q.form = r.form ∧ q.fields = r.fields)
      (checkPoint id v) (checkPoint id' v) := by
  have hcheck : Outcomes Violation.Alike (Record.Fieldwise fun _ => Eq) (checkPoint id v)
      (checkPoint id' v) := by
    refine checkWith_outcomes (fun _ _ => rfl) (fun s hs => ?_) (fun _ _ _ => .ok rfl) v
    exact Rule.accept_outcomes (fun _ => rfl) fun f hf => absurd hf (Form.not_place_of_point s hs f)
  exact hcheck.imp fun _ _ _ _ h => ⟨h.form_eq, h.fields_eq⟩

theorem Value.Twin.attribute_outcomes {v w : Value} (h : v.Twin w) (f : Field) :
    Outcomes Violation.Alike Eq (v.attribute f) (w.attribute f) := by
  rcases h with rfl | ⟨⟨i, form, fields⟩, ⟨j, _, _⟩, rfl, rfl, rfl, rfl⟩
  · exact .refl .refl (fun _ => rfl) _
  · change Outcomes Violation.Alike Eq ((Value.record ⟨i, form, fields⟩).attribute f)
      ((Value.record ⟨j, form, fields⟩).attribute f)
    simp only [Value.attribute, Record.get?]
    split
    · exact .ok rfl
    · exact .error ⟨rfl, rfl, rfl⟩

theorem Record.Fieldwise.attribute_outcomes (h : q.Fieldwise (fun _ => Value.Twin) r) (f : Field) :
    Outcomes Violation.Alike Value.Twin ((Value.record q).attribute f)
      ((Value.record r).attribute f) := by
  have hget := h.get? f
  simp only [Value.attribute]
  generalize q.get? f = found at hget ⊢
  generalize r.get? f = found' at hget ⊢
  cases hget with
  | some hvw => exact .ok hvw
  | none =>
    have htype : (Value.record q).typeName = (Value.record r).typeName := by
      rw [Value.typeName, Value.typeName, h.form_eq]
    have hmessage (v : Value) : (Violation.breakdown (.noAttribute v f.label)).message =
        s!"'{v.typeName}' object has no attribute '{f.label}'" := rfl
    exact .error ⟨rfl, by rw [hmessage, hmessage, htype], rfl⟩

section Points

variable {start start' stop stop' : Value}

theorem spot_outcomes (h : start.Twin start') :
    Outcomes Violation.Alike Eq start.spot start'.spot := by
  unfold Value.spot
  refine (h.attribute_outcomes .line).bind ?_
  rintro line _ rfl
  refine (h.attribute_outcomes .column).bind ?_
  rintro column _ rfl
  exact .ok rfl

theorem checkOffsets_outcomes (hstart : start.Twin start') (hstop : stop.Twin stop') :
    Outcomes Violation.Alike Eq (checkOffsets start stop) (checkOffsets start' stop') := by
  unfold checkOffsets
  refine (hstart.attribute_outcomes .offset).bind ?_
  rintro first _ rfl
  split
  · exact .ok rfl
  · refine (hstop.attribute_outcomes .offset).bind ?_
    rintro last _ rfl
    exact .refl .refl (fun _ => rfl) _

theorem checkPoints_outcomes (hstart : start.Twin start') (hstop : stop.Twin stop') :
    Outcomes Violation.Alike Eq (checkPoints start stop) (checkPoints start' stop') := by
  unfold checkPoints
  refine (spot_outcomes hstart).bind ?_
  rintro first _ rfl
  refine (spot_outcomes hstop).bind ?_
  rintro last _ rfl
  refine (Outcomes.refl .refl (fun _ => rfl) _).bind ?_
  rintro later _ rfl
  split
  · exact .refl .refl (fun _ => rfl) _
  · exact checkOffsets_outcomes hstart hstop

end Points

theorem checkOrder_outcomes (h : q.Fieldwise (fun _ => Value.Twin) r) :
    Outcomes Violation.Alike Eq (checkOrder (.record q)) (checkOrder (.record r)) := by
  unfold checkOrder
  refine (h.attribute_outcomes .start).bind fun start start' hstart => ?_
  refine (h.attribute_outcomes .stop).bind fun stop stop' hstop => ?_
  exact checkPoints_outcomes hstart hstop

theorem checkPosition_outcomes (id id' : Ident) (v : Value) :
    Outcomes Violation.Alike (Record.Fieldwise fun _ => Value.Twin) (checkPlace id .position v)
      (checkPlace id' .position v) := by
  refine checkWith_outcomes (fun _ _ => .inl rfl) (fun s hs => ?_) (fun q r h => ?_) v
  · refine Rule.accept_outcomes (fun _ => .inl rfl) fun f _ v => ?_
    exact (checkPoint_outcomes id id' v).imp fun q r _ _ h => .inr ⟨q, r, rfl, rfl, h⟩
  · exact checkOrder_outcomes h

end Places

end DocTree
