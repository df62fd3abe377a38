import DocTree.Report
import DocTree.Proofs.Acceptance

/-!
Data that is refused is refused with the complete report: the first fault of the structure by
itself, or else every error of every field once and in schema order and then the stray keys, or else
a negative start. Data without any of these is accepted. Main statements: `Rule.reports_iff`,
`FieldSpec.read_eq_error_iff` and `FieldSpec.reports_iff` for one field, `breaks_iff` and
`fieldsReport_iff` for all of them, and `new_outcome`.
-/
namespace DocTree

def Verdict.errors : Verdict → List FieldError
  | .ok _ => []
  | .error errors => errors

theorem Verdict.errors_under (verdict : Verdict) (key : String) :
    (verdict.under key).errors = verdict.errors.map fun e => ⟨.key key :: e.path, e.fault⟩ := by
  cases verdict <;> rfl

section Rules

variable {form : Form} {place : Form → Value → Except Violation Record} {rule : Rule} {v : Value}
  {errors : List FieldError} {w : Violation}

theorem otherKeys_map_eq (es : Entries) :
    (es.otherKeys.map fun key => (⟨[key.step, .key "[key]"], .notText⟩ : FieldError)) =
      es.filterMap metadataError? := by
  rw [Entries.otherKeys]
  induction es with
  | nil => rfl
  | cons e es ih =>
    obtain ⟨key, v⟩ := e
    rw [List.map_cons, List.filter_cons, List.filterMap_cons]
    cases key <;> simpa [Value.text?, metadataError?] using ih

theorem acceptMetadata_errors (es : Entries) :
    (acceptMetadata (.map es)).errors = es.filterMap metadataError? := by
  rw [acceptMetadata]
  cases es.filterMap metadataError? <;> rfl

theorem acceptInteger_below {greatest : Option Int} {n b : Int} (hn : n < b) :
    acceptInteger (some b) greatest (.int n) = Verdict.refuse (.below b) := by
  rw [acceptInteger, Option.filter_some, if_pos (decide_eq_true hn)]

theorem acceptInteger_above {least : Option Int} {n b : Int} (hl : ∀ a ∈ least, a ≤ n)
    (hn : b < n) : acceptInteger least (some b) (.int n) = Verdict.refuse (.above b) := by
  have hnone : least.filter (fun a => n < a) = none := by
    rw [Option.filter_eq_none_iff]
    intro a ha
    simpa using hl a ha
  rw [acceptInteger, hnone, Option.filter_some, if_pos (decide_eq_true hn)]

theorem Rule.accept_of_isStructural (hs : rule.isStructural) {verdict : Verdict}
    (h : rule.accept form place v = .ok verdict) : verdict.errors = [] := by
  cases rule with
  | place | children | properties =>
    obtain ⟨u, -, rfl⟩ := check_map_eq_ok_iff.1 h
    rfl
  | _ => cases hs

theorem Rule.gives_iff_of_not_isStructural (hs : ¬ rule.isStructural) {u : Value} :
    rule.Gives form place v u ↔ u = v ∧ rule.Stores form v := by
  cases rule with
  | place | children | properties => exact absurd rfl hs
  | _ => rfl

theorem Rule.Reports.errors_eq (hk : rule = .kind → form.kind?.isSome) {verdict : Verdict}
    (h : rule.accept form place v = .ok verdict) (hr : rule.Reports form v errors) :
    verdict.errors = errors := by
  cases hr with
  | structural hs => exact accept_of_isStructural hs h
  | stored hs hv =>
    rw [(Rule.accept_eq_ok_iff hk).2 ((gives_iff_of_not_isStructural hs).2 ⟨rfl, hv⟩)] at h
    cases h
    rfl
  | wrongKind hv =>
    cases h
    rw [acceptKind, if_neg (mt Value.isText_iff.1 hv)]
    rfl
  | notText hv =>
    cases h
    cases v with
    | str s => exact absurd rfl (hv s)
    | _ => rfl
  | emptyText =>
    cases h
    rfl
  | notInteger hv =>
    cases h
    cases v with
    | int n => exact absurd rfl (hv n)
    | _ => rfl
  | below hn =>
    cases h
    rw [acceptInteger_below hn]
    rfl
  | above hl hn =>
    cases h
    rw [acceptInteger_above hl hn]
    rfl
  | notFlag hv =>
    cases h
    cases v with
    | bool b => exact absurd rfl (hv b)
    | _ => rfl
  | notMapping hv =>
    cases h
    cases v with
    | map es => exact absurd rfl (hv es)
    | _ => rfl
  | otherKeys =>
    cases h
    rw [otherKeys_map_eq, acceptMetadata_errors]

theorem acceptKind_reports (h : acceptKind form v = .error errors) :
    Rule.kind.Reports form v errors := by
  rw [acceptKind] at h
  split at h
  · cases h
  · rename_i hv
    cases h
    exact .wrongKind (mt Value.isText_iff.2 hv)

theorem acceptText_reports {nonempty : Bool} (h : acceptText nonempty v = .error errors) :
    (Rule.text nonempty).Reports form v errors := by
  cases v with
  | str s =>
    rw [acceptText] at h
    split at h
    · rename_i hs
      obtain ⟨rfl, hs⟩ := Bool.and_eq_true_iff.1 hs
      cases h
      obtain rfl := String.isEmpty_iff.1 hs
      exact .emptyText
    · cases h
  | _ =>
    cases h
    exact .notText (by simp)

theorem acceptInteger_reports {least greatest : Option Int}
    (h : acceptInteger least greatest v = .error errors) :
    (Rule.integer least greatest).Reports form v errors := by
  cases v with
  | int n =>
    by_cases hleast : ∃ b ∈ least, n < b
    · obtain ⟨b, rfl, hn⟩ := hleast
      rw [acceptInteger_below hn] at h
      cases h
      exact .below hn
    · simp only [not_exists, not_and, Int.not_lt] at hleast
      by_cases hgreatest : ∃ b ∈ greatest, b < n
      · obtain ⟨b, rfl, hn⟩ := hgreatest
        rw [acceptInteger_above hleast hn] at h
        cases h
        exact .above hleast hn
      · simp only [not_exists, not_and, Int.not_lt] at hgreatest
        rw [acceptInteger_eq_ok_iff.2 ⟨rfl, n, rfl, hleast, hgreatest⟩] at h
        cases h
  | _ =>
    cases h
    exact .notInteger (by simp)

theorem acceptFlag_reports (h : acceptFlag v = .error errors) :
    Rule.flag.Reports form v errors := by
  cases v with
  | bool b => cases h
  | _ =>
    cases h
    exact .notFlag (by simp)

theorem acceptMetadata_reports (h : acceptMetadata v = .error errors) :
    Rule.metadata.Reports form v errors := by
  cases v with
  | map es =>
    rw [acceptMetadata] at h
    split at h
    · cases h
    · rename_i hne
      cases h
      rw [← otherKeys_map_eq] at hne ⊢
      refine .otherKeys fun hnil => hne ?_
      rw [hnil]
      rfl
  | _ =>
    cases h
    exact .notMapping (by simp)

theorem Rule.reports_of_accept (hk : rule = .kind → form.kind?.isSome) {verdict : Verdict}
    (h : rule.accept form place v = .ok verdict) : rule.Reports form v verdict.errors := by
  by_cases hs : rule.isStructural
  · rw [accept_of_isStructural hs h]
    exact .structural hs
  cases verdict with
  | ok u =>
    have hgives := (Rule.accept_eq_ok_iff hk).1 h
    exact .stored hs ((gives_iff_of_not_isStructural hs).1 hgives).2
  | error errors =>
    cases rule with
    | kind => exact acceptKind_reports (Except.ok.inj h)
    | text => exact acceptText_reports (Except.ok.inj h)
    | integer => exact acceptInteger_reports (Except.ok.inj h)
    | flag => exact acceptFlag_reports (Except.ok.inj h)
    | metadata => exact acceptMetadata_reports (Except.ok.inj h)
    | place | children | properties => exact absurd rfl hs

/-- The errors in a verdict are those that are to be reported. -/
theorem Rule.reports_iff (hk : rule = .kind → form.kind?.isSome) {verdict : Verdict}
    (h : rule.accept form place v = .ok verdict) :
    rule.Reports form v errors ↔ verdict.errors = errors := by
  constructor
  · exact Reports.errors_eq hk h
  · rintro rfl
    exact reports_of_accept hk h

theorem Rule.accept_eq_error_iff :
    rule.accept form place v = .error w ↔ rule.Breaks form place v w := by
  cases rule with
  | place | children | properties => exact check_map_eq_error_iff
  | _ =>
    refine iff_of_false ?_ id
    rintro ⟨⟩

end Rules

section Fields

variable {form : Form} {place : Form → Value → Except Violation Record} {es : Entries}
  {accept : Rule → Value → Except Violation Verdict} {s : FieldSpec} {specs : List FieldSpec}
  {errors : List FieldError} {w : Violation}

theorem FieldSpec.read_of_given {key : String} {v : Value} (hf : s.field.find? es = some (key, v))
    (hn : ¬ (s.nullable ∧ v = .null)) :
    s.read accept es = (accept s.rule v).map (Verdict.under key) := by
  have hnull : ¬ (s.nullable && v.isNull) = true := by
    rw [Bool.and_eq_true, Value.isNull_iff]
    exact hn
  rw [read, hf]
  exact if_neg hnull

theorem FieldSpec.read_of_null {key : String} (hf : s.field.find? es = some (key, .null))
    (hn : s.nullable) : s.read accept es = .ok (.ok .null) := by
  rw [read, hf]
  exact if_pos (by rw [hn]; rfl)

theorem FieldSpec.given_cases (s : FieldSpec) (es : Entries) :
    s.field.find? es = none ∨ (∃ key, s.field.find? es = some (key, .null) ∧ s.nullable) ∨
      ∃ key v, s.field.find? es = some (key, v) ∧ ¬ (s.nullable ∧ v = .null) := by
  cases hf : s.field.find? es with
  | none => exact .inl rfl
  | some given =>
    obtain ⟨key, v⟩ := given
    by_cases hn : s.nullable ∧ v = .null
    · obtain ⟨hn, rfl⟩ := hn
      exact .inr (.inl ⟨key, rfl, hn⟩)
    · exact .inr (.inr ⟨key, v, rfl, hn⟩)

/-- Reading a field ends the check if and only if the structure below the field is at fault. -/
theorem FieldSpec.read_eq_error_iff :
    s.read (Rule.accept form place) es = .error w ↔ s.Breaks form place es w := by
  rcases s.given_cases es with hf | ⟨key, hf, hn⟩ | ⟨key, v, hf, hn⟩
  · rw [read, hf]
    cases s.default? <;> simp [Breaks, hf]
  · rw [read_of_null hf hn]
    simp [Breaks, hf, hn]
  · rw [read_of_given hf hn, check_map_eq_error_iff, Rule.accept_eq_error_iff]
    constructor
    · intro hw
      exact ⟨key, v, hf, hn, hw⟩
    · rintro ⟨key', v', hf', -, hw⟩
      cases hf.symm.trans hf'
      exact hw

/-- A field that is read has the errors of its verdict and no others. -/
theorem FieldSpec.reports_iff (hk : s.rule = .kind → form.kind?.isSome) {verdict : Verdict}
    (h : s.read (Rule.accept form place) es = .ok verdict) :
    s.Reports form es errors ↔ verdict.errors = errors := by
  constructor
  · intro hr
    cases hr with
    | missing hf hd =>
      rw [read, hf, hd] at h
      cases h
      rfl
    | default hf hd =>
      obtain ⟨v, hd⟩ := Option.isSome_iff_exists.1 hd
      rw [read, hf, hd] at h
      cases h
      rfl
    | null hf hn =>
      rw [read_of_null hf hn] at h
      cases h
      rfl
    | given hf hn hr =>
      rw [read_of_given hf hn] at h
      obtain ⟨verdict, ha, rfl⟩ := check_map_eq_ok_iff.1 h
      rw [Verdict.errors_under, (Rule.reports_iff hk ha).1 hr]
  · rintro rfl
    rcases s.given_cases es with hf | ⟨key, hf, hn⟩ | ⟨key, v, hf, hn⟩
    · rw [read, hf] at h
      cases hd : s.default? with
      | none =>
        rw [hd] at h
        cases h
        exact .missing hf hd
      | some v =>
        rw [hd] at h
        cases h
        exact .default hf (by rw [hd]; rfl)
    · rw [read_of_null hf hn] at h
      cases h
      exact .null hf hn
    · rw [read_of_given hf hn] at h
      obtain ⟨verdict, ha, rfl⟩ := check_map_eq_ok_iff.1 h
      rw [Verdict.errors_under]
      exact .given hf hn ((Rule.reports_iff hk ha).2 rfl)

theorem readFields_cons_eq_ok {fields : List (Field × Value)}
    (h : readFields accept es (s :: specs) = .ok (errors, fields)) :
    ∃ verdict rest fields', s.read accept es = .ok verdict ∧
      readFields accept es specs = .ok (rest, fields') ∧ errors = verdict.errors ++ rest := by
  rw [readFields] at h
  simp only [check_bind_eq_ok_iff] at h
  obtain ⟨verdict, hread, ⟨rest, fields'⟩, hrest, h⟩ := h
  refine ⟨verdict, rest, fields', hread, hrest, ?_⟩
  cases verdict with
  | ok v =>
    cases h
    rfl
  | error first =>
    cases h
    rfl

/-- Reading collects the errors of the fields in schema order. -/
theorem fieldsReport_iff (hk : ∀ s ∈ specs, s.rule = .kind → form.kind?.isSome)
    {collected : List FieldError} {fields : List (Field × Value)}
    (h : readFields (Rule.accept form place) es specs = .ok (collected, fields)) :
    FieldsReport form es specs errors ↔ collected = errors := by
  induction specs generalizing errors collected fields with
  | nil =>
    cases h
    constructor
    · rintro ⟨⟩
      rfl
    · rintro rfl
      exact .nil
  | cons s specs ih =>
    obtain ⟨hks, hkrest⟩ := List.forall_mem_cons.1 hk
    obtain ⟨verdict, rest, fields', hread, hrest, rfl⟩ := readFields_cons_eq_ok h
    constructor
    · intro hr
      cases hr with
      | cons hfirst hrest' =>
        rw [(FieldSpec.reports_iff hks hread).1 hfirst, (ih hkrest hrest).1 hrest']
    · rintro rfl
      exact .cons ((FieldSpec.reports_iff hks hread).2 rfl) ((ih hkrest hrest).2 rfl)

theorem Form.knows_iff {name : String} : form.knows es (.str name) ↔
    name ∈ form.specs.filterMap fun s => (s.field.find? es).map Prod.fst := by
  rw [knows, List.any_eq_true, List.mem_filterMap]
  refine exists_congr fun s => and_congr_right fun _ => ?_
  cases s.field.find? es with
  | none => simp
  | some given => simp [Value.isText, eq_comm]

theorem Form.not_knows {key : Value} (hkey : ∀ name, key ≠ .str name) :
    form.knows es key = false := by
  rw [knows, List.any_eq_false]
  intro s _
  cases s.field.find? es with
  | none => simp
  | some given => simpa [Value.isText_iff] using hkey given.1

theorem Form.strayErrors_eq : form.strayErrors es = unknownKeys form.specs es := by
  rw [strayErrors, unknownKeys, ← List.filterMap_eq_map, List.filterMap_filter]
  refine List.filterMap_congr fun e _ => ?_
  obtain ⟨key, v⟩ := e
  cases key with
  | str name =>
    dsimp only
    by_cases hknown : form.knows es (.str name) = true
    · rw [if_pos (Form.knows_iff.1 hknown), hknown]
      rfl
    · rw [if_neg (mt Form.knows_iff.2 hknown), Bool.eq_false_of_not_eq_true hknown]
      rfl
  | _ =>
    dsimp only
    rw [Form.not_knows (by simp)]
    rfl

end Fields

section New

variable {form : Form} {place : Form → Value → Except Violation Record} {es : Entries}
  {next : Ident} {errors : List FieldError} {w : Violation}

/-- What comes before the errors are counted: the shape, and then the fields one by one. -/
theorem breaks_iff (hk : form.kind?.isSome) : form.Breaks place es w ↔
    (checkShape form es >>= fun _ => readFields (Rule.accept form place) es form.specs) =
      .error w := by
  by_cases hchildless : form.shape ≠ .branch ∧ es.contains "children"
  · obtain ⟨kind, hkind⟩ := Option.isSome_iff_exists.1 hk
    rw [checkShape_of_childless (Form.isNode_of_kind hkind) hk hchildless.1 hchildless.2]
    constructor
    · intro h
      cases h with
      | childless => rfl
      | field hno => exact absurd hchildless hno
    · rintro ⟨⟩
      exact .childless hchildless.1 hchildless.2
  · have hshape : checkShape form es = .ok () := checkShape_eq_ok_iff.2 fun _ =>
      ⟨hk, fun hc => not_not.1 fun hb => hchildless ⟨hb, hc⟩⟩
    rw [hshape]
    change _ ↔ readFields (Rule.accept form place) es form.specs = .error w
    simp only [readFields_eq_error_iff, ne_eq, FieldSpec.read_eq_error_iff]
    constructor
    · intro h
      cases h with
      | childless hb hc => exact absurd ⟨hb, hc⟩ hchildless
      | field _ hspecs hbefore hs => exact ⟨_, _, _, hspecs, hbefore, hs⟩
    · rintro ⟨before, s, after, hspecs, hbefore, hs⟩
      exact .field hchildless hspecs hbefore hs

theorem reports_iff (hk : form.kind?.isSome) {collected : List FieldError}
    {fields : List (Field × Value)}
    (h : readFields (Rule.accept form place) es form.specs = .ok (collected, fields)) :
    form.Reports es errors ↔ collected ++ unknownKeys form.specs es = errors := by
  constructor
  · rintro ⟨rest, hrest, rfl⟩
    rw [(fieldsReport_iff (fun _ _ _ => hk) h).1 hrest, Form.strayErrors_eq]
  · rintro rfl
    exact ⟨collected, (fieldsReport_iff (fun _ _ _ => hk) h).2 rfl, by rw [Form.strayErrors_eq]⟩

theorem Form.Breaks.unique (hk : form.kind?.isSome) {w' : Violation}
    (h : form.Breaks place es w) (h' : form.Breaks place es w') : w = w' := by
  rw [breaks_iff hk] at h h'
  exact Except.error.inj (h.symm.trans h')

theorem Rule.Reports.length_le {rule : Rule} {v : Value} (h : rule.Reports form v errors)
    (hrule : rule ≠ .metadata) : errors.length ≤ 1 := by
  cases h with
  | otherKeys => exact absurd rfl hrule
  | structural | stored => exact Nat.zero_le 1
  | _ => exact Nat.le_refl 1

theorem FieldSpec.Reports.length_le {s : FieldSpec} (h : s.Reports form es errors)
    (hrule : s.rule ≠ .metadata) : errors.length ≤ 1 := by
  cases h with
  | missing => exact Nat.le_refl 1
  | default | null => exact Nat.zero_le 1
  | given _ _ hr =>
    rw [List.length_map]
    exact hr.length_le hrule

end New

end DocTree
