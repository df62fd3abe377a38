import Mathlib.Data.List.Forall2
import DocTree.Proofs.Audit
import DocTree.Proofs.Visiting

/-!
What it takes for data to pass a check, and what is stored then. Rules are taken first, then the
reading of single fields, then whole mappings. Main statements: `Rule.accept_eq_ok_iff`,
`readFields_eq_ok_iff`, `assemble_eq_ok_iff` and `checkWith_map_eq_ok_iff`.
-/
namespace DocTree

theorem Verdict.under_eq_ok_iff {key : String} {verdict : Verdict} {v : Value} :
    verdict.under key = .ok v ↔ verdict = .ok v := by
  cases verdict <;> simp [Verdict.under]

section Rules

variable {form : Form} {v w : Value}

theorem acceptKind_eq_ok_iff : acceptKind form v = .ok w ↔ w = v ∧ v = .str form.kindText := by
  unfold acceptKind
  split
  · rename_i h
    simp [Value.isText_iff.1 h, eq_comm]
  · rename_i h
    have hne : v ≠ .str form.kindText := fun he => h (Value.isText_iff.2 he)
    simp [Verdict.refuse, hne]

theorem acceptText_eq_ok_iff {nonempty : Bool} :
    acceptText nonempty v = .ok w ↔ w = v ∧ ∃ s, v = .str s ∧ (nonempty → s ≠ "") := by
  cases v with
  | str s =>
    by_cases h : (nonempty && s.isEmpty) = true
    · have hs : nonempty = true ∧ s = "" := by simpa using h
      simp [acceptText, Verdict.refuse, hs]
    · have hs : nonempty = true → s ≠ "" := by simpa using h
      simp [acceptText, h, eq_comm]
      exact fun _ => hs
  | _ => simp [acceptText, Verdict.refuse]

theorem acceptInteger_eq_ok_iff {least greatest : Option Int} :
    acceptInteger least greatest v = .ok w ↔
      w = v ∧ ∃ n, v = .int n ∧ (∀ b ∈ least, b ≤ n) ∧ ∀ b ∈ greatest, n ≤ b := by
  cases v with
  | int n =>
    simp only [acceptInteger]
    split
    · rename_i b h
      obtain ⟨hm, hb⟩ := Option.filter_eq_some_iff.1 h
      constructor
      · rintro ⟨⟩
      · rintro ⟨-, m, he, hl, -⟩
        obtain rfl := Value.int.inj he
        have := hl b hm
        simp only [decide_eq_true_eq] at hb
        omega
    · rename_i b _ h
      obtain ⟨hm, hb⟩ := Option.filter_eq_some_iff.1 h
      constructor
      · rintro ⟨⟩
      · rintro ⟨-, m, he, -, hg⟩
        obtain rfl := Value.int.inj he
        have := hg b hm
        simp only [decide_eq_true_eq] at hb
        omega
    · rename_i hl hg
      simp only [Option.filter_eq_none_iff, decide_eq_true_eq, Int.not_lt] at hl hg
      constructor
      · rintro ⟨⟩
        exact ⟨rfl, n, rfl, hl, hg⟩
      · rintro ⟨rfl, -⟩
        rfl
  | _ => simp [acceptInteger, Verdict.refuse]

theorem acceptFlag_eq_ok_iff : acceptFlag v = .ok w ↔ w = v ∧ ∃ b, v = .bool b := by
  cases v <;> simp [acceptFlag, Verdict.refuse, eq_comm]

theorem metadataError?_eq_none_iff {e : Value × Value} :
    metadataError? e = none ↔ ∃ s, e.1 = .str s := by
  obtain ⟨k, v⟩ := e
  cases k <;> simp [metadataError?]

theorem acceptMetadata_eq_ok_iff :
    acceptMetadata v = .ok w ↔ w = v ∧ ∃ es, v = .map es ∧ ∀ e ∈ es, ∃ s, e.1 = .str s := by
  cases v with
  | map es =>
    have hnone : es.filterMap metadataError? = [] ↔ ∀ e ∈ es, ∃ s, e.1 = .str s := by
      simp only [List.filterMap_eq_nil_iff, metadataError?_eq_none_iff]
    simp only [acceptMetadata]
    split
    · rename_i h
      constructor
      · rintro ⟨⟩
        exact ⟨rfl, es, rfl, hnone.1 h⟩
      · rintro ⟨rfl, -⟩
        rfl
    · rename_i h
      constructor
      · rintro ⟨⟩
      · rintro ⟨-, es', he, hall⟩
        obtain rfl := Value.map.inj he
        exact absurd (hnone.2 hall) h
  | _ => simp [acceptMetadata, Verdict.refuse]

theorem isListMember_iff :
    v.isListMember ↔ (∃ n, v = .int n) ∨ (∃ x, v = .float x) ∨ ∃ s, v = .str s := by
  cases v <;> simp [Value.isListMember]

theorem all_isListMember_iff {xs : List Value} :
    xs.all Value.isListMember ↔ (Value.list xs).IsProperty := by
  simp only [List.all_eq_true, isListMember_iff]
  exact ⟨.list, fun h => by cases h; assumption⟩

theorem property?_eq_some_iff :
    v.property? = some w ↔ w.IsProperty ∧ (w = v ∨ ∃ xs, v = .tuple xs ∧ w = .list xs) := by
  cases v with
  | list xs =>
    simp only [Value.property?, Option.ite_none_right_eq_some, all_isListMember_iff,
      Option.some.injEq, reduceCtorEq, false_and, exists_false, or_false]
    constructor
    · rintro ⟨h, rfl⟩
      exact ⟨h, rfl⟩
    · rintro ⟨h, rfl⟩
      exact ⟨h, rfl⟩
  | tuple xs =>
    simp only [Value.property?, Option.ite_none_right_eq_some, all_isListMember_iff,
      Option.some.injEq, Value.tuple.injEq, exists_eq_left']
    constructor
    · rintro ⟨h, rfl⟩
      exact ⟨h, .inr rfl⟩
    · rintro ⟨h, rfl | rfl⟩
      · cases h
      · exact ⟨h, rfl⟩
  | null | bool | int | float | str =>
    simp only [Value.property?, Value.isScalar, if_true, Option.some.injEq, reduceCtorEq,
      false_and, exists_false, or_false, eq_comm, iff_and_self]
    rintro rfl
    constructor
  | bytes | set | stream | map | record =>
    simp only [Value.property?, Value.isScalar, Bool.false_eq_true, if_false, reduceCtorEq,
      false_and, exists_false, or_false, false_iff, not_and]
    rintro h rfl
    cases h

theorem mapM_eq_ok_iff {α β : Type} {f : α → Except Violation β} {xs : List α} {ys : List β} :
    xs.mapM f = .ok ys ↔ List.Forall₂ (fun x y => f x = .ok y) xs ys := by
  induction xs generalizing ys with
  | nil => cases ys <;> simp [pure, Except.pure]
  | cons x xs ih =>
    simp only [List.mapM_cons, check_bind_eq_ok_iff, ih, List.forall₂_cons_left_iff]
    constructor
    · rintro ⟨y, hy, ys', hys, ⟨⟩⟩
      exact ⟨y, ys', hy, hys, rfl⟩
    · rintro ⟨y, ys', hy, hys, rfl⟩
      exact ⟨y, hy, ys', hys, rfl⟩

theorem checkProperty_eq_ok_iff {e f : Value × Value} :
    checkProperty e = .ok f ↔
      ∃ name, e.1 = .str name ∧ f.1 = .str name ∧ e.2.property? = some f.2 := by
  obtain ⟨k, v⟩ := e
  obtain ⟨k', v'⟩ := f
  cases k with
  | str name => cases h : v.property? <;> simp [checkProperty, h, eq_comm]
  | _ => simp [checkProperty]

theorem gatherProperties_eq_ok_iff :
    gatherProperties v = .ok w ↔ v = .null ∧ w = .map [] ∨
      ∃ es fs, v = .map es ∧ w = .map fs ∧ List.Forall₂ (fun e f => ∃ name,
        e.1 = .str name ∧ f.1 = .str name ∧ e.2.property? = some f.2) es fs := by
  cases v with
  | null => simp [gatherProperties, eq_comm]
  | map es =>
    simp only [gatherProperties, check_map_eq_ok_iff, mapM_eq_ok_iff, checkProperty_eq_ok_iff,
      reduceCtorEq, false_and, false_or, Value.map.injEq]
    constructor
    · rintro ⟨fs, h, rfl⟩
      exact ⟨es, fs, rfl, rfl, h⟩
    · rintro ⟨_, fs, rfl, rfl, h⟩
      exact ⟨fs, h, rfl⟩
  | _ => simp [gatherProperties]

theorem gatherProperties_of_isProperty {es : Entries}
    (h : ∀ e ∈ es, (∃ s, e.1 = .str s) ∧ e.2.IsProperty) :
    gatherProperties (.map es) = .ok (.map es) := by
  refine gatherProperties_eq_ok_iff.2 (.inr ⟨es, es, rfl, rfl, ?_⟩)
  rw [List.forall₂_same]
  intro e he
  obtain ⟨⟨name, hk⟩, hp⟩ := h e he
  exact ⟨name, hk, hk, property?_eq_some_iff.2 ⟨hp, .inl rfl⟩⟩

theorem gatherChildren_eq_ok_iff :
    gatherChildren form v = .ok w ↔ ∃ xs, v.sequence? = some xs ∧ w = .tuple xs ∧
      (∀ x ∈ xs, Record.FitsUnder form x) ∧ Visitable (visitsOfItems xs) := by
  unfold gatherChildren
  cases v.sequence? with
  | none => simp
  | some xs =>
    simp only [check_bind_eq_ok_iff, Option.some.injEq, exists_eq_left']
    constructor
    · rintro ⟨u, hfit, u', hvisits, h⟩
      exact ⟨(Except.ok.inj h).symm, checkChildren_eq_ok_iff.1 hfit,
        checkVisits_nil_eq_ok_iff.1 hvisits⟩
    · rintro ⟨rfl, hfit, hvisits⟩
      exact ⟨(), checkChildren_eq_ok_iff.2 hfit, (), checkVisits_nil_eq_ok_iff.2 hvisits, rfl⟩

theorem gatherChildren_of_error {xs : List Value} {w : Violation} (hv : v.sequence? = some xs)
    (h : checkChildren form xs = .error w) : gatherChildren form v = .error w := by
  unfold gatherChildren
  rw [hv]
  simp only [h, bind, Except.bind]

/-- What a rule makes of a value that it accepts: places, children and properties are gathered
anew, all else is stored as it is. -/
def Rule.Gives (form : Form) (place : Form → Value → Except Violation Record) :
    Rule → Value → Value → Prop
  | .place f, v, w => ∃ r, place f v = .ok r ∧ .record r = w
  | .children, v, w => gatherChildren form v = .ok w
  | .properties, v, w => gatherProperties v = .ok w
  | rule, v, w => w = v ∧ rule.Stores form v

variable {place : Form → Value → Except Violation Record} {rule : Rule}

theorem Rule.accept_eq_ok_iff (hk : rule = .kind → form.kind?.isSome) :
    rule.accept form place v = .ok (.ok w) ↔ rule.Gives form place v w := by
  cases rule with
  | kind =>
    obtain ⟨kind, hkind⟩ := Option.isSome_iff_exists.1 (hk rfl)
    simp [accept, Gives, Stores, acceptKind_eq_ok_iff, Form.kindText, hkind]
  | text => simp [accept, Gives, Stores, acceptText_eq_ok_iff]
  | integer => simp [accept, Gives, Stores, acceptInteger_eq_ok_iff]
  | flag => simp [accept, Gives, Stores, acceptFlag_eq_ok_iff]
  | metadata => simp [accept, Gives, Stores, acceptMetadata_eq_ok_iff]
  | place f => simp [accept, Gives, check_map_eq_ok_iff]
  | children => simp [accept, Gives, check_map_eq_ok_iff]
  | properties => simp [accept, Gives, check_map_eq_ok_iff]

theorem Rule.accept_ne_error_nil : rule.accept form place v ≠ .ok (.error []) := by
  cases rule with
  | kind =>
    simp only [accept, acceptKind, ne_eq, Except.ok.injEq]
    split <;> simp [Verdict.refuse]
  | text =>
    simp only [accept, acceptText, ne_eq, Except.ok.injEq]
    split
    · split <;> simp [Verdict.refuse]
    · simp [Verdict.refuse]
  | integer =>
    simp only [accept, acceptInteger, ne_eq, Except.ok.injEq]
    split
    · split <;> simp [Verdict.refuse]
    · simp [Verdict.refuse]
  | flag =>
    simp only [accept, acceptFlag, ne_eq, Except.ok.injEq]
    split <;> simp [Verdict.refuse]
  | metadata =>
    simp only [accept, acceptMetadata, ne_eq, Except.ok.injEq]
    split
    · split
      · simp
      · rename_i errors hne
        simpa using hne
    · simp [Verdict.refuse]
  | place f => simp [accept, check_map_eq_ok_iff]
  | children => simp [accept, check_map_eq_ok_iff]
  | properties => simp [accept, check_map_eq_ok_iff]

end Rules

section Fields

variable {es : Entries} {accept : Rule → Value → Except Violation Verdict}

theorem Field.find?_eq_some {f : Field} {key : String} {v : Value}
    (h : f.find? es = some (key, v)) : key ∈ f.keys ∧ es.get? key = some v := by
  obtain ⟨key', hm, hv⟩ := List.exists_of_findSome?_eq_some h
  obtain ⟨v', hv', he⟩ := Option.map_eq_some_iff.1 hv
  obtain ⟨rfl, rfl⟩ := Prod.mk.inj he
  exact ⟨hm, hv'⟩

theorem Field.find?_eq_none_iff {f : Field} :
    f.find? es = none ↔ ∀ key ∈ f.keys, es.get? key = none := by
  simp [find?, List.findSome?_eq_none_iff]

theorem Field.find?_of_get?_key {f : Field} {v : Value} (h : es.get? f.key = some v) :
    f.find? es = some (f.key, v) := by
  unfold find? keys key at *
  cases ha : f.alias? <;> simp_all

theorem FieldSpec.read_eq_ok_iff {s : FieldSpec} {v : Value} :
    s.read accept es = .ok (.ok v) ↔
      s.field.find? es = none ∧ s.default? = some v ∨
        ∃ key w, s.field.find? es = some (key, w) ∧
          (s.nullable ∧ w = .null ∧ v = .null ∨
            ¬ (s.nullable ∧ w = .null) ∧ accept s.rule w = .ok (.ok v)) := by
  unfold read
  cases s.field.find? es with
  | none => cases s.default? <;> simp
  | some p =>
    obtain ⟨key, w⟩ := p
    have hnull : (s.nullable && w.isNull) = true ↔ s.nullable ∧ w = .null := by
      rw [Bool.and_eq_true, Value.isNull_iff]
    simp only [reduceCtorEq, false_and, false_or, Option.some.injEq, Prod.mk.injEq]
    constructor
    · intro h
      refine ⟨key, w, ⟨rfl, rfl⟩, ?_⟩
      split at h
      · rename_i hn
        obtain ⟨hs, rfl⟩ := hnull.1 hn
        exact .inl ⟨hs, rfl, (Except.ok.inj (Except.ok.inj h)).symm⟩
      · rename_i hn
        obtain ⟨verdict, ha, hv⟩ := check_map_eq_ok_iff.1 h
        exact .inr ⟨mt hnull.2 hn, by rw [ha, Verdict.under_eq_ok_iff.1 hv]⟩
    · rintro ⟨_, _, ⟨rfl, rfl⟩, ⟨hs, rfl, rfl⟩ | ⟨hn, ha⟩⟩
      · rw [if_pos (hnull.2 ⟨hs, rfl⟩)]
      · rw [if_neg (mt hnull.1 hn), ha]
        rfl

theorem FieldSpec.read_ne_error_nil {s : FieldSpec}
    (ha : ∀ rule v, accept rule v ≠ .ok (.error [])) : s.read accept es ≠ .ok (.error []) := by
  unfold read
  split
  · split <;> simp
  · rename_i key w _
    split
    · simp
    · rw [ne_eq, check_map_eq_ok_iff]
      rintro ⟨verdict, hv, he⟩
      cases verdict with
      | ok u => simp [Verdict.under] at he
      | error errors =>
        have hnil : errors = [] := by simpa [Verdict.under] using he
        exact ha _ _ (hnil ▸ hv)

/-- There is no unknown key when every key is the one under which some field is found. -/
theorem unknownKeys_eq_nil_iff {specs : List FieldSpec} :
    unknownKeys specs es = [] ↔ ∀ k ∈ es.map Prod.fst, ∃ s ∈ specs, ∃ key v,
      k = .str key ∧ s.field.find? es = some (key, v) := by
  unfold unknownKeys
  simp only [List.filterMap_eq_nil_iff, List.forall_mem_map]
  refine forall₂_congr fun e _ => ?_
  obtain ⟨k, w⟩ := e
  cases k with
  | str name =>
    simp only [ite_eq_left_iff, reduceCtorEq, imp_false, not_not, List.mem_filterMap,
      Option.map_eq_some_iff, Prod.exists, Value.str.injEq]
    constructor
    · rintro ⟨s, hs, key, v, hf, rfl⟩
      exact ⟨s, hs, key, v, rfl, hf⟩
    · rintro ⟨s, hs, key, v, rfl, hf⟩
      exact ⟨s, hs, name, v, hf, rfl⟩
  | _ => simp

theorem unknownKeys_congr {specs : List FieldSpec} {fs : Entries}
    (h : es.map Prod.fst = fs.map Prod.fst)
    (hfind : ∀ s ∈ specs, (s.field.find? es).map Prod.fst = (s.field.find? fs).map Prod.fst) :
    unknownKeys specs es = unknownKeys specs fs := by
  have hused : (specs.filterMap fun s => (s.field.find? es).map Prod.fst) =
      specs.filterMap fun s => (s.field.find? fs).map Prod.fst :=
    List.filterMap_congr hfind
  have hsame : List.Forall₂ (fun e f => e.1 = f.1) es fs := by
    rw [← List.forall₂_eq_eq_eq, List.forall₂_map_left_iff, List.forall₂_map_right_iff] at h
    exact h
  unfold unknownKeys
  rw [hused]
  generalize (specs.filterMap fun s => (s.field.find? fs).map Prod.fst) = used
  dsimp only
  clear hfind hused h
  induction hsame with
  | nil => rfl
  | cons he _ ih => rw [List.filterMap_cons, List.filterMap_cons, he, ih]

/-- Reading ends without a fault when every field of the schema is read without one. -/
theorem readFields_eq_ok_iff {specs : List FieldSpec} {fields : List (Field × Value)}
    (ha : ∀ rule v, accept rule v ≠ .ok (.error [])) :
    readFields accept es specs = .ok ([], fields) ↔
      List.Forall₂ (fun s p => p.1 = s.field ∧ s.read accept es = .ok (.ok p.2)) specs fields := by
  induction specs generalizing fields with
  | nil => cases fields <;> simp [readFields]
  | cons s specs ih =>
    simp only [readFields, check_bind_eq_ok_iff, List.forall₂_cons_left_iff, ← ih]
    constructor
    · rintro ⟨verdict, hv, ⟨errors, rest⟩, hr, h⟩
      cases verdict with
      | ok v =>
        obtain ⟨rfl, rfl⟩ := Prod.mk.inj (Except.ok.inj h)
        exact ⟨(s.field, v), rest, ⟨rfl, hv⟩, hr, rfl⟩
      | error first =>
        have hnil : first = [] := by
          have := (Prod.mk.inj (Except.ok.inj h)).1
          simp at this
          exact this.1
        exact absurd (hnil ▸ hv) (FieldSpec.read_ne_error_nil ha)
    · rintro ⟨⟨f, v⟩, rest, ⟨hf, hv⟩, hr, rfl⟩
      refine ⟨.ok v, hv, ([], rest), hr, ?_⟩
      rw [← hf]

theorem readFields_cons_eq_error {s : FieldSpec} {specs : List FieldSpec} {w : Violation}
    {verdict : Verdict} (h : s.read accept es = .ok verdict) :
    readFields accept es (s :: specs) = .error w ↔ readFields accept es specs = .error w := by
  rw [readFields, h]
  cases readFields accept es specs with
  | error => rfl
  | ok collected =>
    refine iff_of_false ?_ (by simp)
    cases verdict <;> rintro ⟨⟩

theorem exists_first_cons_iff {α : Type} {P Q : α → Prop} {a : α} {l : List α} :
    (∃ before x after, a :: l = before ++ x :: after ∧ (∀ t ∈ before, P t) ∧ Q x) ↔
      Q a ∨ P a ∧ ∃ before x after, l = before ++ x :: after ∧ (∀ t ∈ before, P t) ∧ Q x := by
  constructor
  · rintro ⟨before, x, after, happend, hbefore, hx⟩
    cases before with
    | nil =>
      cases happend
      exact .inl hx
    | cons b before =>
      cases happend
      obtain ⟨ha, hbefore⟩ := List.forall_mem_cons.1 hbefore
      exact .inr ⟨ha, before, x, after, rfl, hbefore, hx⟩
  · rintro (ha | ⟨ha, before, x, after, rfl, hbefore, hx⟩)
    · exact ⟨[], a, l, rfl, by simp, ha⟩
    · exact ⟨a :: before, x, after, rfl, List.forall_mem_cons.2 ⟨ha, hbefore⟩, hx⟩

theorem readFields_eq_error_iff {specs : List FieldSpec} {w : Violation} :
    readFields accept es specs = .error w ↔ ∃ before s after, specs = before ++ s :: after ∧
      (∀ t ∈ before, ∀ w', t.read accept es ≠ .error w') ∧ s.read accept es = .error w := by
  induction specs with
  | nil => simp [readFields]
  | cons s specs ih =>
    rw [exists_first_cons_iff]
    cases hread : s.read accept es with
    | error w' =>
      have hw : readFields accept es (s :: specs) = .error w' := by
        rw [readFields, hread]
        rfl
      simp [hw]
    | ok verdict =>
      rw [readFields_cons_eq_error hread, ih]
      simp

/-- The value that a field takes from the entries: its default if they do not give it, null if it
may be null, and otherwise what its rule makes of the value given. -/
inductive FieldSpec.Takes (form : Form) (place : Form → Value → Except Violation Record)
    (es : Entries) (s : FieldSpec) : Value → Prop
  | default {v : Value} : s.field.find? es = none → s.default? = some v → Takes form place es s v
  | null {key : String} : s.field.find? es = some (key, .null) → s.nullable →
    Takes form place es s .null
  | given {key : String} {w v : Value} : s.field.find? es = some (key, w) →
    ¬ (s.nullable ∧ w = .null) → s.rule.Gives form place w v → Takes form place es s v

variable {form : Form} {place : Form → Value → Except Violation Record}

theorem FieldSpec.takes_iff {s : FieldSpec} {v : Value}
    (hk : s.rule = .kind → form.kind?.isSome) :
    s.read (Rule.accept form place) es = .ok (.ok v) ↔ s.Takes form place es v := by
  rw [read_eq_ok_iff]
  constructor
  · rintro (⟨hf, hd⟩ | ⟨key, w, hf, ⟨hn, rfl, rfl⟩ | ⟨hn, ha⟩⟩)
    · exact .default hf hd
    · exact .null hf hn
    · exact .given hf hn ((Rule.accept_eq_ok_iff hk).1 ha)
  · rintro (⟨hf, hd⟩ | ⟨hf, hn⟩ | ⟨hf, hn, ha⟩)
    · exact .inl ⟨hf, hd⟩
    · exact .inr ⟨_, _, hf, .inl ⟨hn, rfl, rfl⟩⟩
    · exact .inr ⟨_, _, hf, .inr ⟨hn, (Rule.accept_eq_ok_iff hk).2 ha⟩⟩

/-- Fields in the order of a schema without repetitions hold, one by one, what they are asked to
hold when looked up. -/
theorem forall₂_fields_iff {specs : List FieldSpec} {fields : List (Field × Value)}
    {P : FieldSpec → Value → Prop} (hn : (specs.map FieldSpec.field).Nodup) :
    List.Forall₂ (fun s p => p.1 = s.field ∧ P s p.2) specs fields ↔
      fields.map Prod.fst = specs.map FieldSpec.field ∧
        ∀ s ∈ specs, P s ((fields.lookup s.field).getD .null) := by
  induction specs generalizing fields with
  | nil => cases fields <;> simp
  | cons s specs ih =>
    rw [List.map_cons, List.nodup_cons] at hn
    have hne : ∀ t ∈ specs, (t.field == s.field) = false := by
      intro t ht
      have : t.field ≠ s.field := fun he => hn.1 (he ▸ List.mem_map_of_mem ht)
      simpa using this
    cases fields with
    | nil => simp
    | cons p fields =>
      obtain ⟨f, v⟩ := p
      rw [List.forall₂_cons, ih hn.2]
      simp only [List.map_cons, List.cons.injEq, List.forall_mem_cons]
      constructor
      · rintro ⟨⟨rfl, hv⟩, hm, hall⟩
        refine ⟨⟨rfl, hm⟩, by simpa using hv, fun t ht => ?_⟩
        rw [List.lookup_cons, hne t ht]
        exact hall t ht
      · rintro ⟨⟨rfl, hm⟩, hv, hall⟩
        refine ⟨⟨rfl, by simpa using hv⟩, hm, fun t ht => ?_⟩
        have := hall t ht
        rwa [List.lookup_cons, hne t ht] at this

theorem Record.fields_eq_map {r : Record} {specs : List FieldSpec}
    (hn : (specs.map FieldSpec.field).Nodup)
    (h : r.fields.map Prod.fst = specs.map FieldSpec.field) :
    r.fields = specs.map fun s => (s.field, r.get s.field) := by
  have hfields := (forall₂_fields_iff (P := fun s v => v = r.get s.field) hn).2
    ⟨h, fun _ _ => rfl⟩
  have heq : List.Forall₂ (fun p s => p = (s.field, r.get s.field)) r.fields specs :=
    hfields.flip.imp fun p s hp => Prod.ext hp.1 hp.2
  have hmap := List.forall₂_map_right_iff.2 heq
  exact List.forall₂_eq_eq_eq ▸ hmap

theorem checkShape_eq_ok_iff :
    checkShape form es = .ok () ↔ (form.isNode →
      form.kind?.isSome ∧ (es.contains "children" → form.shape = .branch)) := by
  unfold checkShape
  cases hf : form.isNode <;> cases hk : form.kind? <;> cases hc : es.contains "children" <;>
    simp

theorem checkShape_of_childless (hn : form.isNode) (hk : form.kind?.isSome)
    (hb : form.shape ≠ .branch) (hc : es.contains "children") :
    checkShape form es = .error (.childless form) := by
  obtain ⟨kind, hkind⟩ := Option.isSome_iff_exists.1 hk
  simp [checkShape, hn, hkind, hc, hb]

end Fields

/-- How a record made by a check answers to the entries it was made from. -/
structure Assembled (form : Form) (id : Ident) (place : Form → Value → Except Violation Record)
    (es : Entries) (r : Record) : Prop where
  shape : form.isNode → form.kind?.isSome ∧ (es.contains "children" → form.shape = .branch)
  known : unknownKeys form.specs es = []
  ident : r.id = id
  form_eq : r.form = form
  fields : r.fields.map Prod.fst = form.specs.map FieldSpec.field
  takes : ∀ s ∈ form.specs, s.Takes form place es (r.get s.field)
  coupled : checkCoupled form r = .ok ()

theorem Form.isNode_of_rule_kind (form : Form) :
    ∀ s ∈ form.specs, s.rule = .kind → form.isNode := by
  cases form <;> decide

variable {form : Form} {id : Ident} {place : Form → Value → Except Violation Record} {r : Record}

theorem assemble_eq_ok_iff {es : Entries} :
    assemble form id (Rule.accept form place) es = .ok r ↔
      (form.isNode → form.kind?.isSome ∧ (es.contains "children" → form.shape = .branch)) ∧
        unknownKeys form.specs es = [] ∧ r.id = id ∧ r.form = form ∧
          r.fields.map Prod.fst = form.specs.map FieldSpec.field ∧
            ∀ s ∈ form.specs, s.Takes form place es (r.get s.field) := by
  have hne : ∀ rule v, Rule.accept form place rule v ≠ .ok (.error []) :=
    fun _ _ => Rule.accept_ne_error_nil
  have hread (fields : List (Field × Value)) (hk : form.isNode → form.kind?.isSome) :
      readFields (Rule.accept form place) es form.specs = .ok ([], fields) ↔
        fields.map Prod.fst = form.specs.map FieldSpec.field ∧
          ∀ s ∈ form.specs, s.Takes form place es ((fields.lookup s.field).getD .null) := by
    rw [readFields_eq_ok_iff hne, forall₂_fields_iff
      (P := fun s v => s.read (Rule.accept form place) es = .ok (.ok v)) form.nodup_fields]
    refine and_congr_right fun _ => forall₂_congr fun s hs => ?_
    exact FieldSpec.takes_iff fun hrule => hk (form.isNode_of_rule_kind s hs hrule)
  unfold assemble
  simp only [check_bind_eq_ok_iff]
  constructor
  · rintro ⟨u, hs, ⟨errors, fields⟩, hr, h⟩
    have hs := checkShape_eq_ok_iff.1 hs
    split at h
    · rename_i hnil
      obtain ⟨rfl, hu⟩ := List.append_eq_nil_iff.1 hnil
      obtain rfl := Except.ok.inj h
      exact ⟨hs, hu, rfl, rfl, (hread fields fun hn => (hs hn).1).1 hr⟩
    · simp at h
  · obtain ⟨i, f, fields⟩ := r
    rintro ⟨hs, hu, rfl, rfl, hfields⟩
    refine ⟨(), checkShape_eq_ok_iff.2 hs, ([], fields), ?_, ?_⟩
    · exact (hread fields fun hn => (hs hn).1).2 hfields
    · rw [hu]
      rfl

/-- A mapping passes a check when a record can be assembled from it. -/
theorem checkWith_map_eq_ok_iff {es : Entries} :
    checkWith form id place (.map es) = .ok r ↔ Assembled form id place es r := by
  change (assemble form id (Rule.accept form place) es >>= fun r =>
    checkCoupled form r >>= fun _ => pure r) = _ ↔ _
  simp only [check_bind_eq_ok_iff, assemble_eq_ok_iff]
  constructor
  · rintro ⟨r', ⟨hs, hu, hi, hf, hm, ht⟩, u, hc, ⟨⟩⟩
    exact ⟨hs, hu, hi, hf, hm, ht, hc⟩
  · rintro ⟨hs, hu, hi, hf, hm, ht, hc⟩
    exact ⟨r, ⟨hs, hu, hi, hf, hm, ht⟩, (), hc, rfl⟩

theorem checkWith_eq_ok_iff {v : Value} :
    checkWith form id place v = .ok r ↔ (∃ es, v = .map es ∧ Assembled form id place es r) ∨
      v = .record r ∧ r.form.isA form ∧ checkCoupled form r = .ok () := by
  cases v with
  | map es => simp [checkWith_map_eq_ok_iff]
  | record q =>
    by_cases hq : q.form.isA form = true
    · have hstep : checkWith form id place (.record q) =
          (checkCoupled form q >>= fun _ => pure q) := by
        simp [checkWith, hq, bind, Except.bind]
      simp only [hstep, check_bind_eq_ok_iff, reduceCtorEq, false_and, exists_false, false_or,
        Value.record.injEq]
      constructor
      · rintro ⟨u, hc, ⟨⟩⟩
        exact ⟨rfl, hq, hc⟩
      · rintro ⟨rfl, -, hc⟩
        exact ⟨(), hc, rfl⟩
    · simp only [checkWith, hq, bind, Except.bind, reduceCtorEq, Bool.false_eq_true, if_false,
        false_and, exists_false, false_or, Value.record.injEq, false_iff, not_and]
      rintro rfl hq'
      exact absurd hq' hq
  | _ => simp [checkWith, bind, Except.bind]

end DocTree
