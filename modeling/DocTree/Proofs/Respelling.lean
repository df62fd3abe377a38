import DocTree.Proofs.Matching
import DocTree.Proofs.Traversing
import DocTree.Respelt

/-!
Fields may be given under either of their keys. Whichever is used, a field is found, read and
reported alike, but for the key in the place of an error; and of two keys for one field, one is
unknown. Main statements: `Field.find?_of_pair`, `corresponds_of_pairs`, `Respelt.loadsAlike` and
`once_of_known`.
-/
namespace DocTree

/-- Keys under which a mapping may give one field, or the same key. -/
def Value.Respells (k k' : Value) : Prop :=
  k = k' ∨ ∃ (f : Field) (key other : String), key ∈ f.keys ∧ other ∈ f.keys ∧
    k = .str key ∧ k' = .str other

def Entries.Respells (es fs : Entries) : Prop :=
  List.Forall₂ (fun e f => e.1.Respells f.1 ∧ e.2 = f.2) es fs

/-- The field has one key at most among the entries. -/
def Field.Once (f : Field) (es : Entries) : Prop :=
  ∀ key ∈ f.keys, ∀ other ∈ f.keys, es.contains key → es.contains other → key = other

instance (f : Field) (es : Entries) : Decidable (f.Once es) :=
  inferInstanceAs (Decidable (∀ key ∈ f.keys, ∀ other ∈ f.keys,
    es.contains key → es.contains other → key = other))

def FieldError.Respells (e f : FieldError) : Prop :=
  e.fault = f.fault ∧ (e.path = f.path ∨ ∃ (g : Field) (key other : String) (rest : List Step),
    key ∈ g.keys ∧ other ∈ g.keys ∧ e.path = .key key :: rest ∧ f.path = .key other :: rest)

structure Violation.Respells (v w : Violation) : Prop where
  faultClass : v.faultClass = w.faultClass
  errors : List.Forall₂ FieldError.Respells v.errors w.errors
  message : v.errors = w.errors → v.message = w.message

section Comparison

theorem FieldError.Respells.refl (e : FieldError) : e.Respells e :=
  ⟨rfl, .inl rfl⟩

theorem forall₂_respells_refl (xs : List FieldError) : List.Forall₂ FieldError.Respells xs xs :=
  List.forall₂_same.2 fun e _ => .refl e

theorem Comparison.respells :
    Comparison Violation.Respells (List.Forall₂ FieldError.Respells) where
  of_alike h := ⟨h.faultClass, h.errors ▸ forall₂_respells_refl _, fun _ => h.message⟩
  refl := forall₂_respells_refl
  append h h' := List.rel_append h h'
  nil_iff h := by
    rw [← List.length_eq_zero_iff, ← List.length_eq_zero_iff, h.length_eq]
  badFields form h :=
    ⟨rfl, h, fun he => congrArg (fun xs => (Violation.badFields form xs).message) he⟩

end Comparison

section Keys

variable {f g : Field} {key other : String} {k k' : Value} {es fs : Entries}

theorem Field.eq_of_mem_keys (hf : key ∈ f.keys) (hg : key ∈ g.keys) : f = g := by
  have hall : ∀ f ∈ all, ∀ g ∈ all, ∀ key ∈ f.keys, key ∈ g.keys → f = g := by decide +kernel
  exact hall f f.mem_all g g.mem_all key hf hg

theorem Value.Respells.symm (h : k.Respells k') : k'.Respells k := by
  rcases h with rfl | ⟨f, key, other, hkey, hother, rfl, rfl⟩
  · exact .inl rfl
  · exact .inr ⟨f, other, key, hother, hkey, rfl, rfl⟩

theorem Value.Respells.exists_key (h : k.Respells k') (hk : k = .str key) (hkey : key ∈ g.keys) :
    ∃ other ∈ g.keys, k' = .str other := by
  rcases h with rfl | ⟨f, key', other, hkey', hother, hk', rfl⟩
  · exact ⟨key, hkey, hk⟩
  · obtain rfl := Value.str.inj (hk.symm.trans hk')
    exact ⟨other, Field.eq_of_mem_keys hkey' hkey ▸ hother, rfl⟩

theorem exists_of_mem_left {α β : Type} {R : α → β → Prop} {xs : List α} {ys : List β} {x : α}
    (h : List.Forall₂ R xs ys) (hx : x ∈ xs) : ∃ y ∈ ys, R x y := by
  induction h with
  | nil => cases hx
  | @cons a b xs ys hab _ ih =>
    rcases List.mem_cons.1 hx with rfl | hx
    · exact ⟨b, .head _, hab⟩
    · obtain ⟨y, hy, hxy⟩ := ih hx
      exact ⟨y, .tail _ hy, hxy⟩

end Keys

section Found

variable {P : Value × Value → Value × Value → Prop} {form : Form} {es fs : Entries} {g : Field}
  {key other : String} {v w : Value}

/-- What gives a field gives it under whichever key, if it is the only one for the field. -/
theorem Field.find?_of_pair (h : List.Forall₂ P es fs) (hP : ∀ e f, P e f → e.1.Respells f.1)
    (hfs : fs.texts.Nodup) (honce : g.Once fs) (hf : g.find? es = some (key, v)) :
    ∃ other w, g.find? fs = some (other, w) ∧ P (.str key, v) (.str other, w) := by
  obtain ⟨hkey, hget⟩ := find?_eq_some hf
  obtain ⟨⟨k, w⟩, hmem, hpair⟩ := exists_of_mem_left h (Entries.mem_of_get? hget)
  obtain ⟨other, hother, rfl⟩ := (hP _ _ hpair).exists_key rfl hkey
  have hgiven : Entries.get? fs other = some w := (Entries.get?_eq_some_iff hfs).2 hmem
  refine ⟨other, w, find?_of_once hother hgiven fun key' hkey' hc => ?_, hpair⟩
  exact honce key' hkey' other hother hc (Entries.contains_of_get? hgiven)

/-- The key under which the field is found. -/
def Field.Uses (g : Field) (es : Entries) (k : Value) : Prop :=
  ∃ key v, g.find? es = some (key, v) ∧ k = .str key

/-- A field is given alike by two mappings: by entries that belong together, and by these only. -/
structure Field.GivenAlike (P : Value × Value → Value × Value → Prop) (g : Field)
    (es fs : Entries) : Prop where
  find? : Option.Rel (fun p q => p.1 ∈ g.keys ∧ q.1 ∈ g.keys ∧ P (.str p.1, p.2) (.str q.1, q.2))
    (g.find? es) (g.find? fs)
  uses_iff : ∀ e ∈ es, ∀ f ∈ fs, P e f → (g.Uses es e.1 ↔ g.Uses fs f.1)

theorem Field.uses_of_pair (h : List.Forall₂ P es fs) (hP : ∀ e f, P e f → e.1.Respells f.1)
    (hfs : fs.texts.Nodup) (honce : g.Once fs) {e f : Value × Value} (hf : f ∈ fs) (hef : P e f)
    (huses : g.Uses es e.1) : g.Uses fs f.1 := by
  obtain ⟨key, v, hfind, hkey⟩ := huses
  obtain ⟨other, w, hfind', -⟩ := find?_of_pair h hP hfs honce hfind
  obtain ⟨hother, hget⟩ := find?_eq_some hfind'
  obtain ⟨key', hkey', hf'⟩ := (hP e f hef).exists_key hkey (find?_eq_some hfind).1
  have hcontains : fs.contains key' :=
    Entries.contains_iff.2 (hf' ▸ List.mem_map_of_mem hf)
  obtain rfl := honce key' hkey' other hother hcontains (Entries.contains_of_get? hget)
  exact ⟨key', w, hfind', hf'⟩

theorem Field.givenAlike_of_once (h : List.Forall₂ P es fs)
    (hP : ∀ e f, P e f → e.1.Respells f.1) (hes : es.texts.Nodup) (hfs : fs.texts.Nodup)
    (honce : g.Once es) (honce' : g.Once fs) : g.GivenAlike P es fs := by
  have hflip : List.Forall₂ (flip P) fs es := List.Forall₂.flip h
  have hP' : ∀ f e, flip P f e → f.1.Respells e.1 := fun f e hef => (hP e f hef).symm
  constructor
  · cases hfind : g.find? es with
    | none =>
      cases hfind' : g.find? fs with
      | none => exact .none
      | some q =>
        obtain ⟨key, v, hsome, -⟩ := find?_of_pair hflip hP' hes honce hfind'
        cases hfind.symm.trans hsome
    | some p =>
      obtain ⟨other, w, hfind', hpair⟩ := find?_of_pair h hP hfs honce' hfind
      rw [hfind']
      exact .some ⟨(find?_eq_some hfind).1, (find?_eq_some hfind').1, hpair⟩
  · exact fun e he f hf hef => ⟨uses_of_pair h hP hfs honce' hf hef,
      uses_of_pair hflip hP' hes honce he hef⟩

theorem mem_used_iff {specs : List FieldSpec} {name : String} :
    (name ∈ specs.filterMap fun s => (s.field.find? es).map Prod.fst) ↔
      ∃ s ∈ specs, s.field.Uses es (.str name) := by
  rw [List.mem_filterMap]
  refine exists_congr fun s => and_congr_right fun _ => ?_
  rw [Option.map_eq_some_iff]
  constructor
  · rintro ⟨⟨key, v⟩, hfind, rfl⟩
    exact ⟨key, v, hfind, rfl⟩
  · rintro ⟨key, v, hfind, he⟩
    exact ⟨(key, v), hfind, (Value.str.inj he).symm⟩

theorem unknownKeys_respelt {specs : List FieldSpec} (h : List.Forall₂ P es fs)
    (hP : ∀ e f, P e f → e.1.Respells f.1)
    (hgiven : ∀ s ∈ specs, s.field.GivenAlike P es fs) :
    List.Forall₂ FieldError.Respells (unknownKeys specs es) (unknownKeys specs fs) := by
  have huses {e f : Value × Value} (he : e ∈ es) (hf : f ∈ fs) (hef : P e f) :
      (∃ s ∈ specs, s.field.Uses es e.1) ↔ ∃ s ∈ specs, s.field.Uses fs f.1 :=
    exists_congr fun s => and_congr_right fun hs => (hgiven s hs).uses_iff e he f hf hef
  have hnames {key other : String} {v w : Value} (he : (.str key, v) ∈ es)
      (hf : (.str other, w) ∈ fs) (hef : P (.str key, v) (.str other, w))
      (herror : FieldError.Respells ⟨[.key key], .unknownKey⟩ ⟨[.key other], .unknownKey⟩) :
      Option.Rel FieldError.Respells
        (if key ∈ specs.filterMap fun s => (s.field.find? es).map Prod.fst then none
          else some ⟨[.key key], .unknownKey⟩)
        (if other ∈ specs.filterMap fun s => (s.field.find? fs).map Prod.fst then none
          else some ⟨[.key other], .unknownKey⟩) := by
    have hiff := mem_used_iff.trans ((huses he hf hef).trans mem_used_iff.symm)
    by_cases hkey : key ∈ specs.filterMap fun s => (s.field.find? es).map Prod.fst
    · rw [if_pos hkey, if_pos (hiff.1 hkey)]
      exact .none
    · rw [if_neg hkey, if_neg (mt hiff.2 hkey)]
      exact .some herror
  refine List.rel_filterMap ?_ (forall₂_with_mem h)
  rintro ⟨k, v⟩ ⟨k', w⟩ ⟨he, hf, hef⟩
  rcases hP _ _ hef with hk | ⟨g, key, other, hkey, hother, hk, hk'⟩
  · obtain rfl : k = k' := hk
    cases k with
    | str name => exact hnames he hf hef (.refl _)
    | _ => exact .some (.refl _)
  · obtain rfl : k = .str key := hk
    obtain rfl : k' = .str other := hk'
    exact hnames he hf hef ⟨rfl, .inr ⟨g, key, other, [], hkey, hother, rfl, rfl⟩⟩

theorem FieldSpec.read_respelt {s : FieldSpec} (hn : form.isNode) (hs : s ∈ form.specs)
    (h : s.field.GivenAlike P es fs)
    (hvalue : ∀ key v other w, key ∈ s.field.keys → P (.str key, v) (.str other, w) → v = w)
    (m m' : Ident) :
    Outcomes Violation.Respells (Outcomes (List.Forall₂ FieldError.Respells) s.field.Matches)
      (s.read (Rule.accept form (checkPlace m)) es)
      (s.read (Rule.accept form (checkPlace m')) fs) := by
  apply read_outcomes_of_rel .respells (Field.Matches.refl s.field)
  refine rel_imp h.find? ?_
  rintro ⟨key, v⟩ ⟨other, w⟩ - - ⟨hkey, hother, hpair⟩
  obtain rfl := hvalue key v other w hkey hpair
  refine ⟨rfl, fun _ => ?_⟩
  refine ((accept_matching hn hs m m' v).mono fun _ _ => Comparison.respells.of_alike).map ?_
  intro verdict verdict' hverdict
  cases hverdict with
  | ok hvw => exact .ok hvw
  | @error xs _ hxs =>
    obtain rfl := hxs
    refine .error (List.forall₂_map_left_iff.2 (List.forall₂_map_right_iff.2 ?_))
    exact List.forall₂_same.2 fun e _ => ⟨rfl, .inr ⟨s.field, key, other, e.path, hkey, hother,
      rfl, rfl⟩⟩

end Found

section Correspond

variable {P : Value × Value → Value × Value → Prop} {form : Form} {es fs : Entries}

/-- What stands under the keys of one field is the same, or two lists of children. -/
def Value.KeptUnder (key : String) (v w : Value) : Prop :=
  v = w ∨ key = "children" ∧ ∃ xs ys, v = .list xs ∧ w = .list ys ∧ RespeltItems xs ys

def RespeltPlain (v w : Value) : Prop :=
  Respelt v w ∧ v.isPlain ∧ w.isPlain

theorem forall₂_of_respeltItems {xs ys : List Value} (h : RespeltItems xs ys) :
    List.Forall₂ Respelt xs ys := by
  cases h with
  | nil => exact .nil
  | cons hxy hrest => exact .cons hxy (forall₂_of_respeltItems hrest)

theorem respeltPlain_of_list {xs ys : List Value} (hxs : (Value.list xs).isPlain)
    (hys : (Value.list ys).isPlain) (h : List.Forall₂ Respelt xs ys) :
    List.Forall₂ RespeltPlain xs ys :=
  (forall₂_with_mem h).imp fun _ _ hxy =>
    ⟨hxy.2.2, isPlain_of_mem_list hxs _ hxy.1, isPlain_of_mem_list hys _ hxy.2.1⟩

theorem Field.GivenAlike.children (h : Field.children.GivenAlike P es fs) :
    Option.Rel (fun v w => P (.str "children", v) (.str "children", w)) (es.get? "children")
      (fs.get? "children") := by
  have hfind := h.find?
  rw [Field.find?_children, Field.find?_children] at hfind
  generalize es.get? "children" = given at hfind ⊢
  generalize fs.get? "children" = given' at hfind ⊢
  cases given with
  | none =>
    cases given' with
    | none => exact .none
    | some w => cases hfind
  | some v =>
    cases given' with
    | none => cases hfind
    | some w =>
      cases hfind with
      | some hpair => exact .some hpair.2.2

/-- Mappings whose entries belong together correspond, if these give every field alike. -/
theorem corresponds_of_pairs (hn : form.isNode) (hes : (Value.map es).isPlain)
    (hfs : (Value.map fs).isPlain) (h : List.Forall₂ P es fs)
    (hP : ∀ e f, P e f → e.1.Respells f.1) (hgiven : ∀ g : Field, g.GivenAlike P es fs)
    (hvalue : ∀ key v other w, P (.str key, v) (.str other, w) → v.KeptUnder key w) :
    es.Corresponds Violation.Respells (List.Forall₂ FieldError.Respells) RespeltPlain form fs := by
  constructor
  · refine rel_imp (hgiven .children).children fun v w hget hget' hpair => ?_
    have hv := isPlain_of_get? hes _ _ hget
    have hw := isPlain_of_get? hfs _ _ hget'
    rcases hvalue _ _ _ _ hpair with rfl | ⟨-, xs, ys, rfl, rfl, hitems⟩
    · by_cases hlist : ∃ xs, v = .list xs
      · obtain ⟨xs, rfl⟩ := hlist
        exact .inl ⟨xs, xs, rfl, rfl, fun _ => respeltPlain_of_list hv hw
          (List.forall₂_same.2 fun x _ => .same x)⟩
      · have hnone := sequence?_of_isPlain hv fun xs he => hlist ⟨xs, he⟩
        exact .inr ⟨hnone, hnone, rfl, rfl⟩
    · exact .inl ⟨xs, ys, rfl, rfl, fun _ =>
        respeltPlain_of_list hv hw (forall₂_of_respeltItems hitems)⟩
  · exact unknownKeys_respelt h hP fun s _ => hgiven s.field
  · intro s hs hc
    refine FieldSpec.read_respelt hn hs (hgiven s.field) fun key v other w hkey hpair => ?_
    refine (hvalue key v other w hpair).resolve_right fun hchildren => ?_
    exact Field.children_not_mem_keys hc (hchildren.1 ▸ hkey)

end Correspond

section Written

variable {family : Family} {es fs : Entries} {e f : Value × Value} {v w : Value}

inductive EntryRespelt : Value × Value → Value × Value → Prop
  | keep (e : Value × Value) : EntryRespelt e e
  | spell {f : Field} {key other : String} {v : Value} : key ∈ f.spellings → other ∈ f.spellings →
    EntryRespelt (.str key, v) (.str other, v)
  | children {xs ys : List Value} : RespeltItems xs ys →
    EntryRespelt (.str "children", .list xs) (.str "children", .list ys)

theorem forall₂_of_respeltEntries {es fs : List (Value × Value)} (h : RespeltEntries es fs) :
    List.Forall₂ EntryRespelt es fs := by
  cases h with
  | nil => exact .nil
  | keep hrest => exact .cons (.keep _) (forall₂_of_respeltEntries hrest)
  | spell f hkey hother hrest =>
    exact .cons (.spell hkey hother) (forall₂_of_respeltEntries hrest)
  | children hitems hrest => exact .cons (.children hitems) (forall₂_of_respeltEntries hrest)

theorem EntryRespelt.respells (h : EntryRespelt e f) : e.1.Respells f.1 := by
  cases h with
  | keep | children => exact .inl rfl
  | @spell f key other _ hkey hother =>
    exact .inr ⟨f, key, other, Field.mem_keys_of_spellings hkey,
      Field.mem_keys_of_spellings hother, rfl, rfl⟩

theorem EntryRespelt.isText_type (h : EntryRespelt e f) :
    e.1.isText "type" = f.1.isText "type" := by
  cases h with
  | keep | children => rfl
  | @spell f key other _ hkey hother =>
    have htype {key other : String} (hkey : key ∈ f.spellings) (hother : other ∈ f.spellings)
        (hk : key = "type") : other = "type" := by
      obtain rfl : f = .kind :=
        Field.eq_of_mem_keys (Field.mem_keys_of_spellings hkey) (hk ▸ by decide)
      exact List.mem_singleton.1 hother
    rw [Value.isText_str, Value.isText_str]
    exact decide_eq_decide.2 ⟨htype hkey hother, htype hother hkey⟩

theorem EntryRespelt.keptUnder {key other : String}
    (h : EntryRespelt (.str key, v) (.str other, w)) : v.KeptUnder key w := by
  cases h with
  | keep | spell => exact .inl rfl
  | children hitems => exact .inr ⟨rfl, _, _, rfl, rfl, hitems⟩

theorem get?_type_of_respelt (h : List.Forall₂ EntryRespelt es fs) :
    es.get? "type" = fs.get? "type" := by
  induction h with
  | nil => rfl
  | @cons e f es fs hef _ ih =>
    rw [Entries.get?_cons, Entries.get?_cons, hef.isText_type, ih]
    split
    · rename_i hf
      have he : e.1.isText "type" := hef.isText_type ▸ hf
      cases hef with
      | keep | spell => rfl
      | children => simp at hf
    · rfl

theorem Entries.SpeltOnce.once (h : es.SpeltOnce) {g : Field} (hg : g ≠ .kind) : g.Once es :=
  fun key hkey other hother => h g key (Field.mem_spellings_of_keys hkey hg) other
    (Field.mem_spellings_of_keys hother hg)

theorem givenAlike_of_respelt (hes : (Value.map es).isPlain) (hfs : (Value.map fs).isPlain)
    (honce : es.SpeltOnce) (honce' : fs.SpeltOnce) (h : List.Forall₂ EntryRespelt es fs)
    {kind : Value} (hkind : es.get? "type" = some kind) (g : Field) :
    g.GivenAlike EntryRespelt es fs := by
  by_cases hg : g = .kind
  · subst hg
    have hfind : Field.kind.find? es = some ("type", kind) := Field.find?_of_get?_key hkind
    have hfind' : Field.kind.find? fs = some ("type", kind) :=
      Field.find?_of_get?_key (get?_type_of_respelt h ▸ hkind)
    have hmem : "type" ∈ Field.kind.keys := by decide
    have huses {es : Entries} (hfind : Field.kind.find? es = some ("type", kind)) (k : Value) :
        Field.kind.Uses es k ↔ k.isText "type" := by
      rw [Value.isText_iff, Field.Uses, hfind]
      constructor
      · rintro ⟨key, v, hsome, rfl⟩
        obtain ⟨rfl, -⟩ := Prod.mk.inj (Option.some.inj hsome)
        rfl
      · rintro rfl
        exact ⟨"type", kind, rfl, rfl⟩
    constructor
    · rw [hfind, hfind']
      exact .some ⟨hmem, hmem, .keep _⟩
    · intro e _ f _ hef
      rw [huses hfind, huses hfind', hef.isText_type]
  · exact Field.givenAlike_of_once h (fun _ _ => EntryRespelt.respells)
      (nodup_texts_of_isPlain hes) (nodup_texts_of_isPlain hfs) (honce.once hg) (honce'.once hg)

theorem givenAlike_refl (es : Entries) (g : Field) : g.GivenAlike Eq es es := by
  constructor
  · cases hfind : g.find? es with
    | none => exact .none
    | some p =>
      have hkey : p.1 ∈ g.keys := (Field.find?_eq_some hfind).1
      exact .some ⟨hkey, hkey, rfl⟩
  · rintro e _ _ _ rfl
    rfl

/-- Data that differs in the spelling of fields is to be loaded alike. -/
theorem Respelt.loadsAlike (h : RespeltPlain v w) :
    family.LoadsAlike Violation.Respells (List.Forall₂ FieldError.Respells) RespeltPlain v w := by
  obtain ⟨hvw, hv, hw⟩ := h
  cases hvw with
  | same =>
    by_cases hmap : ∃ es, v = .map es
    · obtain ⟨es, rfl⟩ := hmap
      cases hform : family.registry.formOf? es with
      | none => exact .unknown hform hform (Comparison.respells.of_alike (.refl _))
      | some form =>
        obtain ⟨kind, -, hfind⟩ := Registry.formOf?_eq_some_iff.1 hform
        refine .node hform hform ?_
        refine corresponds_of_pairs (Form.isNode_of_kind (Registry.kind_of_find? hfind)) hv hw
          (List.forall₂_same.2 fun _ _ => rfl) ?_ (givenAlike_refl es) ?_
        · rintro e _ rfl
          exact .inl rfl
        · rintro key v other w he
          exact .inl (Prod.mk.inj he).2
    · exact .other (fun es he => hmap ⟨es, he⟩) (fun es he => hmap ⟨es, he⟩) rfl
  | @node es fs honce honce' hentries =>
    have hpairs := forall₂_of_respeltEntries hentries
    have htype := get?_type_of_respelt hpairs
    have hsame : family.registry.formOf? es = family.registry.formOf? fs := by
      rw [Registry.formOf?, htype, Registry.formOf?]
    cases hform : family.registry.formOf? es with
    | none =>
      refine .unknown hform (hsame ▸ hform) ?_
      rw [Entries.type, htype, ← Entries.type]
      exact Comparison.respells.of_alike (.refl _)
    | some form =>
      obtain ⟨kind, hkind, hfind⟩ := Registry.formOf?_eq_some_iff.1 hform
      refine .node hform (hsame ▸ hform) ?_
      exact corresponds_of_pairs (Form.isNode_of_kind (Registry.kind_of_find? hfind)) hv hw hpairs
        (fun _ _ => EntryRespelt.respells)
        (givenAlike_of_respelt hv hw honce honce' hpairs hkind)
        fun _ _ _ _ => EntryRespelt.keptUnder

theorem decode_outcomes_of_respelt (h : Respelt v w) (hv : v.isPlain) (hw : w.isPlain)
    (next next' : Ident) :
    Outcomes Violation.Respells (fun p q => p.1.Matches q.1) (family.decode v next)
      (family.decode w next') :=
  Family.decode_outcomes .respells (fun _ _ hvw => hvw.2) (fun _ _ => Respelt.loadsAlike)
    ⟨h, hv, hw⟩ next next'

end Written

section New

variable {form : Form} {es fs : Entries} {next next' : Ident}

theorem Entries.Keywords.nodup_texts (h : es.Keywords) : es.texts.Nodup := by
  obtain ⟨names, hnamed, hn⟩ := h
  have htexts : es.texts = names := by
    rw [texts_eq, hnamed, List.filterMap_map]
    exact List.filterMap_some
  rwa [htexts]

theorem new_outcomes_of_respelt (hn : form.isNode) (hes : es.Keywords) (hfs : fs.Keywords)
    (h : es.Respells fs) (honce : ∀ g : Field, g.Once es) (honce' : ∀ g : Field, g.Once fs) :
    Outcomes Violation.Respells (fun p q => p.1.Matches q.1) (form.new es next)
      (form.new fs next') := by
  have hgiven (g : Field) := Field.givenAlike_of_once h (fun _ _ hef => hef.1) hes.nodup_texts
    hfs.nodup_texts (honce g) (honce' g)
  refine (create_outcomes .respells hn (contains_eq_of_rel (hgiven .children).children)
    (unknownKeys_respelt h (fun _ _ hef => hef.1) fun s _ => hgiven s.field)
    (fun s hs m m' => FieldSpec.read_respelt hn hs (hgiven s.field)
      (fun _ _ _ _ _ hef => hef.2) m m') next next').imp fun p q hp hq hpq => ?_
  have hstable {es : Entries} {next : Ident} {p : Record × Ident}
      (hp : create form (.map es) next = .ok p) : p.1.Stable :=
    (checkWith_map_eq_ok_iff.1 (create_eq_ok_iff.1 hp).1).stable hn
  exact hpq.matches (hstable hp) (hstable hq)

end New

section Twice

variable {form : Form} {es : Entries} {g : Field} {next : Ident}

/-- If every key gives a field, no field has two keys. -/
theorem once_of_known {specs : List FieldSpec} (h : unknownKeys specs es = []) (g : Field) :
    g.Once es := by
  have hfound {key : String} (hkey : key ∈ g.keys) (hc : es.contains key) :
      ∃ v, g.find? es = some (key, v) := by
    obtain ⟨s, -, key', v, hk, hfind⟩ := unknownKeys_eq_nil_iff.1 h _ (Entries.contains_iff.1 hc)
    obtain rfl := Value.str.inj hk
    rw [← Field.eq_of_mem_keys (Field.find?_eq_some hfind).1 hkey]
    exact ⟨v, hfind⟩
  intro key hkey other hother hc hc'
  obtain ⟨v, hv⟩ := hfound hkey hc
  obtain ⟨w, hw⟩ := hfound hother hc'
  exact (Prod.mk.inj (Option.some.inj (hv.symm.trans hw))).1

theorem not_ok_iff_exists_error {ε α : Type} {x : Except ε α} :
    (∀ a, x ≠ .ok a) ↔ ∃ e, x = .error e := by
  cases x <;> simp

theorem exists_error_of_new (hg : ¬ g.Once es) : ∃ w, form.new es next = .error w := by
  apply not_ok_iff_exists_error.1
  rintro ⟨r, next'⟩ hr
  exact hg (once_of_known (checkWith_map_eq_ok_iff.1 (create_eq_ok_iff.1 hr).1).known g)

theorem exists_error_of_reaches {family : Family} {v : Value} {steps rest : List LoadStep}
    (h : Reaches family.registry v (.map es) steps rest) (hg : ¬ g.Once es) :
    ∃ w, family.decode v next = .error w := by
  apply not_ok_iff_exists_error.1
  rintro ⟨r, next'⟩ hr
  obtain ⟨mid, q, mid', hq⟩ := h.exists_load hr
  obtain ⟨form, loaded, last, -, hloaded, hcreate⟩ := load_map_eq_ok_iff.1 hq
  apply hg
  have hkeys := map_fst_of_loadEntries hloaded
  have hknown := (checkWith_map_eq_ok_iff.1 (create_eq_ok_iff.1 hcreate).1).known
  intro key hkey other hother hc hc'
  rw [← contains_congr hkeys] at hc hc'
  exact once_of_known hknown g key hkey other hother hc hc'

end Twice

/-- Fields may be given under either key. Data of node mappings at any depth, and arguments for new
nodes, that differ in the spelling of fields give equal nodes that are written alike, or failures
of the same class with errors alike but for the keys of fields. Where there are both keys of one
field, data that comes there is refused, and so are the arguments. -/
theorem Family.decode_respelt (family : Family) :
    (∀ d d', d.isPlain → d'.isPlain → Respelt d d' → ∀ next next',
      Outcomes Violation.Respells (fun p q => p.1.equals q.1 ∧ p.1.encode.equals q.1.encode)
        (family.decode d next) (family.decode d' next')) ∧
    (∀ (form : Form) (es fs : Entries), form.isNode → es.Keywords → fs.Keywords → es.Respells fs →
      (∀ f : Field, f.Once es) → (∀ f : Field, f.Once fs) → ∀ next next',
      Outcomes Violation.Respells (fun p q => p.1.equals q.1 ∧ p.1.encode.equals q.1.encode)
        (form.new es next) (form.new fs next')) ∧
    (∀ d es steps rest (f : Field), Reaches family.registry d (.map es) steps rest → ¬ f.Once es →
      ∀ next, ∃ w, family.decode d next = .error w) ∧
    ∀ (form : Form) (es : Entries) (f : Field), ¬ f.Once es →
      ∀ next, ∃ w, form.new es next = .error w := by
  refine ⟨fun d d' hd hd' h next next' => ?_, fun form es fs hn hes hfs h honce honce' next next' =>
    ?_, fun d es steps rest f h hf next => exists_error_of_reaches h hf,
    fun form es f hf next => exists_error_of_new hf⟩
  · exact (decode_outcomes_of_respelt h hd hd' next next').imp fun _ _ _ _ hpq =>
      ⟨hpq.equals, hpq.encode_equals⟩
  · exact (new_outcomes_of_respelt hn hes hfs h honce honce').imp fun _ _ _ _ hpq =>
      ⟨hpq.equals, hpq.encode_equals⟩

/-- An element under a root, written with the one key and with the other; made with the one and with
the other; and refused with both. -/
theorem Family.decode_respelt_tagName :
    let element (key : String) : Entries := [(.str "type", .str "element"), (.str key, .str "p")]
    let root (key : String) : Value := .map [(.str "type", .str "root"),
      (.str "children", .list [.map (element key)])]
    let made : Entries := [(.str "kind", .str "element"), (.str "tag_name", .str "p")]
    let both : Entries := (.str "tag_name", .str "p") :: element "tagName"
    (∃ p q, Family.hast.decode (root "tagName") 0 = .ok p ∧
      Family.hast.decode (root "tag_name") 0 = .ok q ∧ p.1.equals q.1) ∧
    (∃ p q, Form.element.new (element "tagName") 0 = .ok p ∧ Form.element.new made 0 = .ok q ∧
      p.1.equals q.1) ∧
    (∃ w, Family.hast.decode (.map [(.str "type", .str "root"),
      (.str "children", .list [.map both])]) 0 = .error w) ∧
    ∃ w, Form.element.new both 0 = .error w := by
  intro element root made both
  obtain ⟨hdecode, hnew, htwice, hmade⟩ := decode_respelt .hast
  have honce {es : Entries} (h : ∀ f ∈ Field.all, f.Once es) (f : Field) : f.Once es :=
    h f f.mem_all
  have hspelt {es : Entries} (h : ∀ f ∈ Field.all, f.Once es) : es.SpeltOnce :=
    fun f key hkey other hother => honce h f key (Field.mem_keys_of_spellings hkey) other
      (Field.mem_keys_of_spellings hother)
  have helements : Respelt (.map (element "tagName")) (.map (element "tag_name")) :=
    .node (hspelt (by decide)) (hspelt (by decide))
      (.keep (.spell .tagName (by decide) (by decide) .nil))
  have hroots : Respelt (root "tagName") (root "tag_name") :=
    .node (hspelt (by decide)) (hspelt (by decide))
      (.keep (.children (.cons helements .nil) .nil))
  have hboth : ¬ Field.tagName.Once both := fun h =>
    absurd (h "tagName" (by decide) "tag_name" (by decide) rfl rfl) (by decide)
  refine ⟨?_, ?_, ?_, hmade .element both .tagName hboth 0⟩
  · obtain ⟨p, q, hp, hq, hpq, -⟩ :=
      (hdecode _ _ rfl rfl hroots 0 0).exists_oks (by decide +kernel)
    exact ⟨p, q, hp, hq, hpq⟩
  · have hkeys : Entries.Respells (element "tagName") made :=
      .cons ⟨.inr ⟨.kind, _, _, by decide, by decide, rfl, rfl⟩, rfl⟩
        (.cons ⟨.inr ⟨.tagName, _, _, by decide, by decide, rfl, rfl⟩, rfl⟩ .nil)
    obtain ⟨p, q, hp, hq, hpq, -⟩ := (hnew .element (element "tagName") made rfl
      ⟨["type", "tagName"], rfl, by decide⟩ ⟨["kind", "tag_name"], rfl, by decide⟩ hkeys
      (honce (by decide)) (honce (by decide)) 0 0).exists_oks rfl
    exact ⟨p, q, hp, hq, hpq⟩
  · have hreaches := @Reaches.child Registry.hast .hastRoot _ [(.str "type", .str "root")] [] _ _ _
      [] [] _ _ rfl rfl rfl (by simp [holdsItems]) (.inl rfl) rfl (.here (.map both))
    exact htwice _ both _ _ .tagName hreaches hboth 0

end DocTree
