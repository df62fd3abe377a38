import DocTree.Proofs.Outcome
import DocTree.Traversal

/-!
Loading taken apart: what it takes for a mapping to be loaded, for a list of children, and where
the children stand among the entries. Main statements: `load_map_eq_ok_iff`,
`loadItems_cons_eq_ok_iff`, `loadChildren_cases` and `loadChildren_eq_ok_iff`.
-/
namespace DocTree

variable {forms : Registry} {family : String} {next next' : Ident}

def loadEntries (forms : Registry) (family : String) (form : Form) (es : Entries) :
    Build Entries :=
  if form.shape = .branch then loadChildren forms family es else pure es

def loadItem (forms : Registry) (family : String) (x : Value) : Build Record :=
  match x.node? with
  | some r => pure r
  | none => load forms family x

def Registry.formOf? (forms : Registry) (es : Entries) : Option Form :=
  forms.resolve? ((Entries.get? es "type").getD .null)

theorem Registry.formOf?_eq_some_iff {es : Entries} {form : Form} :
    forms.formOf? es = some form ↔
      ∃ kind, es.get? "type" = some (.str kind) ∧ forms.find? kind = some form := by
  unfold formOf? resolve?
  rw [Option.bind_eq_some_iff]
  cases es.get? "type" with
  | none => simp [Value.text?]
  | some v => cases v <;> simp [Value.text?]

theorem load_map (es : Entries) :
    load forms family (.map es) =
      match forms.formOf? es with
      | none => throw (.unknownType family ((Entries.get? es "type").getD .null))
      | some form =>
        loadEntries forms family form es >>= fun loaded => create form (.map loaded) := by
  rw [load]
  unfold Registry.formOf? loadEntries
  cases forms.resolve? ((Entries.get? es "type").getD .null) with
  | none => rfl
  | some form => by_cases hb : form.shape = .branch <;> simp [hb]

theorem load_map_eq_ok_iff {es : Entries} {r : Record} :
    load forms family (.map es) next = .ok (r, next') ↔
      ∃ form loaded mid, forms.formOf? es = some form ∧
        loadEntries forms family form es next = .ok (loaded, mid) ∧
          create form (.map loaded) mid = .ok (r, next') := by
  rw [load_map]
  cases forms.formOf? es with
  | none => simp
  | some form => simp [Build.bind_eq_ok_iff]

theorem loadItem_eq_ok_iff {x : Value} {r : Record} :
    loadItem forms family x next = .ok (r, next') ↔
      (x = .record r ∧ r.form.isNode) ∧ next = next' ∨
        x.node? = none ∧ load forms family x next = .ok (r, next') := by
  unfold loadItem
  rw [← Value.node?_eq_some]
  cases x.node? <;> simp

theorem loadItems_cons (x : Value) (xs : List Value) :
    loadItems forms family (x :: xs) = do
      let r ← loadItem forms family x
      let nodes ← loadItems forms family xs
      return .record r :: nodes := by
  rw [loadItems]
  unfold loadItem
  cases x.node? <;> rfl

theorem loadItems_cons_eq_ok_iff {x : Value} {xs nodes : List Value} :
    loadItems forms family (x :: xs) next = .ok (nodes, next') ↔
      ∃ r mid rest, loadItem forms family x next = .ok (r, mid) ∧
        loadItems forms family xs mid = .ok (rest, next') ∧ nodes = .record r :: rest := by
  rw [loadItems_cons]
  simp only [Build.bind_eq_ok_iff, Build.pure_eq_ok_iff]
  constructor
  · rintro ⟨r, mid, hr, rest, last, hrest, rfl, rfl⟩
    exact ⟨r, mid, rest, hr, hrest, rfl⟩
  · rintro ⟨r, mid, rest, hr, hrest, rfl⟩
    exact ⟨r, mid, hr, rest, next', hrest, rfl, rfl⟩

theorem loadChildren_of_not_holdsItems {e : Value × Value} (rest : Entries)
    (h : ¬ holdsItems e) : loadChildren forms family (e :: rest) = do
      let loaded ← loadChildren forms family rest
      return e :: loaded := by
  rw [loadChildren]
  · rintro xs rfl
    exact h ⟨rfl, xs, .inl rfl⟩
  · rintro xs rfl
    exact h ⟨rfl, xs, .inr rfl⟩

/-- Only the first entry that holds children is loaded, and all other entries stay. -/
theorem loadChildren_cases (forms : Registry) (family : String) (es : Entries) :
    (∀ e ∈ es, ¬ holdsItems e) ∧ loadChildren forms family es = pure es ∨
      ∃ before v after xs, es = before ++ (.str "children", v) :: after ∧
        (∀ e ∈ before, ¬ holdsItems e) ∧ (v = .list xs ∨ v = .tuple xs) ∧
          loadChildren forms family es = do
            let nodes ← loadItems forms family xs
            return before ++ (.str "children", .list nodes) :: after := by
  induction es with
  | nil => simp [loadChildren]
  | cons e rest ih =>
    by_cases h : holdsItems e
    · obtain ⟨k, v⟩ := e
      obtain ⟨rfl, xs, hv⟩ := h
      refine .inr ⟨[], v, rest, xs, rfl, by simp, hv, ?_⟩
      rcases hv with rfl | rfl <;> rw [loadChildren] <;> rfl
    · rw [loadChildren_of_not_holdsItems rest h]
      rcases ih with ⟨hno, hl⟩ | ⟨before, v, after, xs, rfl, hno, hv, hl⟩
      · exact .inl ⟨List.forall_mem_cons.2 ⟨h, hno⟩, by rw [hl, pure_bind]⟩
      · refine .inr ⟨e :: before, v, after, xs, rfl, List.forall_mem_cons.2 ⟨h, hno⟩, hv, ?_⟩
        rw [hl, bind_assoc]
        simp

theorem sizeOf_items_lt {es : Entries} {k v : Value} {xs : List Value} (h : (k, v) ∈ es)
    (hv : v = .list xs ∨ v = .tuple xs) : sizeOf xs < sizeOf es := by
  have hlt := List.sizeOf_lt_of_mem h
  rcases hv with rfl | rfl <;> simp at hlt <;> omega

theorem loadItems_eq_map {xs nodes : List Value}
    (h : loadItems forms family xs next = .ok (nodes, next')) :
    ∃ rs : List Record, nodes = rs.map .record := by
  induction xs generalizing nodes next with
  | nil =>
    rw [loadItems] at h
    obtain ⟨rfl, -⟩ := Build.pure_eq_ok_iff.1 h
    exact ⟨[], rfl⟩
  | cons x xs ih =>
    obtain ⟨r, mid, rest, -, hrest, rfl⟩ := loadItems_cons_eq_ok_iff.1 h
    obtain ⟨rs, rfl⟩ := ih hrest
    exact ⟨r :: rs, rfl⟩

theorem exists_of_loadItems_cons {x : Value} {xs : List Value} {rs : List Record}
    (hx : x.node? = none) (h : loadItems forms family (x :: xs) next = .ok (rs.map .record, next')) :
    ∃ r mid rest, rs = r :: rest ∧ load forms family x next = .ok (r, mid) ∧
      loadItems forms family xs mid = .ok (rest.map .record, next') := by
  obtain ⟨r, mid, nodes, hr, hrest, hrs⟩ := loadItems_cons_eq_ok_iff.1 h
  obtain ⟨r', rest, rfl, hr', rfl⟩ := List.map_eq_cons_iff.1 hrs
  obtain rfl := Value.record.inj hr'
  refine ⟨r', mid, rest, rfl, ?_, hrest⟩
  rcases loadItem_eq_ok_iff.1 hr with ⟨hnode, -⟩ | ⟨-, hload⟩
  · rw [Value.node?_eq_some.2 hnode] at hx
    cases hx
  · exact hload

namespace Entries

variable {es : Entries} {rs : List Record} {key : String}

theorem withChildren_cons (e : Value × Value) (es : Entries) (rs : List Record) :
    withChildren (e :: es) rs = if e.1.isText "children" then
      (e.1, .list (rs.map .record)) :: es else e :: withChildren es rs := by
  obtain ⟨k, v⟩ := e
  by_cases hk : k = .str "children"
  · subst hk
    rw [withChildren, if_pos (Value.isText_iff.2 rfl)]
  · rw [withChildren, if_neg (mt Value.isText_iff.1 hk)]
    rintro w he
    exact hk (Prod.mk.inj he).1

theorem map_fst_withChildren : (withChildren es rs).map Prod.fst = es.map Prod.fst := by
  induction es with
  | nil => rfl
  | cons e es ih =>
    rw [withChildren_cons]
    split
    · rfl
    · rw [List.map_cons, List.map_cons, ih]

theorem get?_withChildren (h : key ≠ "children") :
    get? (withChildren es rs) key = es.get? key := by
  induction es with
  | nil => rfl
  | cons e es ih =>
    rw [withChildren_cons]
    split
    · rename_i hk
      have hne : ¬ e.1.isText key := by
        rw [Value.isText_iff.1 hk, Value.isText_str]
        simpa using h.symm
      rw [get?_cons, get?_cons, if_neg hne, if_neg hne]
    · rw [get?_cons, get?_cons, ih]

theorem get?_withChildren_children (h : es.contains "children") :
    get? (withChildren es rs) "children" = some (.list (rs.map .record)) := by
  induction es with
  | nil => simp [contains] at h
  | cons e es ih =>
    rw [withChildren_cons]
    split
    · rename_i hk
      rw [get?_cons, if_pos hk]
    · rename_i hk
      rw [contains, get?_cons, if_neg hk] at h
      rw [get?_cons, if_neg hk, ih h]

theorem contains_withChildren : contains (withChildren es rs) key = es.contains key := by
  by_cases hk : key = "children"
  · subst hk
    by_cases hc : es.contains "children"
    · rw [hc, contains, get?_withChildren_children hc, Option.isSome_some]
    · rw [Bool.eq_iff_iff, contains_iff, contains_iff, map_fst_withChildren]
  · rw [contains, get?_withChildren hk, contains]

theorem withChildren_of_get?_none (h : es.get? "children" = none) : withChildren es rs = es := by
  induction es with
  | nil => rfl
  | cons e es ih =>
    rw [get?_cons] at h
    split at h
    · simp at h
    · rename_i hk
      rw [withChildren_cons, if_neg hk, ih h]

end Entries

theorem Entries.withChildren_append {before after : Entries} {v : Value} {rs : List Record}
    (h : before.get? "children" = none) :
    withChildren (before ++ (.str "children", v) :: after) rs =
      before ++ (.str "children", .list (rs.map .record)) :: after := by
  induction before with
  | nil => rw [List.nil_append, withChildren_cons, if_pos (Value.isText_iff.2 rfl), List.nil_append]
  | cons e before ih =>
    rw [get?_cons] at h
    split at h
    · simp at h
    · rename_i hk
      rw [List.cons_append, withChildren_cons, if_neg hk, ih h, List.cons_append]

theorem loadChildren_of_get? {es : Entries} {w : Value} {xs : List Value}
    (h : es.get? "children" = some w) (hw : w = .list xs ∨ w = .tuple xs) :
    ∃ before after : Entries, before.get? "children" = none ∧
      es = before ++ (.str "children", w) :: after ∧
      loadChildren forms family es = do
        let nodes ← loadItems forms family xs
        return before ++ (.str "children", .list nodes) :: after := by
  rcases loadChildren_cases forms family es with
    ⟨hno, -⟩ | ⟨before, v, after, ys, rfl, hno, hv, hl⟩
  · exact absurd ⟨rfl, xs, hw⟩ (hno _ (Entries.mem_of_get? h))
  · have hbefore : Entries.get? before "children" = none := by
      cases hb : Entries.get? before "children" with
      | none => rfl
      | some u =>
        rw [Entries.get?_append, hb] at h
        obtain rfl := Option.some.inj h
        exact absurd ⟨rfl, xs, hw⟩ (hno _ (Entries.mem_of_get? hb))
    rw [Entries.get?_append, hbefore, Entries.get?_cons, if_pos (Value.isText_iff.2 rfl)] at h
    obtain rfl : v = w := Option.some.inj h
    obtain rfl : xs = ys := by
      rcases hw with rfl | rfl <;> simpa using hv
    exact ⟨before, after, hbefore, rfl, hl⟩

theorem loadChildren_eq_ok_iff {es loaded : Entries} {w : Value} {xs : List Value}
    (h : es.get? "children" = some w) (hw : w = .list xs ∨ w = .tuple xs) :
    loadChildren forms family es next = .ok (loaded, next') ↔
      ∃ rs, loadItems forms family xs next = .ok (rs.map .record, next') ∧
        loaded = Entries.withChildren es rs := by
  obtain ⟨before, after, hbefore, rfl, hl⟩ := loadChildren_of_get? h hw
  rw [hl, Build.bind_eq_ok_iff]
  constructor
  · rintro ⟨nodes, mid, hn, hp⟩
    obtain ⟨rfl, rfl⟩ := Build.pure_eq_ok_iff.1 hp
    obtain ⟨rs, rfl⟩ := loadItems_eq_map hn
    exact ⟨rs, hn, (Entries.withChildren_append hbefore).symm⟩
  · rintro ⟨rs, hn, rfl⟩
    exact ⟨_, next', hn, Build.pure_eq_ok_iff.2 ⟨(Entries.withChildren_append hbefore).symm, rfl⟩⟩

theorem get?_of_loadChildren {es loaded : Entries} {w : Value}
    (hget : es.get? "children" = some w) (hw : ∀ xs, w ≠ .list xs ∧ w ≠ .tuple xs)
    (h : loadChildren forms family es next = .ok (loaded, next')) :
    loaded.get? "children" = some w := by
  rcases loadChildren_cases forms family es with
    ⟨-, hl⟩ | ⟨before, v, after, xs, rfl, -, hv, hl⟩
  · rw [hl] at h
    obtain ⟨rfl, -⟩ := Build.pure_eq_ok_iff.1 h
    exact hget
  · rw [hl] at h
    obtain ⟨nodes, mid, -, hp⟩ := Build.bind_eq_ok_iff.1 h
    obtain ⟨rfl, -⟩ := Build.pure_eq_ok_iff.1 hp
    rw [Entries.get?_append] at hget ⊢
    cases hb : Entries.get? before "children" with
    | some u =>
      rw [hb] at hget
      exact hget
    | none =>
      rw [hb, Entries.get?_cons, if_pos (Value.isText_iff.2 rfl)] at hget
      obtain rfl : v = w := Option.some.inj hget
      rcases hv with rfl | rfl
      · exact absurd rfl (hw xs).1
      · exact absurd rfl (hw xs).2

theorem loadChildren_of_get?_none {es : Entries} (h : es.get? "children" = none) :
    loadChildren forms family es = pure es := by
  rcases loadChildren_cases forms family es with ⟨-, hl⟩ | ⟨before, v, after, xs, rfl, -⟩
  · exact hl
  · rw [Entries.get?_append, Entries.get?_cons, if_pos (Value.isText_iff.2 rfl)] at h
    simp at h

theorem map_fst_of_loadEntries {form : Form} {es loaded : Entries}
    (h : loadEntries forms family form es next = .ok (loaded, next')) :
    loaded.map Prod.fst = es.map Prod.fst := by
  unfold loadEntries at h
  split at h
  · rcases loadChildren_cases forms family es with
      ⟨-, hl⟩ | ⟨before, v, after, xs, rfl, -, -, hl⟩
    · rw [hl] at h
      rw [(Build.pure_eq_ok_iff.1 h).1]
    · rw [hl] at h
      obtain ⟨nodes, mid, -, hp⟩ := Build.bind_eq_ok_iff.1 h
      rw [← (Build.pure_eq_ok_iff.1 hp).1, List.map_append, List.map_append, List.map_cons,
        List.map_cons]
  · rw [(Build.pure_eq_ok_iff.1 h).1]

end DocTree
