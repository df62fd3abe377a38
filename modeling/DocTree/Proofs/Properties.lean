import DocTree.Declared
import DocTree.Proofs.Adding

/-!
The properties of an element are accepted exactly and stored faithfully. They are checked entry by
entry and then once more by their declared type, which takes what the first check has let through as
it stands. Main statements: `exists_gatherProperties_iff`, `gatherProperties_eq_error_iff`,
`DeclaredType.properties?_of_isProperty` and `new_element_properties`.
-/
namespace DocTree

section Given

variable {v w : Value} {e f : Value × Value} {es fs : Entries}

theorem exists_property?_iff : (∃ w, v.property? = some w) ↔ v.MayBeProperty := by
  simp only [property?_eq_some_iff]
  constructor
  · rintro ⟨w, hw, rfl | ⟨xs, rfl, rfl⟩⟩
    · exact .inl hw
    · exact .inr ⟨xs, rfl, hw⟩
  · rintro (hv | ⟨xs, rfl, hv⟩)
    · exact ⟨v, hv, .inl rfl⟩
    · exact ⟨.list xs, hv, .inr ⟨xs, rfl, rfl⟩⟩

theorem exists_checkProperty_iff : (∃ f, checkProperty e = .ok f) ↔ MayBeEntry e := by
  simp only [checkProperty_eq_ok_iff, MayBeEntry, ← exists_property?_iff]
  constructor
  · rintro ⟨f, name, hname, -, hv⟩
    exact ⟨⟨name, hname⟩, f.2, hv⟩
  · rintro ⟨⟨name, hname⟩, w, hv⟩
    exact ⟨(.str name, w), name, hname, rfl, hv⟩

theorem storedEntry_of_checkProperty (h : checkProperty e = .ok f) : StoredEntry e f := by
  obtain ⟨name, he, hf, hv⟩ := checkProperty_eq_ok_iff.1 h
  exact ⟨hf.trans he.symm, property?_eq_some_iff.1 hv⟩

theorem checkProperty_eq_error_iff {w : Violation} :
    checkProperty e = .error w ↔ EntryFault e w := by
  obtain ⟨key, v⟩ := e
  constructor
  · intro h
    cases key with
    | str name =>
      have hno : ¬ v.MayBeProperty := by
        rw [← exists_property?_iff]
        rintro ⟨u, hu⟩
        simp [checkProperty, hu] at h
      have hnone : v.property? = none :=
        Option.eq_none_iff_forall_ne_some.2 fun u hu => hno (exists_property?_iff.1 ⟨u, hu⟩)
      rw [checkProperty, hnone] at h
      cases h
      exact .value hno
    | _ =>
      cases h
      exact .name (by simp)
  · intro h
    cases h with
    | name hkey =>
      cases key with
      | str name => exact absurd rfl (hkey name)
      | _ => rfl
    | value hno =>
      have hnone : v.property? = none :=
        Option.eq_none_iff_forall_ne_some.2 fun u hu => hno (exists_property?_iff.1 ⟨u, hu⟩)
      rw [checkProperty, hnone]

theorem mapM_eq_error_iff {α β : Type} {f : α → Except Violation β} {xs : List α} {w : Violation} :
    xs.mapM f = .error w ↔ ∃ good bad rest, xs = good ++ bad :: rest ∧
      (∀ x ∈ good, ∃ y, f x = .ok y) ∧ f bad = .error w := by
  induction xs with
  | nil => simp [pure, Except.pure]
  | cons x xs ih =>
    rw [exists_first_cons_iff, ← ih, List.mapM_cons]
    cases f x with
    | error w' => simp [bind, Except.bind]
    | ok y =>
      cases xs.mapM f <;> simp [bind, Except.bind, pure, Except.pure]

theorem gatherProperties_eq_error_iff {w : Violation} :
    gatherProperties v = .error w ↔ PropertiesFault v w := by
  constructor
  · intro h
    cases v with
    | null => cases h
    | map es =>
      obtain ⟨good, bad, rest, rfl, hgood, hbad⟩ :=
        mapM_eq_error_iff.1 (check_map_eq_error_iff.1 h)
      exact .entry (fun e he => exists_checkProperty_iff.1 (hgood e he))
        (checkProperty_eq_error_iff.1 hbad)
    | _ =>
      cases h
      exact .notMapping (by simp) (by simp)
  · intro h
    cases h with
    | notMapping hnull hmap =>
      cases v with
      | null => exact absurd rfl hnull
      | map es => exact absurd rfl (hmap es)
      | _ => rfl
    | entry hgood hbad =>
      exact check_map_eq_error_iff.2 (mapM_eq_error_iff.2 ⟨_, _, _, rfl,
        fun e he => exists_checkProperty_iff.2 (hgood e he), checkProperty_eq_error_iff.2 hbad⟩)

theorem exists_mapM_iff {α β : Type} {f : α → Except Violation β} {xs : List α} :
    (∃ ys, xs.mapM f = .ok ys) ↔ ∀ x ∈ xs, ∃ y, f x = .ok y := by
  induction xs with
  | nil => simp [pure, Except.pure]
  | cons x xs ih =>
    rw [List.forall_mem_cons, ← ih, List.mapM_cons]
    cases f x with
    | error w => simp [bind, Except.bind]
    | ok y => cases xs.mapM f <;> simp [bind, Except.bind, pure, Except.pure]

/-- Properties are gathered from what may give them and from nothing else. -/
theorem exists_gatherProperties_iff : (∃ w, gatherProperties v = .ok w) ↔ v.MayBeProperties := by
  cases v with
  | null => simp [gatherProperties, Value.MayBeProperties]
  | map es =>
    have hmap : (∃ w, gatherProperties (.map es) = .ok w) ↔
        ∃ fs, es.mapM checkProperty = .ok fs := by
      simp only [gatherProperties, check_map_eq_ok_iff]
      constructor
      · rintro ⟨w, fs, hfs, -⟩
        exact ⟨fs, hfs⟩
      · rintro ⟨fs, hfs⟩
        exact ⟨.map fs, fs, hfs, rfl⟩
    rw [hmap, exists_mapM_iff]
    simp only [exists_checkProperty_iff, Value.MayBeProperties, reduceCtorEq, false_or,
      Value.map.injEq, exists_eq_left']
  | _ => simp [gatherProperties, Value.MayBeProperties]

theorem stored_of_gatherProperties (h : gatherProperties v = .ok w) :
    ∃ fs, w = .map fs ∧ (∀ f ∈ fs, (∃ name, f.1 = .str name) ∧ f.2.IsProperty) ∧
      (v = .null ∧ fs = [] ∨ ∃ es, v = .map es ∧ List.Forall₂ StoredEntry es fs) := by
  rcases gatherProperties_eq_ok_iff.1 h with ⟨hnull, hw⟩ | ⟨es, fs, hv, hw, hall⟩
  · exact ⟨[], hw, by simp, .inl ⟨hnull, rfl⟩⟩
  · refine ⟨fs, hw, isProperty_of_forall₂ hall, .inr ⟨es, hv, hall.imp fun e f hef => ?_⟩⟩
    exact storedEntry_of_checkProperty (checkProperty_eq_ok_iff.2 hef)

end Given

namespace DeclaredType

variable {convert : SimpleType → Value → Option Value} {t : DeclaredType} {v w : Value}

/-- What a type takes as it stands is not changed. -/
def Faithful (t : DeclaredType) : Prop :=
  ∀ v w, t v = some ⟨w, true⟩ → w = v

theorem simple_of_holds {t : SimpleType} (h : t.holds v) :
    simple convert t v = some ⟨v, true⟩ :=
  if_pos h

theorem simple_faithful (t : SimpleType) : Faithful (simple convert t) := by
  intro v w h
  rw [simple] at h
  split at h
  · cases h
    rfl
  · obtain ⟨u, -, hu⟩ := Option.map_eq_some_iff.1 h
    cases hu

theorem union_faithful {types : List DeclaredType} (h : ∀ t ∈ types, Faithful t) :
    Faithful (union types) := by
  intro v w hu
  have hmem : (⟨w, true⟩ : Taken) ∈ types.filterMap fun t => t v := by
    rw [union, Option.or_eq_some_iff] at hu
    rcases hu with hfind | ⟨-, hhead⟩
    · exact List.mem_of_find?_eq_some hfind
    · exact List.mem_of_mem_head? hhead
  obtain ⟨t, ht, hv⟩ := List.mem_filterMap.1 hmem
  exact h t ht v w hv

theorem union_of_exact {types : List DeclaredType} (h : ∀ t ∈ types, Faithful t)
    (ht : t ∈ types) (hv : t v = some ⟨v, true⟩) : union types v = some ⟨v, true⟩ := by
  have hmem : (⟨v, true⟩ : Taken) ∈ types.filterMap fun t => t v :=
    List.mem_filterMap.2 ⟨t, ht, hv⟩
  cases hfind : (types.filterMap fun t => t v).find? Taken.exact with
  | none => exact absurd rfl (List.find?_eq_none.1 hfind _ hmem)
  | some taken =>
    obtain ⟨w, exact⟩ := taken
    obtain rfl : exact = true := List.find?_some (p := Taken.exact) hfind
    obtain ⟨t', ht', hw⟩ := List.mem_filterMap.1 (List.mem_of_find?_eq_some hfind)
    obtain rfl := h t' ht' v w hw
    rw [union, hfind]
    rfl

theorem mapM_of_forall {α β : Type} {f : α → Option β} {g : α → β} {xs : List α}
    (h : ∀ x ∈ xs, f x = some (g x)) : xs.mapM f = some (xs.map g) := by
  induction xs with
  | nil => rfl
  | cons x xs ih =>
    obtain ⟨hx, hxs⟩ := List.forall_mem_cons.1 h
    rw [List.mapM_cons, hx, ih hxs]
    rfl

theorem listOf_of_exact {xs : List Value} (h : ∀ x ∈ xs, t x = some ⟨x, true⟩) :
    listOf t (.list xs) = some ⟨.list xs, true⟩ := by
  have hvalues : (xs.map fun x => (⟨x, true⟩ : Taken)).map Taken.value = xs := by
    rw [List.map_map]
    exact List.map_id xs
  have hexact : (xs.map fun x => (⟨x, true⟩ : Taken)).all Taken.exact = true := by
    rw [List.all_map]
    exact List.all_eq_true.2 fun _ _ => rfl
  rw [listOf, mapM_of_forall h, Option.map_some, hvalues, hexact]

theorem listOf_faithful (h : Faithful t) : Faithful (listOf t) := by
  intro v w hw
  cases v with
  | list xs =>
    obtain ⟨ys, hys, he⟩ := Option.map_eq_some_iff.1 hw
    obtain ⟨rfl, hexact⟩ := Taken.mk.inj he
    have hsame : ys.map Taken.value = xs := by
      clear hw he
      induction xs generalizing ys with
      | nil =>
        obtain rfl : [] = ys := Option.some.inj hys
        rfl
      | cons x xs ih =>
        rw [List.mapM_cons, Option.bind_eq_bind, Option.bind_eq_some_iff] at hys
        obtain ⟨y, hy, hys⟩ := hys
        obtain ⟨rest, hrest, hys⟩ := Option.bind_eq_some_iff.1 hys
        obtain rfl : y :: rest = ys := Option.some.inj hys
        obtain ⟨u, exact⟩ := y
        rw [List.all_cons, Bool.and_eq_true] at hexact
        obtain ⟨rfl, hall⟩ := hexact
        rw [List.map_cons, ih rest hrest hall, h x u hy]
    rw [hsame]
  | _ => cases hw

theorem property_of_isProperty (h : v.IsProperty) : property convert v = some ⟨v, true⟩ := by
  have hmembers : ∀ t ∈ [simple convert .text, simple convert .integer, simple convert .number],
      Faithful t := by
    simp only [List.forall_mem_cons, List.not_mem_nil, false_implies, implies_true,
      simple_faithful, and_self]
  have htypes : ∀ t ∈ [simple convert .truth, simple convert .integer, simple convert .number,
      simple convert .text, simple convert .null, listOf (union [simple convert .text,
        simple convert .integer, simple convert .number])], Faithful t := by
    simp only [List.forall_mem_cons, List.not_mem_nil, false_implies, implies_true,
      simple_faithful, listOf_faithful (union_faithful hmembers), and_self]
  cases h with
  | bool b => exact union_of_exact htypes (.head _) (simple_of_holds rfl)
  | int n => exact union_of_exact htypes (.tail _ (.head _)) (simple_of_holds rfl)
  | float x => exact union_of_exact htypes (.tail _ (.tail _ (.head _))) (simple_of_holds rfl)
  | str s =>
    exact union_of_exact htypes (.tail _ (.tail _ (.tail _ (.head _)))) (simple_of_holds rfl)
  | null =>
    exact union_of_exact htypes (.tail _ (.tail _ (.tail _ (.tail _ (.head _)))))
      (simple_of_holds rfl)
  | list hxs =>
    refine union_of_exact htypes (.tail _ (.tail _ (.tail _ (.tail _ (.tail _ (.head _))))))
      (listOf_of_exact fun x hx => ?_)
    rcases hxs x hx with ⟨n, rfl⟩ | ⟨y, rfl⟩ | ⟨s, rfl⟩
    · exact union_of_exact hmembers (.tail _ (.head _)) (simple_of_holds rfl)
    · exact union_of_exact hmembers (.tail _ (.tail _ (.head _))) (simple_of_holds rfl)
    · exact union_of_exact hmembers (.head _) (simple_of_holds rfl)

/-- The declared type neither refuses nor changes properties as they are stored, whatever it would
convert. -/
theorem properties?_of_isProperty {fs : Entries}
    (h : ∀ f ∈ fs, (∃ name, f.1 = .str name) ∧ f.2.IsProperty) :
    properties? convert (.map fs) = some (.map fs) := by
  have hentries : ∀ f ∈ fs, pair? convert f = some f := by
    intro f hf
    obtain ⟨⟨name, hname⟩, hproperty⟩ := h f hf
    rw [pair?, hname, Value.text?, Option.bind_some, property_of_isProperty hproperty,
      Option.map_some, ← hname]
  rw [properties?, mapM_of_forall hentries, List.map_id']
  rfl

end DeclaredType

section Element

variable {before after : Entries} {next : Ident} {v : Value}

theorem properties_mem_specs :
    .defaulted .properties .properties (.map []) ∈ Form.element.specs :=
  Form.ownSpecs_subset rfl (.tail _ (.head _))

/-- Take an element whose other fields are valid, and any value given for its properties, anywhere
among these. The element is built if and only if the value is null or a mapping from texts to
property values. What is stored then has the same names with the same values in the same order,
only that tuples have become lists; its declared type takes it as it stands, whatever that type
would convert, and given again it is stored again. Otherwise the first fault is reported, with no
list of errors: that the value is no mapping, or what is wrong with the first bad entry in order,
its name before its value. -/
theorem new_element_properties
    (hvalid : ∃ r, check .element next (.map (before ++ after)) = .ok r)
    (hnone : (before ++ after).get? "properties" = none)
    (convert : SimpleType → Value → Option Value) (v : Value) :
    let entries (v : Value) := before ++ (.str "properties", v) :: after
    ((∃ r, Form.element.new (entries v) next = .ok (r, next + 1)) ↔ v.MayBeProperties) ∧
    (∀ r next', Form.element.new (entries v) next = .ok (r, next') → ∃ fs,
      r.get .properties = .map fs ∧
      (v = .null ∧ fs = [] ∨ ∃ es, v = .map es ∧ List.Forall₂ StoredEntry es fs) ∧
      DeclaredType.properties? convert (.map fs) = some (.map fs) ∧
      gatherProperties (.map fs) = .ok (.map fs) ∧
      ∃ q, Form.element.new (entries (.map fs)) next = .ok (q, next + 1) ∧
        q.get .properties = .map fs) ∧
    (¬ v.MayBeProperties → ∃ w, Form.element.new (entries v) next = .error w ∧
      PropertiesFault v w ∧ w.faultClass = .field ∧ w.errors = []) := by
  intro entries
  obtain ⟨r, hr⟩ := hvalid
  have hnew {v stored : Value} (hv : gatherProperties v = .ok stored) :
      ∃ q, Form.element.new (entries v) next = .ok (q, next + 1) ∧
        q.get .properties = stored := by
    obtain ⟨q, hq, -, hstored⟩ := exists_new_of_gives_around rfl properties_mem_specs rfl
      ⟨by decide, by decide⟩ hnone hr (fun hnull => nomatch hnull.1) hv
    exact ⟨q, hq, hstored⟩
  have hrefused {v : Value} {w : Violation} (hv : gatherProperties v = .error w) :
      Form.element.new (entries v) next = .error w := by
    refine new_eq_error_of_accept_around properties_mem_specs rfl
      (Entries.get?_left_of_append hnone) hr rfl (fun hnull => nomatch hnull.1) ?_
    exact check_map_eq_error_iff.2 hv
  cases hv : gatherProperties v with
  | ok stored =>
    obtain ⟨q, hq, hget⟩ := hnew hv
    obtain ⟨fs, rfl, hfs, hentries⟩ := stored_of_gatherProperties hv
    have hmay : v.MayBeProperties := exists_gatherProperties_iff.1 ⟨_, hv⟩
    have hagain : gatherProperties (.map fs) = .ok (.map fs) := gatherProperties_of_isProperty hfs
    refine ⟨⟨fun _ => hmay, fun _ => ⟨q, hq⟩⟩, fun r next' h => ?_, fun h => absurd hmay h⟩
    obtain ⟨rfl, rfl⟩ := Prod.mk.inj (Except.ok.inj (hq.symm.trans h))
    exact ⟨fs, hget, hentries, DeclaredType.properties?_of_isProperty hfs, hagain, hnew hagain⟩
  | error w =>
    have hmay : ¬ v.MayBeProperties := by
      rw [← exists_gatherProperties_iff, hv]
      rintro ⟨_, h⟩
      cases h
    have hnot : ¬ ∃ r, Form.element.new (entries v) next = .ok (r, next + 1) := by
      rw [hrefused hv]
      rintro ⟨_, h⟩
      cases h
    have hfault : PropertiesFault v w := gatherProperties_eq_error_iff.1 hv
    refine ⟨iff_of_false hnot hmay, fun r next' h => ?_, fun _ => ⟨w, hrefused hv, hfault, ?_⟩⟩
    · rw [hrefused hv] at h
      cases h
    · cases hfault with
      | notMapping => exact ⟨rfl, rfl⟩
      | entry _ hbad => cases hbad <;> exact ⟨rfl, rfl⟩

/-- Truth values stay apart from numbers and a whole number from a floating-point one; in a list a
truth value is refused, and of two bad entries the first is named, by its name. -/
theorem new_element_properties_truth_and_one :
    let before : Entries := [(.str "tagName", .str "p")]
    let after : Entries := [(.str "children", .list [])]
    let one : Binary64 := .finite false 1 0
    let good : Entries := [(.str "b", .bool true), (.str "n", .int 1), (.str "x", .float one),
      (.str "xs", .tuple [.int 1, .float one, .str "1"])]
    let bad : Entries := [(.str "n", .int 1), (.int 1, .list [.bool true]),
      (.str "xs", .list [.bool true])]
    (∃ r, check .element 0 (.map (before ++ after)) = .ok r) ∧
    (before ++ after).get? "properties" = none ∧
    (∃ r, Form.element.new (before ++ (.str "properties", .map good) :: after) 0 = .ok (r, 1)) ∧
    ∃ w, Form.element.new (before ++ (.str "properties", .map bad) :: after) 0 = .error w ∧
      PropertiesFault (.map bad) w ∧ w.faultClass = .field ∧ w.errors = [] := by
  intro before after one good bad
  have hvalid : ∃ r, check .element 0 (.map (before ++ after)) = .ok r := ⟨_, rfl⟩
  have hnone : (before ++ after).get? "properties" = none := rfl
  have hitems : ∀ x ∈ [Value.int 1, .float one, .str "1"],
      (∃ n, x = .int n) ∨ (∃ y, x = .float y) ∨ ∃ s, x = .str s := by
    simp
  have hgood : (Value.map good).MayBeProperties := by
    refine .inr ⟨good, rfl, ?_⟩
    simp only [good, List.forall_mem_cons, List.not_mem_nil, false_implies, implies_true, and_true]
    exact ⟨⟨⟨_, rfl⟩, .inl (.bool true)⟩, ⟨⟨_, rfl⟩, .inl (.int 1)⟩, ⟨⟨_, rfl⟩, .inl (.float one)⟩,
      ⟨_, rfl⟩, .inr ⟨_, rfl, .list hitems⟩⟩
  have hbad : ¬ (Value.map bad).MayBeProperties := by
    rw [← exists_gatherProperties_iff]
    rintro ⟨_, h⟩
    cases h
  have hnew := new_element_properties hvalid hnone (fun _ v => some v)
  exact ⟨hvalid, hnone, (hnew (.map good)).1.2 hgood, (hnew (.map bad)).2.2 hbad⟩

end Element

end DocTree
