import DocTree.Encode
import DocTree.Proofs.Alike
import DocTree.Proofs.Copying

/-!
What new identities leave as it is. Relabelling twice is relabelling once, and does nothing where
it fixes the identities that occur; relabelled values are equal if no stream is among them, and a
node is written with its relabelled identities. Each statement is proved by recursion on values,
records, and lists of items, entries and fields together. Main statements: `relabel_relabel`,
`relabel_of_fixed`, `equals_relabel` and `encode_relabel`.
-/
namespace DocTree

mutual

def Value.isStreamless : Value → Bool
  | .list xs | .tuple xs | .set xs => streamlessItems xs
  | .stream _ _ => false
  | .map es => streamlessEntries es
  | .record r => r.isStreamless
  | _ => true

def Record.isStreamless : Record → Bool
  | ⟨_, _, fields⟩ => streamlessFields fields

def streamlessItems : List Value → Bool
  | [] => true
  | x :: xs => x.isStreamless && streamlessItems xs

def streamlessEntries : List (Value × Value) → Bool
  | [] => true
  | (k, x) :: es => k.isStreamless && x.isStreamless && streamlessEntries es

def streamlessFields : List (Field × Value) → Bool
  | [] => true
  | (_, x) :: fs => x.isStreamless && streamlessFields fs

end

section Twice

variable (f g : Ident → Ident)

mutual

theorem Value.relabel_relabel (v : Value) : (v.relabel f).relabel g = v.relabel (g ∘ f) := by
  cases v with
  | list xs => exact congrArg Value.list (relabelItems_relabelItems xs)
  | tuple xs => exact congrArg Value.tuple (relabelItems_relabelItems xs)
  | set xs => exact congrArg Value.set (relabelItems_relabelItems xs)
  | stream id xs => exact congrArg (Value.stream (g (f id))) (relabelItems_relabelItems xs)
  | map es => exact congrArg Value.map (relabelEntries_relabelEntries es)
  | record r => exact congrArg Value.record (Record.relabel_relabel r)
  | _ => rfl

theorem Record.relabel_relabel (r : Record) : (r.relabel f).relabel g = r.relabel (g ∘ f) := by
  obtain ⟨id, form, fields⟩ := r
  exact congrArg (Record.mk (g (f id)) form) (relabelFields_relabelFields fields)

theorem relabelItems_relabelItems (xs : List Value) :
    relabelItems g (relabelItems f xs) = relabelItems (g ∘ f) xs := by
  cases xs with
  | nil => rfl
  | cons x xs => exact congrArg₂ List.cons x.relabel_relabel (relabelItems_relabelItems xs)

theorem relabelEntries_relabelEntries (es : Entries) :
    relabelEntries g (relabelEntries f es) = relabelEntries (g ∘ f) es := by
  match es with
  | [] => rfl
  | (k, x) :: es =>
    exact congrArg₂ List.cons (Prod.ext k.relabel_relabel x.relabel_relabel)
      (relabelEntries_relabelEntries es)

theorem relabelFields_relabelFields (fields : List (Field × Value)) :
    relabelFields g (relabelFields f fields) = relabelFields (g ∘ f) fields := by
  match fields with
  | [] => rfl
  | (field, x) :: fields =>
    exact congrArg₂ List.cons (Prod.ext rfl x.relabel_relabel)
      (relabelFields_relabelFields fields)

end

end Twice

section Fixed

variable {new : Ident → Ident}

mutual

theorem Value.relabel_of_fixed (v : Value) (h : ∀ i ∈ v.idents, new i = i) :
    v.relabel new = v := by
  cases v with
  | list xs => exact congrArg Value.list (relabelItems_of_fixed xs h)
  | tuple xs => exact congrArg Value.tuple (relabelItems_of_fixed xs h)
  | set xs => exact congrArg Value.set (relabelItems_of_fixed xs h)
  | stream id xs =>
    obtain ⟨hid, hxs⟩ := List.forall_mem_cons.1 h
    exact congrArg₂ Value.stream hid (relabelItems_of_fixed xs hxs)
  | map es => exact congrArg Value.map (relabelEntries_of_fixed es h)
  | record r => exact congrArg Value.record (Record.relabel_of_fixed r h)
  | _ => rfl

theorem Record.relabel_of_fixed (r : Record) (h : ∀ i ∈ r.idents, new i = i) :
    r.relabel new = r := by
  obtain ⟨id, form, fields⟩ := r
  obtain ⟨hid, hfields⟩ := List.forall_mem_cons.1 h
  show Record.mk (new id) form (relabelFields new fields) = ⟨id, form, fields⟩
  rw [hid, relabelFields_of_fixed fields hfields]

theorem relabelItems_of_fixed (xs : List Value) (h : ∀ i ∈ identsOfItems xs, new i = i) :
    relabelItems new xs = xs := by
  cases xs with
  | nil => rfl
  | cons x xs =>
    obtain ⟨hx, hxs⟩ := List.forall_mem_append.1 h
    exact congrArg₂ List.cons (x.relabel_of_fixed hx) (relabelItems_of_fixed xs hxs)

theorem relabelEntries_of_fixed (es : Entries) (h : ∀ i ∈ identsOfEntries es, new i = i) :
    relabelEntries new es = es := by
  match es with
  | [] => rfl
  | (k, x) :: es =>
    obtain ⟨he, hes⟩ := List.forall_mem_append.1 h
    obtain ⟨hk, hx⟩ := List.forall_mem_append.1 he
    exact congrArg₂ List.cons (Prod.ext (k.relabel_of_fixed hk) (x.relabel_of_fixed hx))
      (relabelEntries_of_fixed es hes)

theorem relabelFields_of_fixed (fields : List (Field × Value))
    (h : ∀ i ∈ identsOfFields fields, new i = i) : relabelFields new fields = fields := by
  match fields with
  | [] => rfl
  | (field, x) :: fields =>
    obtain ⟨hx, hfields⟩ := List.forall_mem_append.1 h
    exact congrArg₂ List.cons (Prod.ext rfl (x.relabel_of_fixed hx))
      (relabelFields_of_fixed fields hfields)

end

end Fixed

section Equals

variable (f g : Ident → Ident)

mutual

theorem Value.equals_relabel (v : Value) (h : v.isStreamless) :
    (v.relabel f).equals (v.relabel g) := by
  cases v with
  | list xs | tuple xs =>
    rw [Value.relabel, Value.relabel, Value.equals]
    exact equalItems_relabelItems xs h
  | set xs =>
    have hall := forall_equals_relabel xs h
    rw [Value.relabel, Value.relabel, Value.equals, relabelItems_eq, relabelItems_eq,
      List.length_map, List.length_map, decide_eq_true rfl, Bool.true_and]
    apply membersAmong_of_forall
    rw [List.forall_mem_map]
    exact fun x hx => ⟨_, List.mem_map_of_mem hx, hall x hx⟩
  | stream id xs => cases h
  | map es =>
    have hall := forall_entries_relabel es h
    rw [Value.relabel, Value.relabel, Value.equals, relabelEntries_eq, relabelEntries_eq,
      List.length_map, List.length_map, decide_eq_true rfl, Bool.true_and]
    apply entriesAmong_of_forall
    rw [List.forall_mem_map]
    exact fun e he => ⟨_, List.mem_map_of_mem he, hall e he⟩
  | record r =>
    rw [Value.relabel, Value.relabel, Value.equals]
    exact Record.equals_relabel r h
  | _ => exact Value.equals_refl _

theorem Record.equals_relabel (r : Record) (h : r.isStreamless) :
    (r.relabel f).equals (r.relabel g) := by
  obtain ⟨id, form, fields⟩ := r
  rw [Record.relabel, Record.relabel, Record.equals, decide_eq_true rfl, Bool.true_and]
  exact equalFields_relabelFields fields h

theorem equalItems_relabelItems (xs : List Value) (h : streamlessItems xs) :
    equalItems (relabelItems f xs) (relabelItems g xs) := by
  cases xs with
  | nil => rw [relabelItems, relabelItems, equalItems]
  | cons x xs =>
    obtain ⟨hx, hxs⟩ := Bool.and_eq_true_iff.1 h
    rw [relabelItems, relabelItems, equalItems, x.equals_relabel hx,
      equalItems_relabelItems xs hxs, Bool.and_self]

theorem forall_equals_relabel (xs : List Value) (h : streamlessItems xs) :
    ∀ x ∈ xs, (x.relabel f).equals (x.relabel g) := by
  cases xs with
  | nil => simp
  | cons x xs =>
    obtain ⟨hx, hxs⟩ := Bool.and_eq_true_iff.1 h
    exact List.forall_mem_cons.2 ⟨x.equals_relabel hx, forall_equals_relabel xs hxs⟩

theorem forall_entries_relabel (es : Entries) (h : streamlessEntries es) : ∀ e ∈ es,
    (e.1.relabel f).equals (e.1.relabel g) ∧ (e.2.relabel f).equals (e.2.relabel g) := by
  match es with
  | [] => simp
  | (k, x) :: es =>
    obtain ⟨he, hes⟩ := Bool.and_eq_true_iff.1 h
    obtain ⟨hk, hx⟩ := Bool.and_eq_true_iff.1 he
    exact List.forall_mem_cons.2 ⟨⟨k.equals_relabel hk, x.equals_relabel hx⟩,
      forall_entries_relabel es hes⟩

theorem equalFields_relabelFields (fields : List (Field × Value)) (h : streamlessFields fields) :
    equalFields (relabelFields f fields) (relabelFields g fields) := by
  match fields with
  | [] => rw [relabelFields, relabelFields, equalFields]
  | (field, x) :: fields =>
    obtain ⟨hx, hfields⟩ := Bool.and_eq_true_iff.1 h
    rw [relabelFields, relabelFields, equalFields, decide_eq_true rfl, x.equals_relabel hx,
      equalFields_relabelFields fields hfields]
    rfl

end

end Equals

section Encode

variable {new : Ident → Ident}

mutual

theorem Record.dump_relabel (r : Record) : (r.relabel new).dump = r.dump.relabel new := by
  obtain ⟨id, form, fields⟩ := r
  exact congrArg Value.map (dumpFields_relabel fields)

theorem dumpFields_relabel (fields : List (Field × Value)) :
    dumpFields (relabelFields new fields) = relabelEntries new (dumpFields fields) := by
  match fields with
  | [] => rfl
  | (f, v) :: fields =>
    have hrest := dumpFields_relabel fields
    cases v with
    | record r =>
      rw [relabelFields, Value.relabel, dumpFields, dumpFields, relabelEntries, hrest,
        Record.dump_relabel r, Value.relabel_str]
    | _ => simp [relabelFields, Value.relabel, dumpFields, relabelEntries, hrest]

end

mutual

theorem Record.encode_relabel (r : Record) : (r.relabel new).encode = r.encode.relabel new := by
  obtain ⟨id, form, fields⟩ := r
  exact congrArg Value.map (encodeFields_relabel fields)

theorem encodeFields_relabel (fields : List (Field × Value)) :
    encodeFields (relabelFields new fields) = relabelEntries new (encodeFields fields) := by
  match fields with
  | [] => rfl
  | (f, v) :: fields =>
    have hrest := encodeFields_relabel fields
    by_cases hf : f = .children
    · subst hf
      cases v with
      | list xs | tuple xs | set xs | stream _ xs =>
        have hitems := encodeItems_relabel xs
        simp [relabelFields, Value.relabel, encodeFields, relabelEntries, hrest, hitems]
      | map es =>
        have hkeys := encodeKeys_relabel es
        simp [relabelFields, Value.relabel, encodeFields, relabelEntries, hrest, hkeys]
      | record r =>
        simp [relabelFields, Value.relabel, encodeFields, relabelEntries, hrest, r.dump_relabel]
      | str | bytes =>
        simp [relabelFields, Value.relabel, encodeFields, relabelEntries, relabelItems_eq, hrest]
      | _ => simp [relabelFields, Value.relabel, encodeFields, relabelEntries, hrest]
    · cases v with
      | record r =>
        simp [relabelFields, Value.relabel, encodeFields, relabelEntries, hrest, r.dump_relabel]
      | _ => simp [relabelFields, Value.relabel, encodeFields, relabelEntries, hrest, hf]

theorem encodeItems_relabel (xs : List Value) :
    encodeItems (relabelItems new xs) = relabelItems new (encodeItems xs) := by
  cases xs with
  | nil => rfl
  | cons x xs =>
    have hrest := encodeItems_relabel xs
    cases x with
    | record r =>
      rw [relabelItems, Value.relabel, encodeItems, encodeItems, relabelItems, hrest,
        Record.encode_relabel r]
    | _ => simp [relabelItems, Value.relabel, encodeItems, hrest]

theorem encodeKeys_relabel (es : List (Value × Value)) :
    encodeKeys (relabelEntries new es) = relabelItems new (encodeKeys es) := by
  cases es with
  | nil => rfl
  | cons e es =>
    obtain ⟨k, v⟩ := e
    have hrest := encodeKeys_relabel es
    cases k with
    | record r =>
      rw [relabelEntries, Value.relabel, encodeKeys, encodeKeys, relabelItems, hrest,
        Record.encode_relabel r]
    | _ => simp [relabelEntries, relabelItems, Value.relabel, encodeKeys, hrest]

end

end Encode

section Streamless

theorem streamlessItems_iff {xs : List Value} :
    streamlessItems xs ↔ ∀ x ∈ xs, x.isStreamless := by
  induction xs with
  | nil => simp [streamlessItems]
  | cons x xs ih => rw [streamlessItems, Bool.and_eq_true, ih, List.forall_mem_cons]

theorem streamlessEntries_iff {es : Entries} :
    streamlessEntries es ↔ ∀ e ∈ es, e.1.isStreamless ∧ e.2.isStreamless := by
  induction es with
  | nil => simp [streamlessEntries]
  | cons e es ih =>
    rw [streamlessEntries, Bool.and_eq_true, Bool.and_eq_true, ih, List.forall_mem_cons]

theorem streamlessFields_iff {fields : List (Field × Value)} :
    streamlessFields fields ↔ ∀ p ∈ fields, p.2.isStreamless := by
  induction fields with
  | nil => simp [streamlessFields]
  | cons p fields ih => rw [streamlessFields, Bool.and_eq_true, ih, List.forall_mem_cons]

mutual

theorem Record.isStreamless_dump (r : Record) (h : r.isStreamless) : r.dump.isStreamless := by
  obtain ⟨id, form, fields⟩ := r
  exact streamlessEntries_dumpFields fields h

theorem streamlessEntries_dumpFields (fields : List (Field × Value))
    (h : streamlessFields fields) : streamlessEntries (dumpFields fields) := by
  match fields with
  | [] => rfl
  | (f, v) :: fields =>
    obtain ⟨hv, hfields⟩ := Bool.and_eq_true_iff.1 h
    have hrest := streamlessEntries_dumpFields fields hfields
    cases v with
    | record r =>
      simp [dumpFields, streamlessEntries, Value.isStreamless, r.isStreamless_dump hv, hrest]
    | _ => simp_all [dumpFields, streamlessEntries, Value.isStreamless]

end

mutual

theorem Record.isStreamless_encode (r : Record) (h : r.isStreamless) :
    r.encode.isStreamless := by
  obtain ⟨id, form, fields⟩ := r
  exact streamlessEntries_encodeFields fields h

theorem streamlessEntries_encodeFields (fields : List (Field × Value))
    (h : streamlessFields fields) : streamlessEntries (encodeFields fields) := by
  match fields with
  | [] => rfl
  | (f, v) :: fields =>
    obtain ⟨hv, hfields⟩ := Bool.and_eq_true_iff.1 h
    have hrest := streamlessEntries_encodeFields fields hfields
    by_cases hf : f = .children
    · subst hf
      cases v with
      | list xs | tuple xs | set xs =>
        have hitems := streamlessItems_encodeItems xs hv
        simp [encodeFields, streamlessEntries, Value.isStreamless, hitems, hrest]
      | map es =>
        have hkeys := streamlessItems_encodeKeys es hv
        simp [encodeFields, streamlessEntries, Value.isStreamless, hkeys, hrest]
      | record r =>
        simp [encodeFields, streamlessEntries, Value.isStreamless, r.isStreamless_dump hv, hrest]
      | str | bytes =>
        simp [encodeFields, streamlessEntries, Value.isStreamless, streamlessItems_iff, hrest]
      | _ => simp_all [encodeFields, streamlessEntries, Value.isStreamless]
    · cases v with
      | record r =>
        simp [encodeFields, streamlessEntries, Value.isStreamless, r.isStreamless_dump hv, hrest]
      | _ => simp_all [encodeFields, streamlessEntries, Value.isStreamless]

theorem streamlessItems_encodeItems (xs : List Value) (h : streamlessItems xs) :
    streamlessItems (encodeItems xs) := by
  cases xs with
  | nil => rfl
  | cons x xs =>
    obtain ⟨hx, hxs⟩ := Bool.and_eq_true_iff.1 h
    have hrest := streamlessItems_encodeItems xs hxs
    cases x with
    | record r => rw [encodeItems, streamlessItems, r.isStreamless_encode hx, hrest, Bool.and_self]
    | _ => simp_all [encodeItems, streamlessItems]

theorem streamlessItems_encodeKeys (es : List (Value × Value)) (h : streamlessEntries es) :
    streamlessItems (encodeKeys es) := by
  cases es with
  | nil => rfl
  | cons e es =>
    obtain ⟨k, v⟩ := e
    obtain ⟨hkv, hes⟩ := Bool.and_eq_true_iff.1 h
    have hk := (Bool.and_eq_true_iff.1 hkv).1
    have hrest := streamlessItems_encodeKeys es hes
    cases k with
    | record r => rw [encodeKeys, streamlessItems, r.isStreamless_encode hk, hrest, Bool.and_self]
    | _ => simp_all [encodeKeys, streamlessItems]

end

end Streamless

end DocTree
