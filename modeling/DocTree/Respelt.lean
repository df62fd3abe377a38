import DocTree.Declared
import DocTree.Grammar
import DocTree.Traversal

/-!
Two ways in which written trees may differ without a difference in meaning: the order of the keys
of mappings, and the spelling of the fields of nodes. Of tidy data there is nothing that only the
order of keys could tell apart: neither several keys to report nor a mapping to show.
-/
namespace DocTree

mutual

/-- The same data up to the order of entries in mappings at any depth. -/
inductive Reordered : Value → Value → Prop
  | same (v : Value) : Reordered v v
  | list {xs ys : List Value} : ReorderedItems xs ys → Reordered (.list xs) (.list ys)
  | map {es fs gs : Entries} : ReorderedEntries es fs → fs.Perm gs → Reordered (.map es) (.map gs)

inductive ReorderedItems : List Value → List Value → Prop
  | nil : ReorderedItems [] []
  | cons {x y : Value} {xs ys : List Value} :
    Reordered x y → ReorderedItems xs ys → ReorderedItems (x :: xs) (y :: ys)

inductive ReorderedEntries : List (Value × Value) → List (Value × Value) → Prop
  | nil : ReorderedEntries [] []
  | cons {k x y : Value} {es fs : List (Value × Value)} :
    Reordered x y → ReorderedEntries es fs → ReorderedEntries ((k, x) :: es) ((k, y) :: fs)

end

/-- No field has two spellings among the keys of the entries. -/
def Entries.SpeltOnce (es : Entries) : Prop :=
  ∀ f : Field, ∀ key ∈ f.spellings, ∀ other ∈ f.spellings,
    es.contains key → es.contains other → key = other

mutual

/-- The same written tree up to the spelling of fields in node mappings at any depth. -/
inductive Respelt : Value → Value → Prop
  | same (v : Value) : Respelt v v
  | node {es fs : Entries} :
    es.SpeltOnce → fs.SpeltOnce → RespeltEntries es fs → Respelt (.map es) (.map fs)

inductive RespeltItems : List Value → List Value → Prop
  | nil : RespeltItems [] []
  | cons {x y : Value} {xs ys : List Value} :
    Respelt x y → RespeltItems xs ys → RespeltItems (x :: xs) (y :: ys)

inductive RespeltEntries : List (Value × Value) → List (Value × Value) → Prop
  | nil : RespeltEntries [] []
  | keep {e : Value × Value} {es fs : List (Value × Value)} :
    RespeltEntries es fs → RespeltEntries (e :: es) (e :: fs)
  | spell (f : Field) {key other : String} {v : Value} {es fs : List (Value × Value)} :
    key ∈ f.spellings → other ∈ f.spellings → RespeltEntries es fs →
    RespeltEntries ((.str key, v) :: es) ((.str other, v) :: fs)
  | children {xs ys : List Value} {es fs : List (Value × Value)} :
    RespeltItems xs ys → RespeltEntries es fs →
    RespeltEntries ((.str "children", .list xs) :: es) ((.str "children", .list ys) :: fs)

end

theorem ReorderedEntries.refl (es : List (Value × Value)) : ReorderedEntries es es := by
  induction es with
  | nil => exact .nil
  | cons e es ih => exact .cons (.same _) ih

theorem Reordered.of_perm {es fs : Entries} (h : es.Perm fs) : Reordered (.map es) (.map fs) :=
  .map (ReorderedEntries.refl es) h

/-- All keys of a position give its places, and all keys of these give their fields. -/
def Entries.TidyPosition (es : Entries) : Prop :=
  unknownKeys Form.position.specs es = [] ∧
    ∀ key ∈ ["start", "end"], ∀ ps, es.get? key = some (.map ps) →
      unknownKeys Form.point.specs ps = []

/-- The type of a node mapping is neither a list nor a mapping, all keys of the mapping and of its
position give fields, and all its properties are valid. -/
structure Entries.Tidy (forms : Registry) (es : Entries) : Prop where
  type : (∀ xs, Entries.type es ≠ .list xs) ∧ ∀ fs, Entries.type es ≠ .map fs
  known : ∀ form, forms.resolve? (Entries.type es) = some form → unknownKeys form.specs es = []
  position : ∀ ps, es.get? "position" = some (.map ps) → Entries.TidyPosition ps
  properties : ∀ ps, es.get? "properties" = some (.map ps) → ∀ e ∈ ps, MayBeEntry e

def Value.Tidy (forms : Registry) (v : Value) : Prop :=
  ∀ es steps rest, Reaches forms v (.map es) steps rest → Entries.Tidy forms es

end DocTree
