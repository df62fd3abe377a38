import DocTree.Load
import DocTree.Tree.Path
import DocTree.WellFormed

/-!
How a loaded tree answers to the data it was loaded from: each mapping gives a new node of the
form that its type names, and each node in the data stands in the tree itself. `Realised` says so
by going down the data and the tree together, `Mirrors` by what stands at the same path in both.
-/
namespace DocTree

def Registry.Latest (forms : Registry) (kind : String) (form : Form) : Prop :=
  ∃ before after, forms = before ++ form :: after ∧ form.kind? = some kind ∧
    ∀ f ∈ after, f.kind? ≠ some kind

namespace Value

/-- What a mapping lists as children; nothing else has any to be loaded. -/
def listed : Value → List Value
  | map es => ((Entries.get? es "children").getD .null).items
  | _ => []

/-- What stands in data at a path of child indexes. Paths go through mappings only. -/
def at? (v : Value) : List Nat → Option Value
  | [] => some v
  | i :: path =>
    match v.listed[i]? with
    | some x => x.at? path
    | none => none

/-- Data for a tree: mappings that list their children, if they have any, and well-formed nodes
with identities below `next`, in any arrangement. All else that mappings hold is left open. -/
inductive TreeData (next : Ident) : Value → Prop
  | node {r : Record} : r.WellFormed → (∀ n ∈ r.walk, n.id < next) → TreeData next (record r)
  | map {es : Entries} :
    (∀ v, es.get? "children" = some v → ∃ xs, v = list xs ∨ v = tuple xs) →
    (∀ x ∈ (map es).listed, TreeData next x) → TreeData next (map es)

/-- Some instance is mentioned at two paths of the data, or at one path and below a node at
another. -/
def MentionsTwice (v : Value) : Prop :=
  ∃ path path' r s, path ≠ path' ∧ v.at? path = some (record r) ∧
    v.at? path' = some (record s) ∧ ∃ n ∈ r.walk, n.id = s.id

end Value

mutual

/-- `Realised forms next v r` when `r` is what the data `v` gives, with identities of new nodes
from `next` on. -/
inductive Realised (forms : Registry) (next : Ident) : Value → Record → Prop
  | kept {r : Record} : Realised forms next (.record r) r
  | made {es : Entries} {kind : String} {r : Record} :
    es.get? "type" = some (.str kind) → forms.Latest kind r.form → next ≤ r.id →
    RealisedItems forms next (Value.map es).listed r.children → Realised forms next (.map es) r

inductive RealisedItems (forms : Registry) (next : Ident) : List Value → List Value → Prop
  | nil : RealisedItems forms next [] []
  | cons {x : Value} {xs ys : List Value} {r : Record} :
    r.form.isNode → Realised forms next x r → RealisedItems forms next xs ys →
    RealisedItems forms next (x :: xs) (.record r :: ys)

end

/-- The nodes of the tree stand at the paths of the data: a new node of the latest form of its type
for each mapping, each node of the data itself with all that is below it, and no others. -/
structure Mirrors (forms : Registry) (next : Ident) (v : Value) (r : Record) : Prop where
  made : ∀ path es, v.at? path = some (.map es) → ∃ n kind, r.descendant? path = some n ∧
    next ≤ n.id ∧ Entries.get? es "type" = some (.str kind) ∧ forms.Latest kind n.form
  kept : ∀ path q, v.at? path = some (.record q) → r.descendant? path = some q
  only : ∀ path n, r.descendant? path = some n → (∃ es, v.at? path = some (.map es)) ∨
    ∃ above below q, path = above ++ below ∧ v.at? above = some (.record q) ∧
      q.descendant? below = some n

namespace Value

theorem at?_cons_eq_some_iff {v w : Value} {i : Nat} {path : List Nat} :
    v.at? (i :: path) = some w ↔ ∃ x, v.listed[i]? = some x ∧ x.at? path = some w := by
  rw [at?]
  cases v.listed[i]? <;> simp

end Value

/-- What stands at the same index of the data and of the tree answer to each other. -/
theorem RealisedItems.getElem? {forms : Registry} {next : Ident} {xs ys : List Value}
    (h : RealisedItems forms next xs ys) (i : Nat) :
    (xs[i]? = none ∧ ys[i]? = none) ∨ ∃ x r, xs[i]? = some x ∧ ys[i]? = some (.record r) ∧
      r.form.isNode ∧ Realised forms next x r := by
  induction i generalizing xs ys with
  | zero =>
    cases h with
    | nil => exact .inl ⟨rfl, rfl⟩
    | cons hn hx _ => exact .inr ⟨_, _, rfl, rfl, hn, hx⟩
  | succ i ih =>
    cases h with
    | nil => exact .inl ⟨rfl, rfl⟩
    | cons _ _ hrest => exact ih hrest

namespace Realised

variable {forms : Registry} {next : Ident} {v : Value} {r : Record}

theorem listed {i : Nat} {x : Value} (h : Realised forms next v r) (hx : v.listed[i]? = some x) :
    ∃ c, r.children[i]? = some (.record c) ∧ c.form.isNode ∧ Realised forms next x c := by
  cases h with
  | kept => simp [Value.listed] at hx
  | made _ _ _ hitems =>
    rcases hitems.getElem? i with ⟨hnone, -⟩ | ⟨x', c, hx', hc, hn, hreal⟩
    · rw [hx] at hnone
      cases hnone
    · rw [hx] at hx'
      obtain rfl := Option.some.inj hx'
      exact ⟨c, hc, hn, hreal⟩

theorem descendant {path : List Nat} {w : Value} (h : Realised forms next v r)
    (hw : v.at? path = some w) : ∃ n, r.descendant? path = some n ∧ Realised forms next w n := by
  induction path generalizing v r with
  | nil =>
    obtain rfl := Option.some.inj hw
    exact ⟨r, rfl, h⟩
  | cons i path ih =>
    obtain ⟨x, hx, hw⟩ := Value.at?_cons_eq_some_iff.1 hw
    obtain ⟨c, hc, hn, hreal⟩ := h.listed hx
    obtain ⟨n, hd, hnw⟩ := ih hreal hw
    exact ⟨n, Record.descendant?_cons_eq_some_iff.2 ⟨c, hc, hn, hd⟩, hnw⟩

/-- Every node of the tree was made for a mapping of the data, or came with a node of the data. -/
theorem source {path : List Nat} {n : Record} (h : Realised forms next v r)
    (hn : r.descendant? path = some n) : (∃ es, v.at? path = some (.map es)) ∨
      ∃ above below q, path = above ++ below ∧ v.at? above = some (.record q) ∧
        q.descendant? below = some n := by
  induction path generalizing v r with
  | nil =>
    cases h with
    | kept => exact .inr ⟨[], [], r, rfl, rfl, hn⟩
    | @made es => exact .inl ⟨es, rfl⟩
  | cons i path ih =>
    cases h with
    | kept => exact .inr ⟨[], i :: path, r, rfl, rfl, hn⟩
    | @made es _ _ _ _ _ hitems =>
      obtain ⟨c, hc, -, hd⟩ := Record.descendant?_cons_eq_some_iff.1 hn
      rcases hitems.getElem? i with ⟨-, hnone⟩ | ⟨x, c', hx, hc', -, hreal⟩
      · rw [hc] at hnone
        cases hnone
      · rw [hc] at hc'
        obtain rfl := Value.record.inj (Option.some.inj hc')
        rcases ih hreal hd with ⟨fs, hfs⟩ | ⟨above, below, q, rfl, hq, hbelow⟩
        · exact .inl ⟨fs, Value.at?_cons_eq_some_iff.2 ⟨x, hx, hfs⟩⟩
        · exact .inr ⟨i :: above, below, q, rfl, Value.at?_cons_eq_some_iff.2 ⟨x, hx, hq⟩, hbelow⟩

theorem mirrors (h : Realised forms next v r) : Mirrors forms next v r := by
  constructor
  · intro path es hes
    obtain ⟨n, hd, hn⟩ := h.descendant hes
    cases hn with
    | made htype hlatest hid _ => exact ⟨n, _, hd, hid, htype, hlatest⟩
  · intro path q hq
    obtain ⟨n, hd, hn⟩ := h.descendant hq
    cases hn with
    | kept => exact hd
  · intro path n hn
    exact h.source hn

end Realised

end DocTree
