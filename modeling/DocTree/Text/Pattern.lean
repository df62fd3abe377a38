/-!
Patterns of text, read with backtracking. A pattern has a list of ways to match at the start of a
text, the preferred one first: of a repetition the longer ones come before the shorter ones, of two
alternatives the first, and what may stand comes before its absence. The match is the first way.
-/
namespace DocTree.Text

inductive Pattern (γ : Type)
  | one (p : Char → Bool)
  | many (p : Char → Bool)
  | seq (a b : Pattern γ)
  | either (a b : Pattern γ)
  | maybe (a : Pattern γ)
  | group (g : γ) (a : Pattern γ)

namespace Pattern

variable {γ : Type}

/-- What can be left of a text after a repetition of characters, the longest repetition first. -/
def remainders (p : Char → Bool) : List Char → List (List Char)
  | [] => [[]]
  | c :: s => if p c then remainders p s ++ [c :: s] else [c :: s]

/-- The texts of the groups that took part, and what is left of the text. -/
abbrev Way (γ : Type) := List (γ × List Char) × List Char

def ways : Pattern γ → List Char → List (Way γ)
  | one _, [] => []
  | one p, c :: s => if p c then [([], s)] else []
  | many p, s => (remainders p s).map fun rest => ([], rest)
  | seq a b, s => (a.ways s).flatMap fun x => (b.ways x.2).map fun y => (x.1 ++ y.1, y.2)
  | either a b, s => a.ways s ++ b.ways s
  | maybe a, s => a.ways s ++ [([], s)]
  | group g a, s =>
    (a.ways s).map fun x => ((g, s.take (s.length - x.2.length)) :: x.1, x.2)

def match? (a : Pattern γ) (s : List Char) : Option (Way γ) :=
  (a.ways s).head?

def many1 (p : Char → Bool) : Pattern γ :=
  seq (one p) (many p)

def word (p : Char → Char → Bool) : List Char → Pattern γ → Pattern γ
  | [], rest => rest
  | letter :: letters, rest => seq (one (p letter)) (word p letters rest)

def search {β : Type} (a : Pattern γ) (f : Way γ → Option β) (s : List Char) : Option β :=
  (a.ways s).findSome? f

section Search

variable {β δ : Type} {p : Char → Bool} {a b : Pattern γ} {f : Way γ → Option β} {s : List Char}

theorem match?_eq_search : a.match? s = a.search some s := by
  rw [search, match?]
  cases a.ways s <;> rfl

theorem match?_seq : (seq a b).match? s =
    a.search (fun x => (b.match? x.2).map fun y => (x.1 ++ y.1, y.2)) s := by
  simp only [match?, ways, List.head?_flatMap, List.head?_map]
  rfl

theorem match?_either : (either a b).match? s = (a.match? s).or (b.match? s) :=
  List.head?_append

theorem match?_maybe : (maybe a).match? s = (a.match? s).or (some ([], s)) :=
  List.head?_append

@[simp] theorem search_one_nil : (one p).search f [] = none := rfl

@[simp] theorem search_one_cons (c : Char) :
    (one p).search f (c :: s) = if p c then f ([], s) else none := by
  rw [search, ways]
  split <;> simp

theorem search_seq : (seq a b).search f s =
    a.search (fun x => b.search (fun y => f (x.1 ++ y.1, y.2)) x.2) s := by
  simp only [search, ways]
  induction a.ways s with
  | nil => rfl
  | cons x xs ih =>
    rw [List.flatMap_cons, List.findSome?_append, ih, List.findSome?_map, List.findSome?_cons]
    simp only [Function.comp_def]
    cases (b.ways x.2).findSome? fun y => f (x.1 ++ y.1, y.2) <;> rfl

theorem search_either : (either a b).search f s = (a.search f s).or (b.search f s) :=
  List.findSome?_append

theorem search_maybe : (maybe a).search f s = (a.search f s).or (f ([], s)) := by
  simp [search, ways, List.findSome?_append]

theorem search_group (g : γ) : (group g a).search f s =
    a.search (fun x => f ((g, s.take (s.length - x.2.length)) :: x.1, x.2)) s := by
  rw [search, ways, List.findSome?_map]
  rfl

/-- A repetition is as long as it can be if to give back characters never helps. -/
theorem search_many
    (h : ∀ c s, p c → f ([], c :: s) = none ∨ (f ([], s.dropWhile p)).isSome) :
    (many p).search f s = f ([], s.dropWhile p) := by
  rw [search, ways, List.findSome?_map]
  induction s with
  | nil => simp [remainders]
  | cons c s ih =>
    rw [remainders, List.dropWhile_cons]
    by_cases hc : p c
    · rw [if_pos hc, if_pos hc, List.findSome?_append, ih]
      rcases h c s hc with hnone | hsome
      · simp [hnone]
      · rw [Option.or_of_isSome hsome]
    · simp [hc]

end Search

end Pattern

end DocTree.Text
