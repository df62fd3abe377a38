import DocTree.Tree.Path

/-!
Document order. A turn of the walk's loop keeps what the loop will have yielded in the end, and
yields one node of it, so the loop ends with all of it yielded. The paths of a tree are those that
lead to a node, they stand in lexicographic order, and those through one node stand together. Main
statements: `Sweep.Turns.outcome_eq`, `Sweep.exists_turns`, `Record.mem_paths_iff`,
`Record.pairwise_paths`, `Record.exists_paths_through` and `Record.walk_in_document_order`.
-/
namespace DocTree

/-- The loop of a walk between two turns: the nodes yielded so far, and the stack of the nodes still
to visit, whose top is its last entry. -/
structure Sweep where
  yielded : List Record
  stack : List Record

namespace Sweep

/-- The top of the stack is taken off and yielded, and its children are put on in reverse, so that
the first of them is on top. There is no turn on an empty stack. -/
def turn? (s : Sweep) : Option Sweep :=
  s.stack.getLast?.map fun r => ⟨s.yielded ++ [r], s.stack.dropLast ++ r.childNodes.reverse⟩

/-- `Turns s n t` when `n` turns lead from `s` to `t`. -/
inductive Turns : Sweep → Nat → Sweep → Prop
  | refl (s : Sweep) : Turns s 0 s
  | succ {s t u : Sweep} {n : Nat} : s.turn? = some t → Turns t n u → Turns s (n + 1) u

def outcome (s : Sweep) : List Record :=
  s.yielded ++ Record.walkFrom s.stack.reverse

variable {s t : Sweep} {n : Nat}

theorem turn?_push (yielded stack : List Record) (r : Record) :
    turn? ⟨yielded, (r :: stack).reverse⟩ =
      some ⟨yielded ++ [r], (r.childNodes ++ stack).reverse⟩ := by
  simp [turn?]

theorem outcome_of_turn? (h : s.turn? = some t) :
    t.outcome = s.outcome ∧ t.yielded.length = s.yielded.length + 1 := by
  obtain ⟨yielded, stack⟩ := s
  rcases stack.eq_nil_or_concat with rfl | ⟨rest, r, rfl⟩
  · cases h
  · have hturn := turn?_push yielded rest.reverse r
    rw [List.reverse_cons, List.reverse_reverse, ← List.concat_eq_append, h] at hturn
    obtain rfl := Option.some.inj hturn
    simp [outcome, Record.walkFrom]

theorem Turns.outcome_eq (h : Turns s n t) :
    t.outcome = s.outcome ∧ t.yielded.length = s.yielded.length + n := by
  induction h with
  | refl => exact ⟨rfl, rfl⟩
  | succ hturn _ ih =>
    obtain ⟨houtcome, hlength⟩ := outcome_of_turn? hturn
    exact ⟨ih.1.trans houtcome, by omega⟩

/-- Induction on the walk from the stack: the loop comes to an end, after as many turns as there are
nodes to visit. -/
theorem exists_turns (yielded stack : List Record) :
    Turns ⟨yielded, stack.reverse⟩ (Record.walkFrom stack).length
      ⟨yielded ++ Record.walkFrom stack, []⟩ := by
  induction stack using Record.walkFrom.induct generalizing yielded with
  | case1 =>
    rw [Record.walkFrom, List.append_nil]
    exact .refl _
  | case2 r stack ih =>
    rw [Record.walkFrom, List.length_cons]
    have hrest := ih (yielded ++ [r])
    rw [List.append_assoc, List.singleton_append] at hrest
    exact .succ (turn?_push yielded stack r) hrest

end Sweep

section Items

variable {xs : List Value} {index i : Nat} {c : Record} {path : List Nat}

theorem pathsOfItems_cons (index : Nat) (x : Value) (xs : List Value) :
    pathsOfItems index (x :: xs) =
      (x.node?.elim [] fun c => c.paths.map (index :: ·)) ++ pathsOfItems (index + 1) xs := by
  cases x with
  | record r =>
    rw [pathsOfItems, Value.node?_record]
    split <;> rfl
  | _ => rfl

theorem mem_pathsOfItems_iff : path ∈ pathsOfItems index xs ↔
    ∃ i c below, xs[i]?.bind Value.node? = some c ∧ below ∈ c.paths ∧
      path = (index + i) :: below := by
  induction xs generalizing index with
  | nil => simp [pathsOfItems]
  | cons x xs ih =>
    rw [pathsOfItems_cons, List.mem_append, ih]
    constructor
    · rintro (hx | ⟨i, c, below, hc, hbelow, rfl⟩)
      · cases hnode : x.node? with
        | none => simp [hnode] at hx
        | some c =>
          rw [hnode, Option.elim_some, List.mem_map] at hx
          obtain ⟨below, hbelow, rfl⟩ := hx
          exact ⟨0, c, below, hnode, hbelow, rfl⟩
      · exact ⟨i + 1, c, below, hc, hbelow, by rw [Nat.add_assoc, Nat.add_comm 1 i]⟩
    · rintro ⟨_ | i, c, below, hc, hbelow, rfl⟩
      · have hnode : x.node? = some c := hc
        rw [hnode, Option.elim_some]
        exact .inl (List.mem_map_of_mem hbelow)
      · exact .inr ⟨i, c, below, hc, hbelow, by rw [Nat.add_assoc, Nat.add_comm 1 i]⟩

/-- Paths stand in order if those through each item do, since the index counts first. -/
theorem pairwise_pathsOfItems (h : ∀ c ∈ xs.filterMap Value.node?,
    c.paths.Pairwise (List.Lex (· < ·))) (index : Nat) :
    (pathsOfItems index xs).Pairwise (List.Lex (· < ·)) := by
  induction xs generalizing index with
  | nil => exact .nil
  | cons x xs ih =>
    rw [pathsOfItems_cons, List.pairwise_append]
    refine ⟨?_, ih (fun c hc => h c ?_) (index + 1), ?_⟩
    · cases hnode : x.node? with
      | none => exact .nil
      | some c =>
        have hc : c ∈ (x :: xs).filterMap Value.node? := by
          rw [List.filterMap_cons_some hnode]
          exact .head _
        exact (h c hc).map _ fun _ _ hlex => .cons hlex
    · obtain ⟨y, hy, hnode⟩ := List.mem_filterMap.1 hc
      exact List.mem_filterMap.2 ⟨y, .tail _ hy, hnode⟩
    · intro first hfirst later hlater
      obtain ⟨i, d, below, -, -, rfl⟩ := mem_pathsOfItems_iff.1 hlater
      cases hnode : x.node? with
      | none => simp [hnode] at hfirst
      | some c =>
        rw [hnode, Option.elim_some, List.mem_map] at hfirst
        obtain ⟨above, -, rfl⟩ := hfirst
        exact .rel (by omega)

theorem pathsOfItems_append (index : Nat) (xs ys : List Value) :
    pathsOfItems index (xs ++ ys) =
      pathsOfItems index xs ++ pathsOfItems (index + xs.length) ys := by
  induction xs generalizing index with
  | nil => rfl
  | cons x xs ih =>
    rw [List.cons_append, pathsOfItems_cons, ih, pathsOfItems_cons, List.length_cons,
      Nat.add_assoc index 1, Nat.add_comm 1, List.append_assoc]

theorem exists_split_of_getElem? {x : Value} (h : xs[i]? = some x) :
    ∃ before after, xs = before ++ x :: after ∧ before.length = i := by
  obtain ⟨hi, rfl⟩ := List.getElem?_eq_some_iff.1 h
  refine ⟨xs.take i, xs.drop (i + 1), ?_, List.length_take_of_le (Nat.le_of_lt hi)⟩
  rw [List.getElem_cons_drop, List.take_append_drop]

theorem exists_pathsOfItems_through (h : xs[i]?.bind Value.node? = some c) (index : Nat) :
    ∃ before after, pathsOfItems index xs =
      before ++ c.paths.map ((index + i) :: ·) ++ after := by
  obtain ⟨x, hx, hnode⟩ := Option.bind_eq_some_iff.1 h
  obtain ⟨front, back, rfl, rfl⟩ := exists_split_of_getElem? hx
  refine ⟨pathsOfItems index front, pathsOfItems (index + front.length + 1) back, ?_⟩
  rw [pathsOfItems_append, pathsOfItems_cons, hnode, Option.elim_some, List.append_assoc]

end Items

namespace Record

variable {r d : Record} {path : List Nat}

theorem mem_paths_iff : path ∈ r.paths ↔ (r.descendant? path).isSome := by
  induction path generalizing r with
  | nil => simp [paths_eq]
  | cons i path ih =>
    rw [paths_eq, List.mem_cons, mem_pathsOfItems_iff, descendant?_cons]
    constructor
    · rintro (hnil | ⟨j, c, below, hc, hbelow, he⟩)
      · cases hnil
      · rw [Nat.zero_add] at he
        obtain ⟨rfl, rfl⟩ := List.cons.inj he
        rw [hc]
        exact ih.1 hbelow
    · intro h
      obtain ⟨d, hd⟩ := Option.isSome_iff_exists.1 h
      obtain ⟨c, hc, hd⟩ := Option.bind_eq_some_iff.1 hd
      refine .inr ⟨i, c, path, hc, ih.2 ?_, by rw [Nat.zero_add]⟩
      rw [hd, Option.isSome_some]

/-- Induction on the tree: a node comes before what is below it, and that goes by index. -/
theorem pairwise_paths (r : Record) : r.paths.Pairwise (List.Lex (· < ·)) := by
  have hitems : (pathsOfItems 0 r.children).Pairwise (List.Lex (· < ·)) :=
    pairwise_pathsOfItems (fun c hc => pairwise_paths c) 0
  rw [paths_eq, List.pairwise_cons]
  refine ⟨fun path hpath => ?_, hitems⟩
  obtain ⟨i, c, below, -, -, rfl⟩ := mem_pathsOfItems_iff.1 hpath
  exact .nil
termination_by r.count
decreasing_by exact count_lt_of_mem_childNodes hc

/-- The paths through one node stand together, in the order of the paths from that node. -/
theorem exists_paths_through (h : r.descendant? path = some d) :
    ∃ before after, r.paths = before ++ d.paths.map (path ++ ·) ++ after := by
  induction path generalizing r with
  | nil =>
    obtain rfl := Option.some.inj h
    exact ⟨[], [], by simp⟩
  | cons i path ih =>
    rw [descendant?_cons] at h
    obtain ⟨c, hc, hd⟩ := Option.bind_eq_some_iff.1 h
    obtain ⟨before, after, hinner⟩ := ih hd
    obtain ⟨earlier, later, houter⟩ := exists_pathsOfItems_through hc 0
    refine ⟨[] :: earlier ++ before.map (i :: ·), after.map (i :: ·) ++ later, ?_⟩
    rw [paths_eq, houter, hinner, Nat.zero_add]
    simp [Function.comp_def]

theorem map_descendant?_paths (r : Record) : r.paths.map r.descendant? = r.walk.map some := by
  rw [walk_eq_preorder, preorder_eq_filterMap_paths, List.map_filterMap_some_eq_filter_map_isSome]
  refine (List.filter_eq_self.2 ?_).symm
  rw [List.forall_mem_map]
  exact fun path hpath => mem_paths_iff.1 hpath

theorem exists_walk_block (h : r.descendant? path = some d) :
    ∃ before after, r.walk = before ++ d.walk ++ after ∧ r.paths[before.length]? = some path := by
  obtain ⟨before, after, hpaths⟩ := exists_paths_through h
  have hshift : (r.descendant? ∘ fun below => path ++ below) = d.descendant? := by
    funext below
    rw [Function.comp_apply, descendant?_append, h, Option.bind_some]
  have hbelow : (d.paths.map (path ++ ·)).filterMap r.descendant? = d.walk := by
    rw [List.filterMap_map, hshift, walk_eq_preorder, preorder_eq_filterMap_paths]
  have hlength : (before.filterMap r.descendant?).length = before.length := by
    rw [List.length_filterMap_eq_countP, List.countP_eq_length]
    intro p hp
    refine mem_paths_iff.1 ?_
    rw [hpaths, List.append_assoc]
    exact List.mem_append_left _ hp
  refine ⟨before.filterMap r.descendant?, after.filterMap r.descendant?, ?_, ?_⟩
  · rw [walk_eq_preorder, preorder_eq_filterMap_paths, hpaths, List.filterMap_append,
      List.filterMap_append, hbelow]
  · rw [hlength, hpaths, paths_eq d]
    simp

theorem walk_eq (r : Record) : r.walk = r :: r.childNodes.flatMap walk := by
  have hwalk : walk = preorder := funext walk_eq_preorder
  rw [hwalk]
  exact r.preorder_eq

/-- The loop of the walk ends, and what it has yielded after some turns is as much of the walk. The
walk is the sequence of the nodes at all paths that lead to one, each path once and in
lexicographic order, where what is above comes before what is below. So it is the top followed by
the walks of its children from left to right, and the walk of anything in the tree is a block of the
whole one that begins at its place. -/
theorem walk_in_document_order (r : Record) :
    Sweep.Turns ⟨[], [r]⟩ r.walk.length ⟨r.walk, []⟩ ∧
    (∀ n s, Sweep.Turns ⟨[], [r]⟩ n s → s.yielded = r.walk.take n) ∧
    (∀ path, path ∈ r.paths ↔ (r.descendant? path).isSome) ∧
    r.paths.Pairwise (List.Lex (· < ·)) ∧
    r.paths.map r.descendant? = r.walk.map some ∧
    r.walk = r :: r.childNodes.flatMap walk ∧
    ∀ path d, r.descendant? path = some d → ∃ before after,
      r.walk = before ++ d.walk ++ after ∧ d.walk.head? = some d ∧
        r.paths[before.length]? = some path := by
  refine ⟨Sweep.exists_turns [] [r], fun n s hs => ?_, fun path => mem_paths_iff, r.pairwise_paths,
    r.map_descendant?_paths, r.walk_eq, fun path d hd => ?_⟩
  · obtain ⟨houtcome, hlength⟩ := hs.outcome_eq
    have hwalk : s.yielded ++ walkFrom s.stack.reverse = r.walk := houtcome
    have hn : s.yielded.length = n := hlength.trans (Nat.zero_add n)
    rw [← hwalk, ← hn, List.take_left]
  · obtain ⟨before, after, hwalk, hpath⟩ := exists_walk_block hd
    exact ⟨before, after, hwalk, by rw [walk_eq, List.head?_cons], hpath⟩

def sharedLeaf : Record :=
  ⟨0, .hastText, [(.kind, .str "text"), (.value, .str "x")]⟩

def sharedHolder : Record :=
  ⟨1, .element, [(.kind, .str "element"), (.children, .list [.record sharedLeaf])]⟩

def sharingRoot : Record :=
  ⟨2, .hastRoot, [(.kind, .str "root"),
    (.children, .tuple [.record sharedHolder, .record sharedLeaf])]⟩

/-- The text is yielded once for each of its places. -/
theorem walk_in_document_order_sharingRoot :
    Sweep.Turns ⟨[], [sharingRoot]⟩ 4
      ⟨[sharingRoot, sharedHolder, sharedLeaf, sharedLeaf], []⟩ ∧
    sharingRoot.paths = [[], [0], [0, 0], [1]] ∧
    sharingRoot.descendant? [0] = some sharedHolder ∧
    ∃ before after, sharingRoot.walk = before ++ [sharedHolder, sharedLeaf] ++ after ∧
      sharingRoot.paths[before.length]? = some [0] := by
  have hwalk : sharingRoot.walk = [sharingRoot, sharedHolder, sharedLeaf, sharedLeaf] := by
    rw [walk_eq_preorder]
    rfl
  have hblock : sharedHolder.walk = [sharedHolder, sharedLeaf] := by
    rw [walk_eq_preorder]
    rfl
  obtain ⟨hturns, -, -, -, -, -, hblocks⟩ := sharingRoot.walk_in_document_order
  obtain ⟨before, after, hsplit, -, hpath⟩ := hblocks [0] sharedHolder rfl
  rw [hwalk] at hturns
  rw [hblock] at hsplit
  exact ⟨hturns, rfl, rfl, before, after, hsplit, hpath⟩

end Record

end DocTree
