import DocTree.Tree.Walk

/-!
Ancestors and descendants. Main statement: `mem_preorder_iff`, the nodes of a tree in document
order are its top and what stands below it.
-/
namespace DocTree.Record

/-- `a.Above d` when `d` stands somewhere below `a`. -/
inductive Above : Record → Record → Prop
  | child {a d : Record} : d ∈ a.childNodes → Above a d
  | deeper {a c d : Record} : c ∈ a.childNodes → Above c d → Above a d

theorem Above.trans {a b c : Record} (hab : a.Above b) (hbc : b.Above c) : a.Above c := by
  induction hab with
  | child h => exact .deeper h hbc
  | deeper h _ ih => exact .deeper h (ih hbc)

theorem count_lt_of_mem_childNodes {a c : Record} (h : c ∈ a.childNodes) : c.count < a.count := by
  have hle : c.count ≤ (a.childNodes.flatMap preorder).length := by
    rw [List.flatMap_def]
    exact (List.sublist_flatten_of_mem (List.mem_map_of_mem h)).length_le
  rw [count_eq a]
  exact Nat.lt_succ_of_le hle

theorem mem_preorder_of_above {a d : Record} (h : a.Above d) : d ∈ a.preorder := by
  induction h with
  | @child a d h =>
    rw [preorder_eq a]
    exact List.mem_cons_of_mem _ (List.mem_flatMap.2 ⟨d, h, by rw [preorder_eq d]; simp⟩)
  | @deeper a c d h _ ih =>
    rw [preorder_eq a]
    exact List.mem_cons_of_mem _ (List.mem_flatMap.2 ⟨c, h, ih⟩)

theorem mem_preorder_iff {a d : Record} : d ∈ a.preorder ↔ d = a ∨ a.Above d := by
  refine ⟨fun h => ?_, fun h => ?_⟩
  · rw [preorder_eq a] at h
    rcases List.mem_cons.1 h with h | h
    · exact .inl h
    · obtain ⟨c, hc, hd⟩ := List.mem_flatMap.1 h
      have := count_lt_of_mem_childNodes hc
      rcases mem_preorder_iff.1 hd with rfl | hd
      · exact .inr (.child hc)
      · exact .inr (.deeper hc hd)
  · rcases h with rfl | h
    · rw [preorder_eq d]; simp
    · exact mem_preorder_of_above h
termination_by a.count

end DocTree.Record
