import DocTree.Build

/-!
Results of checks and of builds taken apart: a sequence of steps succeeds when each of its steps
does, one after the other.
-/
namespace DocTree

variable {α β : Type}

theorem check_bind_eq_ok_iff {x : Except Violation α} {f : α → Except Violation β} {b : β} :
    (x >>= f) = .ok b ↔ ∃ a, x = .ok a ∧ f a = .ok b := by
  cases x <;> simp [bind, Except.bind]

theorem check_map_eq_ok_iff {x : Except Violation α} {f : α → β} {b : β} :
    x.map f = .ok b ↔ ∃ a, x = .ok a ∧ f a = b := by
  cases x <;> simp [Except.map]

theorem check_map_eq_error_iff {x : Except Violation α} {f : α → β} {w : Violation} :
    x.map f = .error w ↔ x = .error w := by
  cases x <;> simp [Except.map]

namespace Build

theorem bind_eq_ok_iff {x : Build α} {f : α → Build β} {b : β} {next next' : Ident} :
    (x >>= f) next = .ok (b, next') ↔
      ∃ a mid, x next = .ok (a, mid) ∧ f a mid = .ok (b, next') := by
  change (x next >>= fun p => f p.1 p.2) = _ ↔ _
  cases x next with
  | error v => simp [bind, Except.bind]
  | ok p =>
    simp only [bind, Except.bind, Except.ok.injEq]
    exact ⟨fun h => ⟨p.1, p.2, rfl, h⟩, fun ⟨a, mid, hp, h⟩ => by rwa [hp]⟩

@[simp] theorem pure_eq_ok_iff {a b : α} {next next' : Ident} :
    (pure a : Build α) next = .ok (b, next') ↔ a = b ∧ next = next' := by
  change Except.ok (a, next) = _ ↔ _
  simp

@[simp] theorem throw_ne_ok {w : Violation} {a : α} {next next' : Ident} :
    (throw w : Build α) next ≠ .ok (a, next') := by
  change Except.error w ≠ _
  simp

theorem bind_eq_error_iff {x : Build α} {f : α → Build β} {w : Violation} {next : Ident} :
    (x >>= f) next = .error w ↔
      x next = .error w ∨ ∃ a mid, x next = .ok (a, mid) ∧ f a mid = .error w := by
  change (x next >>= fun p => f p.1 p.2) = _ ↔ _
  cases x next with
  | error v => simp [bind, Except.bind]
  | ok p =>
    simp only [bind, Except.bind, Except.ok.injEq, reduceCtorEq, false_or]
    exact ⟨fun h => ⟨p.1, p.2, rfl, h⟩, fun ⟨a, mid, hp, h⟩ => by rwa [hp]⟩

@[simp] theorem pure_ne_error {a : α} {w : Violation} {next : Ident} :
    (pure a : Build α) next ≠ .error w := by
  change Except.ok (a, next) ≠ _
  simp

theorem bind_congr {x : Build α} {f g : α → Build β}
    (h : ∀ next a mid, x next = .ok (a, mid) → f a = g a) : x >>= f = x >>= g := by
  funext next
  change (x next >>= fun p => f p.1 p.2) = (x next >>= fun p => g p.1 p.2)
  cases hx : x next with
  | error v => rfl
  | ok p => exact congrFun (h next p.1 p.2 hx) p.2

end Build

theorem create_eq_ok_iff {form : Form} {v : Value} {r : Record} {next next' : Ident} :
    create form v next = .ok (r, next') ↔ check form next v = .ok r ∧ next' = next + 1 := by
  unfold create
  rw [check_map_eq_ok_iff]
  constructor
  · rintro ⟨a, ha, he⟩
    obtain ⟨rfl, rfl⟩ := Prod.mk.inj he
    exact ⟨ha, rfl⟩
  · rintro ⟨ha, rfl⟩
    exact ⟨r, ha, rfl⟩

end DocTree
