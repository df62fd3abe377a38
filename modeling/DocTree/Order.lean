import DocTree.Value.Order

/-!
The order of a position: it may not end before it starts, by line and column first and then by
offset when both places have one. Main statement: `checkPoints_eq_ok_iff`, points with whole
numbers pass if their places are in order.
-/
namespace DocTree

structure Place where
  line : Int
  column : Int
  offset? : Option Int
  deriving DecidableEq, Repr

namespace Place

def ofValue? : Value → Option Place
  | .record r =>
    match r.get? .line, r.get? .column, r.get? .offset with
    | some (.int line), some (.int column), some (.int offset) => some ⟨line, column, some offset⟩
    | some (.int line), some (.int column), some .null => some ⟨line, column, none⟩
    | _, _, _ => none
  | _ => none

def Ordered (start stop : Place) : Prop :=
  (start.line < stop.line ∨ start.line = stop.line ∧ start.column ≤ stop.column) ∧
    ∀ s ∈ start.offset?, ∀ e ∈ stop.offset?, s ≤ e

def offsetValue (p : Place) : Value :=
  match p.offset? with
  | some offset => .int offset
  | none => .null

theorem ofValue?_eq_some {r : Record} {p : Place} (h : ofValue? (.record r) = some p) :
    r.get? .line = some (.int p.line) ∧ r.get? .column = some (.int p.column) ∧
      r.get? .offset = some p.offsetValue := by
  simp only [ofValue?] at h
  split at h
  · obtain rfl := Option.some.inj h
    exact ⟨by assumption, by assumption, by assumption⟩
  · obtain rfl := Option.some.inj h
    exact ⟨by assumption, by assumption, by assumption⟩
  · simp at h

end Place

def Value.spot (v : Value) : Except Violation Spot := do
  let line ← v.attribute .line
  let column ← v.attribute .column
  return (line, column)

/-- Accepts two points unless the first has the greater offset; a point may go without. -/
def checkOffsets (start stop : Value) : Except Violation Unit := do
  let first ← start.attribute .offset
  if first.isNull then return
  else
    let last ← stop.attribute .offset
    if last.isNull then return
    else if ← first.exceeds last then throw (.offsetOrder first last)

/-- Accepts the points of a position unless the first is the later one. -/
def checkPoints (start stop : Value) : Except Violation Unit := do
  let first ← start.spot
  let last ← stop.spot
  if ← (Value.tuple [first.1, first.2]).exceeds (.tuple [last.1, last.2]) then
    throw (.placeOrder first last)
  else checkOffsets start stop

def checkOrder (position : Value) : Except Violation Unit := do
  let start ← position.attribute .start
  let stop ← position.attribute .stop
  checkPoints start stop

theorem spot_of_ofValue? {v : Value} {p : Place} (h : Place.ofValue? v = some p) :
    v.spot = .ok (.int p.line, .int p.column) := by
  cases v with
  | record r =>
    obtain ⟨hline, hcolumn, -⟩ := Place.ofValue?_eq_some h
    simp only [Value.spot, Value.attribute_of_get? hline, Value.attribute_of_get? hcolumn]
    rfl
  | _ => cases h

theorem checkOffsets_of_ofValue? {start stop : Value} {p q : Place}
    (hp : Place.ofValue? start = some p) (hq : Place.ofValue? stop = some q) :
    checkOffsets start stop =
      match p.offset?, q.offset? with
      | some s, some e => if e < s then .error (.offsetOrder (.int s) (.int e)) else .ok ()
      | _, _ => .ok () := by
  cases start <;> cases stop <;> try first | cases hp | cases hq
  rename_i r r'
  obtain ⟨-, -, hfirst⟩ := Place.ofValue?_eq_some hp
  obtain ⟨-, -, hlast⟩ := Place.ofValue?_eq_some hq
  simp only [checkOffsets, Value.attribute_of_get? hfirst, Value.attribute_of_get? hlast,
    Place.offsetValue]
  rcases p with ⟨_, _, _ | s⟩
  · rfl
  · rcases q with ⟨_, _, _ | e⟩
    · rfl
    · simp only [bind, Except.bind, Value.isNull, Value.exceeds_int]
      by_cases h : e < s <;> simp [h] <;> rfl

theorem checkPoints_of_ofValue? {start stop : Value} {p q : Place}
    (hp : Place.ofValue? start = some p) (hq : Place.ofValue? stop = some q) :
    checkPoints start stop =
      if q.line < p.line ∨ q.line = p.line ∧ q.column < p.column then
        .error (.placeOrder (.int p.line, .int p.column) (.int q.line, .int q.column))
      else checkOffsets start stop := by
  simp only [checkPoints, spot_of_ofValue? hp, spot_of_ofValue? hq, bind, Except.bind,
    Value.exceeds_tuple_int, decide_eq_true_eq]
  rfl

theorem checkPoints_eq_ok_iff {start stop : Value} {p q : Place}
    (hp : Place.ofValue? start = some p) (hq : Place.ofValue? stop = some q) :
    checkPoints start stop = .ok () ↔ p.Ordered q := by
  rw [checkPoints_of_ofValue? hp hq, checkOffsets_of_ofValue? hp hq]
  obtain ⟨l, c, o⟩ := p
  obtain ⟨l', c', o'⟩ := q
  simp only [Place.Ordered]
  split
  · simp only [reduceCtorEq, false_iff]
    rintro ⟨h, -⟩
    omega
  · have hle : l < l' ∨ l = l' ∧ c ≤ c' := by omega
    cases o <;> cases o' <;> simp [hle]

end DocTree
