import DocTree.Value.Equal
import DocTree.Violation

/-!
The order of values. Numbers and truth values are compared by number, without rounding; texts by
character, sequences by their first members that differ, and sets by inclusion. A comparison of
other values, or of different kinds of these, breaks off; a not-a-number is not ordered, but can be
compared. Main statement: `exceeds_tuple_int`, pairs of integers are ordered by the first and then
by the second.
-/
namespace DocTree

/-- A number to compare; a finite one is `digits * 10 ^ exponent`. -/
inductive Quantity
  | finite (digits exponent : Int)
  | infinite (negative : Bool)
  | nan

/-- A number without a fraction is taken exactly. The others lie between the same integers as the
decimals by which they are held. -/
def Binary64.quantity (x : Binary64) : Quantity :=
  match x.toInt?, x with
  | some n, _ => .finite n 0
  | none, finite negative digits exponent =>
    .finite (if negative then -(digits : Int) else digits) exponent
  | none, infinite negative => .infinite negative
  | none, nan _ => .nan

def Quantity.exceeds : Quantity → Quantity → Bool
  | finite m e, finite n f => n * Int.pow 10 (f - min e f).toNat < m * Int.pow 10 (e - min e f).toNat
  | finite _ _, infinite negative => negative
  | infinite negative, finite _ _ => !negative
  | infinite negative, infinite negative' => !negative && negative'
  | _, _ => false

@[simp] theorem Quantity.exceeds_integer (m n : Int) :
    (finite m 0).exceeds (finite n 0) = decide (n < m) := by
  have hone : Int.pow 10 0 = 1 := rfl
  change decide (n * Int.pow 10 0 < m * Int.pow 10 0) = _
  rw [hone, Int.mul_one, Int.mul_one]

namespace Value

def quantity? : Value → Option Quantity
  | bool b => some (.finite (if b then 1 else 0) 0)
  | int n => some (.finite n 0)
  | float x => some x.quantity
  | _ => none

mutual

def exceeds : Value → Value → Except Violation Bool
  | str s, str t => .ok (t < s)
  | bytes bs, bytes cs => .ok (cs < bs)
  | list xs, list ys | tuple xs, tuple ys => itemsExceed xs ys
  | set xs, set ys => .ok (ys.length < xs.length && membersAmong ys xs)
  | v, w =>
    match v.quantity?, w.quantity? with
    | some q, some r => .ok (q.exceeds r)
    | _, _ => .error (.breakdown (.notOrdered ">" v w))

/-- Of two sequences that agree as far as one of them goes, the longer one is the greater. -/
def itemsExceed : List Value → List Value → Except Violation Bool
  | [], _ => .ok false
  | _ :: _, [] => .ok true
  | x :: xs, y :: ys => if x.equals y then itemsExceed xs ys else x.exceeds y

end

@[simp] theorem exceeds_int (m n : Int) : (int m).exceeds (int n) = .ok (decide (n < m)) := by
  simp [exceeds, quantity?]

theorem exceeds_tuple (xs ys : List Value) :
    (tuple xs).exceeds (tuple ys) = itemsExceed xs ys := rfl

theorem itemsExceed_cons (x y : Value) (xs ys : List Value) :
    itemsExceed (x :: xs) (y :: ys) = if x.equals y then itemsExceed xs ys else x.exceeds y := rfl

@[simp] theorem itemsExceed_nil (ys : List Value) : itemsExceed [] ys = .ok false := rfl

theorem exceeds_tuple_int (a b c d : Int) :
    (tuple [int a, int b]).exceeds (tuple [int c, int d]) =
      .ok (decide (c < a ∨ c = a ∧ d < b)) := by
  simp only [exceeds_tuple, itemsExceed_cons, itemsExceed_nil, exceeds_int, equals, isInteger,
    decide_eq_true_eq]
  by_cases h : a = c
  · subst h
    by_cases k : b = d <;> simp [k]
  · simp [h, Ne.symm h]

end Value

end DocTree
