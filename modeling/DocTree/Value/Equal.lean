import DocTree.Value

/-!
Equality of values by content. Numbers and truth values are compared by number, the order of
mapping entries and set members does not count, and two records are equal when form and fields
are. Streams are read once and compared by identity, as `isSame` does with records too.
-/
namespace DocTree

mutual

def Value.equals : Value → Value → Bool
  | .null, .null => true
  | .bool b, w => w.isInteger (if b then 1 else 0)
  | .int n, w => w.isInteger n
  | .float x, .float y => x.equals y
  | .float x, w => x.toInt?.any w.isInteger
  | .str s, .str t => s = t
  | .bytes bs, .bytes cs => bs = cs
  | .list xs, .list ys => equalItems xs ys
  | .tuple xs, .tuple ys => equalItems xs ys
  | .set xs, .set ys => xs.length = ys.length && membersAmong xs ys
  | .stream i _, .stream j _ => i = j
  | .map es, .map fs => es.length = fs.length && entriesAmong es fs
  | .record r, .record s => r.equals s
  | _, _ => false

def Record.equals : Record → Record → Bool
  | ⟨_, form, fields⟩, s => form = s.form && equalFields fields s.fields

def equalItems : List Value → List Value → Bool
  | [], [] => true
  | x :: xs, y :: ys => x.equals y && equalItems xs ys
  | _, _ => false

def membersAmong : List Value → List Value → Bool
  | [], _ => true
  | x :: xs, ys => ys.any (fun y => x.equals y) && membersAmong xs ys

def entriesAmong : List (Value × Value) → List (Value × Value) → Bool
  | [], _ => true
  | (k, x) :: es, fs =>
    fs.any (fun f => k.equals f.1 && x.equals f.2) && entriesAmong es fs

def equalFields : List (Field × Value) → List (Field × Value) → Bool
  | [], [] => true
  | (f, x) :: fs, (g, y) :: gs => f = g && x.equals y && equalFields fs gs
  | _, _ => false

end

/-- Whether two values are one and the same. Records and streams have an identity; null, the truth
values, small integers, texts and bytes of at most one character and the empty tuple exist once. -/
def Value.isSame : Value → Value → Bool
  | .record r, .record s => r.id = s.id
  | .stream i _, .stream j _ => i = j
  | .null, .null => true
  | .bool a, .bool b => a = b
  | .int m, .int n => m = n && -5 ≤ m && m ≤ 256
  | .str s, .str t => s = t && s.length ≤ 1 && s.toList.all (·.toNat < 256)
  | .bytes bs, .bytes cs => bs = cs && bs.length ≤ 1
  | .tuple [], .tuple [] => true
  | _, _ => false

@[simp] theorem Value.equals_str (v : Value) (s : String) : v.equals (.str s) = v.isText s := by
  cases v with
  | float x => cases h : x.toInt? <;> simp [Value.equals, h, Value.isInteger, Value.isText]
  | _ => simp [Value.equals, Value.isInteger, Value.isText]

namespace Entries

def replace (es : Entries) (k v : Value) : Entries :=
  es.map fun e => if e.1.equals k then (e.1, v) else e

/-- Adds an entry to a mapping: an equal key keeps its place and gets the new value. -/
def insert (es : Entries) (k v : Value) : Entries :=
  if es.any (fun e => e.1.equals k) then es.replace k v else es ++ [(k, v)]

theorem get?_replace_same {es : Entries} {key : String} (v : Value)
    (h : es.any fun e => e.1.isText key) : (es.replace (.str key) v).get? key = some v := by
  induction es with
  | nil => simp at h
  | cons e es ih =>
    rw [replace, List.map_cons, get?_cons]
    by_cases he : e.1.isText key
    · simp [he]
    · simpa [he, replace] using ih (by simpa [he] using h)

theorem get?_replace_other (es : Entries) {key other : String} (v : Value) (h : key ≠ other) :
    (es.replace (.str key) v).get? other = es.get? other := by
  induction es with
  | nil => rfl
  | cons e es ih =>
    rw [replace, List.map_cons, get?_cons, get?_cons, ← ih]
    by_cases he : e.1.isText key
    · simp [Value.isText_iff.1 he, h, replace]
    · simp [he, replace]

theorem get?_append (es fs : Entries) (key : String) :
    get? (es ++ fs) key = (es.get? key).or (fs.get? key) := by
  simp only [get?, List.find?_append]
  cases es.find? (fun e => e.1.isText key) <;> rfl

theorem get?_eq_none_of_not_any {es : Entries} {key : String}
    (h : ¬ es.any fun e => e.1.isText key) : es.get? key = none := by
  simpa [get?] using h

theorem get?_insert (es : Entries) (key other : String) (v : Value) :
    (es.insert (.str key) v).get? other = if key = other then some v else es.get? other := by
  simp only [insert, Value.equals_str]
  by_cases h : es.any fun e => e.1.isText key
  · by_cases ho : key = other
    · simp [h, ← ho, get?_replace_same v h]
    · simp [h, ho, get?_replace_other es v ho]
  · rw [if_neg h, get?_append, get?_cons]
    by_cases ho : key = other
    · simp [← ho, get?_eq_none_of_not_any h]
    · simp [ho]

end Entries

def Entries.ofList (es : List (Value × Value)) : Entries :=
  es.foldl (fun acc e => acc.insert e.1 e.2) []

end DocTree
