import DocTree.Markup.Convert

/-!
Trees without their blank texts: a hast text whose value is blank is removed wherever it stands
below the top, and nothing else is.
-/
namespace DocTree

/-- A hast text of nothing but blanks. -/
def Record.isBlankText (r : Record) : Bool :=
  r.form = .hastText && (r.get .value).text?.any Text.isBlankText

mutual

def Record.withoutBlankTexts : Record → Record
  | ⟨id, form, fields⟩ => ⟨id, form, fieldsWithoutBlankTexts fields⟩

def fieldsWithoutBlankTexts : List (Field × Value) → List (Field × Value)
  | [] => []
  | (.children, .tuple xs) :: rest =>
    (.children, .tuple (itemsWithoutBlankTexts xs)) :: fieldsWithoutBlankTexts rest
  | p :: rest => p :: fieldsWithoutBlankTexts rest

def itemsWithoutBlankTexts : List Value → List Value
  | [] => []
  | .record r :: rest =>
    (if r.isBlankText then [] else [.record r.withoutBlankTexts]) ++ itemsWithoutBlankTexts rest
  | v :: rest => v :: itemsWithoutBlankTexts rest

end

theorem itemsWithoutBlankTexts_append (xs ys : List Value) :
    itemsWithoutBlankTexts (xs ++ ys) = itemsWithoutBlankTexts xs ++ itemsWithoutBlankTexts ys := by
  induction xs with
  | nil => rfl
  | cons x xs ih => cases x <;> simp [itemsWithoutBlankTexts, ih]

end DocTree
