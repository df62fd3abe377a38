/-!
Digits and numerals in bases up to sixteen, as the reader of written markup takes them.
-/
namespace DocTree.Html.Text

def digit? (c : Char) : Option Nat :=
  if c.isDigit then some (c.toNat - '0'.toNat)
  else if 'a' ≤ c.toLower ∧ c.toLower ≤ 'f' then some (c.toLower.toNat - 'a'.toNat + 10)
  else none

def isDigit (base : Nat) (c : Char) : Bool :=
  (digit? c).any (· < base)

def ofDigits (base : Nat) (s : List Char) : Nat :=
  s.foldl (fun n c => base * n + (digit? c).getD 0) 0

/-- The number that a text starts with and what stands behind its last digit. -/
def numeral? (base : Nat) (s : List Char) : Option (Nat × List Char) :=
  let digits := s.takeWhile (isDigit base)
  if digits.isEmpty then none else some (ofDigits base digits, s.dropWhile (isDigit base))

end DocTree.Html.Text
