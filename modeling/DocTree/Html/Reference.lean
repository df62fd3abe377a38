import DocTree.Html.Name

/-!
References to characters, which stand behind an ampersand: by number or by name. Text and
attribute values read them differently. In text a reference is complete only when a character
follows that does not go on with it, and a name that is not known stays as it is written; in the
value of an attribute the longest known beginning of a name counts, and a number that stands for
a control or for no character leaves nothing.
-/
namespace DocTree.Html

/-- What the numbers from 128 to 159 refer to, or 0 where they refer to themselves. -/
def legacyNumbers : List Nat :=
  [0x20AC, 0, 0x201A, 0x0192, 0x201E, 0x2026, 0x2020, 0x2021, 0x02C6, 0x2030, 0x0160, 0x2039,
    0x0152, 0, 0x017D, 0, 0, 0x2018, 0x2019, 0x201C, 0x201D, 0x2022, 0x2013, 0x2014, 0x02DC,
    0x2122, 0x0161, 0x203A, 0x0153, 0, 0x017E, 0x0178]

/-- The character that a number refers to; zero and a number beyond all characters refer to the
replacement character. -/
def numbered (n : Nat) : Char :=
  match if 128 ≤ n then legacyNumbers[n - 128]? else none with
  | some (m + 1) => Char.ofNat (m + 1)
  | _ => if n ≠ 0 ∧ n.isValidChar then Char.ofNat n else '\uFFFD'

/-- The controls below 128 other than blanks, and the places without a character. -/
def isIdle (n : Nat) : Bool :=
  1 ≤ n && n ≤ 8 || n = 0xB || 0xE ≤ n && n ≤ 0x1F || n = 0x7F || 0xFDD0 ≤ n && n ≤ 0xFDEF ||
    n ≤ 0x10FFFF && 0xFFFE ≤ n % 0x10000

def number? : List Char → Option (Nat × List Char)
  | '#' :: 'x' :: s | '#' :: 'X' :: s => Text.numeral? 16 s
  | '#' :: s => Text.numeral? 10 s
  | _ => none

def skipSemicolon : List Char → List Char
  | ';' :: s => s
  | s => s

def isNameChar (c : Char) : Bool :=
  c.isAlphanum || c = '-' || c = '.'

/-- The name at the start of a text that goes on behind it. At the end of the text a name may end
before its last hyphen or dot only. -/
def nameIn? (s : List Char) : Option (List Char) :=
  let run := s.takeWhile isNameChar
  if run.length < s.length then some run
  else
    match run.reverse.dropWhile Char.isAlphanum with
    | [] => none
    | _ :: name => some name.reverse

def textReference? (s : List Char) : Option (List Char × List Char) :=
  match s with
  | [] => none
  | c :: _ =>
    if c = '#' then
      match number? s with
      | some (n, d :: rest) =>
        if Text.isDigit 16 d then none else some ([numbered n], skipSemicolon (d :: rest))
      | _ => none
    else if c.isAlpha then
      (nameIn? s).map fun name =>
        ((named? name).getD ('&' :: name), skipSemicolon (s.drop name.length))
    else none

def valueNameEnds : List Char :=
  ['\t', '\n', '\x0c', ' ', '<', '&', '#', ';']

def isValueNameChar (c : Char) : Bool :=
  !valueNameEnds.contains c

/-- The name replaced as far as it is known: all of it, which `ended` says to stand before a
semicolon, or its longest beginning of two or more characters that is an old name. -/
def replaceName (name : List Char) (ended : Bool) : Option (List Char) :=
  match if ended || oldNames.contains name then named? name else none with
  | some text => some text
  | none =>
    ((List.range name.length).reverse.find? fun n =>
        1 < n && oldNames.contains (name.take n)).bind fun n =>
      (named? (name.take n)).map fun text => text ++ name.drop n ++ if ended then [';'] else []

def valueReference? (s : List Char) : Option (List Char × Nat) :=
  match number? s with
  | some (n, rest) =>
    some (if isIdle n then [] else [numbered n], s.length - (skipSemicolon rest).length)
  | none =>
    let name := (s.takeWhile isValueNameChar).take 32
    let ended := (s.drop name.length).head? = some ';'
    if name.isEmpty then none
    else (replaceName name ended).map fun text =>
      (text, name.length + if ended then 1 else 0)

def resolve : List Char → List Char
  | [] => []
  | c :: s =>
    if c = '&' then
      match valueReference? s with
      | some (text, n) => text ++ resolve (s.drop n)
      | none => c :: resolve s
    else c :: resolve s
termination_by s => s.length
decreasing_by
  · rw [List.length_drop, List.length_cons]
    omega
  · simp
  · simp

end DocTree.Html
