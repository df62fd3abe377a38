/-!
Blank characters: those with the Unicode property White_Space, and the four information
separators. The words of a text are what stands between its blanks.
-/
namespace DocTree.Text

def isBlank (c : Char) : Bool :=
  let n := c.toNat
  9 ≤ n && n ≤ 13 || 28 ≤ n && n ≤ 32 || n = 0x85 || n = 0xA0 || n = 0x1680 ||
    0x2000 ≤ n && n ≤ 0x200A || n = 0x2028 || n = 0x2029 || n = 0x202F || n = 0x205F || n = 0x3000

def isBlankText (s : String) : Bool :=
  s.toList.all isBlank

def words : List Char → List (List Char)
  | [] => []
  | c :: s =>
    if isBlank c then words s
    else
      match s with
      | [] => [[c]]
      | d :: _ =>
        if isBlank d then [c] :: words s
        else
          match words s with
          | w :: ws => (c :: w) :: ws
          | [] => [[c]]

end DocTree.Text
