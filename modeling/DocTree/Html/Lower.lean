import DocTree.Html.LetterCase

/-!
Texts in lower case. A sigma at the end of a word has a form of its own, and one letter becomes
two characters.
-/
namespace DocTree.Html.Text

def lowerLetter (c : Char) : List Char :=
  if c = 'İ' then ['i', '\u0307']
  else
    match lowerRuns.find? fun (low, high, step, _) =>
        low ≤ c.toNat && c.toNat ≤ high && (c.toNat - low) % step = 0 with
    | some (_, _, _, shift) => [Char.ofNat (c.toNat + shift).toNat]
    | none => [c]

def goesOn (s : List Char) : Bool :=
  match s.dropWhile isPassedOver with
  | c :: _ => isCased c
  | [] => false

/-- `inWord` says whether the last character that was not passed over is a letter with case. -/
def lowerFrom (inWord : Bool) : List Char → List Char
  | [] => []
  | c :: s =>
    if c.toNat < 0x80 then
      c.toLower :: lowerFrom (if isPassedOver c then inWord else isCased c) s
    else if c = 'Σ' then
      (if inWord && !goesOn s then 'ς' else 'σ') :: lowerFrom true s
    else lowerLetter c ++ lowerFrom (if isPassedOver c then inWord else isCased c) s

def lower (s : List Char) : List Char :=
  lowerFrom false s

end DocTree.Html.Text
