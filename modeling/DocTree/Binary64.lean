/-!
Binary floating-point numbers of 64 bits, held by the shortest decimal that reads back as the
number. `text` lays the digits out and `read?` reads such a text.
-/
namespace DocTree

/-- A finite number is `digits * 10 ^ exponent`, where `digits` has no trailing zero and zero is
`0 * 10 ^ 0`. Each not-a-number carries a tag by which it is told from the others. -/
inductive Binary64
  | finite (negative : Bool) (digits : Nat) (exponent : Int)
  | infinite (negative : Bool)
  | nan (tag : Nat)
  deriving DecidableEq, Repr

namespace Binary64

/-- Magnitudes from `10 ^ -4` up to `10 ^ 16` are written positionally, always with a digit after
the point; the others with an exponent of a sign and at least two digits. -/
def magnitude (digits : Nat) (exponent : Int) : List Char :=
  let ds := Nat.toDigits 10 digits
  let point := ds.length + exponent
  let zeros (n : Int) := List.replicate n.toNat '0'
  if -4 < point ∧ point ≤ 16 then
    if point ≤ 0 then '0' :: '.' :: zeros (-point) ++ ds
    else if 0 ≤ exponent then ds ++ zeros exponent ++ ['.', '0']
    else ds.take point.toNat ++ '.' :: ds.drop point.toNat
  else
    let power := Nat.toDigits 10 (point - 1).natAbs
    ds.take 1 ++ (if 1 < ds.length then '.' :: ds.drop 1 else []) ++
      'e' :: (if point - 1 < 0 then '-' else '+') :: zeros (2 - power.length) ++ power

def signed (negative : Bool) (s : List Char) : String :=
  String.ofList (if negative then '-' :: s else s)

def text : Binary64 → String
  | finite negative digits exponent => signed negative (magnitude digits exponent)
  | infinite negative => signed negative ['i', 'n', 'f']
  | nan _ => "nan"

/-- The number a run of digits stands for, followed by what comes after the run. -/
def readDigits (acc : Nat) : List Char → Nat × List Char
  | c :: rest =>
    if c.isDigit then readDigits (10 * acc + (c.toNat - '0'.toNat)) rest else (acc, c :: rest)
  | [] => (acc, [])

def readExponent? : List Char → Option Int
  | [] => some 0
  | 'e' :: '-' :: rest => some (-(readDigits 0 rest).1)
  | 'e' :: '+' :: rest => some (readDigits 0 rest).1
  | 'e' :: rest => some (readDigits 0 rest).1
  | _ => none

/-- Moves the trailing zeros of the digits into the exponent; `fuel` bounds their number. -/
def normal (negative : Bool) (exponent : Int) : (fuel : Nat) → (digits : Nat) → Binary64
  | 0, digits => finite negative digits exponent
  | fuel + 1, digits =>
    if digits = 0 then finite negative 0 0
    else if digits % 10 = 0 then normal negative (exponent + 1) fuel (digits / 10)
    else finite negative digits exponent

def readMagnitude? (negative : Bool) (s : List Char) : Option Binary64 :=
  let whole := readDigits 0 s
  match whole.2 with
  | '.' :: rest =>
    let all := readDigits whole.1 rest
    (readExponent? all.2).map fun e =>
      normal negative (e - (rest.length - all.2.length)) s.length all.1
  | rest => (readExponent? rest).map fun e => normal negative e s.length whole.1

/-- Reads a written number; a not-a-number gets the given tag. -/
def read? (tag : Nat) (s : String) : Option Binary64 :=
  match s.toList with
  | ['n', 'a', 'n'] => some (nan tag)
  | ['i', 'n', 'f'] => some (infinite false)
  | ['-', 'i', 'n', 'f'] => some (infinite true)
  | '-' :: rest => readMagnitude? true rest
  | rest => readMagnitude? false rest

/-- The nearest natural number with at most 53 significant bits, a tie going to the even one. -/
def roundTo53 (n : Nat) : Nat :=
  let unit := Nat.pow 2 (n.log2 + 1 - 53)
  let low := n / unit * unit
  if 2 * (n % unit) < unit ∨ 2 * (n % unit) = unit ∧ n / unit % 2 = 0 then low else low + unit

/-- The integer that the number is, if it is one. -/
def toInt? : Binary64 → Option Int
  | finite negative digits exponent =>
    if exponent < 0 then none
    else
      let n := roundTo53 (digits * Nat.pow 10 exponent.toNat)
      some (if negative then -(n : Int) else n)
  | _ => none

/-- Numbers are equal by value, so the two zeros agree; a not-a-number equals only itself. -/
def equals : Binary64 → Binary64 → Bool
  | finite s d e, finite s' d' e' => d = 0 && d' = 0 || s = s' && d = d' && e = e'
  | infinite s, infinite s' => s = s'
  | nan t, nan t' => t = t'
  | _, _ => false

@[simp] theorem equals_refl (x : Binary64) : x.equals x := by
  cases x <;> simp [equals]

def isZero : Binary64 → Bool
  | finite _ digits _ => digits = 0
  | _ => false

def isNegative : Binary64 → Bool
  | finite negative digits _ => negative && digits ≠ 0
  | infinite negative => negative
  | nan _ => false

end Binary64

end DocTree
