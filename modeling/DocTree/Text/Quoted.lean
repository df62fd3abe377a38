/-!
Quoted text, as messages show it: quotes around, and escapes for what cannot be seen.
-/
namespace DocTree.Text

/-- The controls, format characters, separators other than the space, private-use characters and
places without a character, as ranges of code points in increasing order. -/
def hiddenRanges : List (Nat × Nat) :=
  [(0x0, 0x1F), (0x7F, 0xA0), (0xAD, 0xAD), (0x600, 0x605), (0x61C, 0x61C), (0x6DD, 0x6DD),
    (0x70F, 0x70F), (0x890, 0x891), (0x8E2, 0x8E2), (0x1680, 0x1680), (0x180E, 0x180E),
    (0x2000, 0x200F), (0x2028, 0x202F), (0x205F, 0x206F), (0x3000, 0x3000), (0xE000, 0xF8FF),
    (0xFDD0, 0xFDEF), (0xFEFF, 0xFEFF), (0xFFF9, 0xFFFB), (0xFFFE, 0xFFFF), (0x110BD, 0x110BD),
    (0x110CD, 0x110CD), (0x13430, 0x1343F), (0x1BCA0, 0x1BCA3), (0x1D173, 0x1D17A),
    (0x1FFFE, 0x1FFFF), (0x2FFFE, 0x2FFFF), (0x3FFFE, 0xE00FF), (0xE01F0, 0x10FFFF)]

def isHidden (c : Char) : Bool :=
  hiddenRanges.any fun (low, high) => low ≤ c.toNat && c.toNat ≤ high

def hex (width n : Nat) : List Char :=
  let ds := Nat.toDigits 16 n
  List.replicate (width - ds.length) '0' ++ ds

def escapeKnown? (quote c : Char) : Option (List Char) :=
  if c = quote ∨ c = '\\' then some ['\\', c]
  else if c = '\n' then some ['\\', 'n']
  else if c = '\r' then some ['\\', 'r']
  else if c = '\t' then some ['\\', 't']
  else none

def escape (quote c : Char) : List Char :=
  match escapeKnown? quote c with
  | some s => s
  | none =>
    if isHidden c then
      if c.toNat < 0x100 then '\\' :: 'x' :: hex 2 c.toNat
      else if c.toNat < 0x10000 then '\\' :: 'u' :: hex 4 c.toNat
      else '\\' :: 'U' :: hex 8 c.toNat
    else [c]

def escapeByte (quote : Char) (b : UInt8) : List Char :=
  let c := Char.ofNat b.toNat
  match escapeKnown? quote c with
  | some s => s
  | none => if 0x20 ≤ b ∧ b < 0x7F then [c] else '\\' :: 'x' :: hex 2 b.toNat

/-- Single quotes around, unless the text has some and no double ones. -/
def quoteFor (s : List Char) : Char :=
  if '\x27' ∈ s ∧ '\x22' ∉ s then '\x22' else '\x27'

def quoted (s : String) : String :=
  let q := quoteFor s.toList
  String.ofList (q :: s.toList.flatMap (escape q) ++ [q])

def quotedBytes (bs : List UInt8) : String :=
  let q := quoteFor (bs.map fun b => Char.ofNat b.toNat)
  String.ofList ('b' :: q :: bs.flatMap (escapeByte q) ++ [q])

end DocTree.Text
