import DocTree.Markup.Item
import DocTree.Html.Tag

/-!
The tokens of written markup: pieces of text, tags, and the strings between markers. What is cut
off by the end of the text, because its end mark is missing, is text itself.
-/
namespace DocTree.Html

open Markup

inductive Token
  | text (s : List Char)
  | string (cls : StringClass) (s : List Char)
  | opening (name : String) (attributes : List (String × List Char)) (closed : Bool)
  | closing (name : String)

namespace Token

def afterAnyCase? : List Char → List Char → Option (List Char)
  | [], s => some s
  | _ :: _, [] => none
  | w :: word, c :: s => if w = c.toLower then afterAnyCase? word s else none

/-- The text up to the first place where a mark stands and the text behind the mark; `mark?` gives
what follows the mark at the start of a text. -/
def upTo? (mark? : List Char → Option (List Char)) : List Char → Option (List Char × List Char)
  | [] => none
  | c :: s =>
    match mark? (c :: s) with
    | some rest => some ([], rest)
    | none => (upTo? mark? s).map fun (content, rest) => (c :: content, rest)

def angle? : List Char → Option (List Char)
  | '>' :: s => some s
  | _ => none

def commentEnd? : List Char → Option (List Char)
  | '-' :: '-' :: s => tagEnd? s
  | _ => none

def bracket? : List Char → Option (List Char)
  | ']' :: s => some s
  | _ => none

/-- One bracket and the mark behind it end a conditional section. -/
def conditionEnd? (s : List Char) : Option (List Char) :=
  (bracket? s).bind tagEnd?

/-- Two brackets and the mark behind them end any other section. -/
def sectionEnd? (s : List Char) : Option (List Char) :=
  (bracket? s).bind fun s => conditionEnd? (s.dropWhile Text.isBlank)

def rawEnd? (name : List Char) : List Char → Option (List Char)
  | '<' :: '/' :: s => (afterAnyCase? name (s.dropWhile Text.isBlank)).bind tagEnd?
  | _ => none

def stringUpTo? (cls : StringClass) (mark? : List Char → Option (List Char)) (s : List Char) :
    Option (List Token × List Char) :=
  (upTo? mark? s).map fun (content, rest) => ([.string cls content], rest)

def isSectionNameChar (c : Char) : Bool :=
  c.isAlphanum || c = '-' || c = '_' || c = '.'

def endOfSection (name : String) : List Char → Option (List Char) :=
  if ["temp", "cdata", "ignore", "include", "rcdata"].contains name then sectionEnd?
  else if ["if", "else", "endif"].contains name then conditionEnd?
  else angle?

def section? (s : List Char) : Option (List Token × List Char) :=
  (upTo? (endOfSection (lower (s.takeWhile isSectionNameChar))) s).map fun (content, rest) =>
    match afterAnyCase? ['c', 'd', 'a', 't', 'a', '['] content with
    | some content => ([.string .cdata content], rest)
    | none => ([.string .declaration content], rest)

/-- An end tag may hold more than its name, but only the name counts; one without anything in it is
left out, and one that starts with no letter is a comment. -/
def endTag? (s : List Char) : Option (List Token × List Char) :=
  match plainEndTag? s with
  | some (name, rest) => some ([.closing name], rest)
  | none =>
    match s with
    | '>' :: rest => some ([], rest)
    | c :: _ =>
      if c.isAlpha then
        (upTo? angle? (s.dropWhile isTagNameChar)).map fun (_, rest) =>
          ([.closing (lower (s.takeWhile isTagNameChar))], rest)
      else stringUpTo? .comment angle? s
    | [] => none

def isRaw (name : String) : Bool :=
  name = "script" || name = "style"

/-- A start tag, and the content and the end tag of its element if that is raw text. Raw text
without an end tag is left out. -/
def opened? (s : List Char) : Option (List Token × List Char) :=
  (startTag? s).map fun (name, attributes, ending, rest) =>
    match ending with
    | .broken => ([.text ('<' :: s.take (s.length - rest.length))], rest)
    | .closing => ([.opening name attributes true], rest)
    | .plain =>
      if isRaw name then
        match upTo? (rawEnd? name.toList) rest with
        | some (content, rest) =>
          (.opening name attributes false ::
            ((if content.isEmpty then [] else [.text content]) ++ [.closing name]), rest)
        | none => ([.opening name attributes false], [])
      else ([.opening name attributes false], rest)

def marked? (s : List Char) : Option (List Token × List Char) :=
  match s with
  | '!' :: '-' :: '-' :: rest => stringUpTo? .comment commentEnd? rest
  | '!' :: '[' :: rest => section? rest
  | '!' :: rest =>
    match afterAnyCase? ['d', 'o', 'c', 't', 'y', 'p', 'e'] rest with
    | some rest =>
      (upTo? angle? rest).map fun (content, rest) => ([.string .doctype (content.drop 1)], rest)
    | none => stringUpTo? .comment angle? rest
  | '?' :: rest => stringUpTo? .instruction angle? rest
  | '/' :: rest => endTag? rest
  | c :: rest => if c.isAlpha then opened? (c :: rest) else some ([.text ['<']], c :: rest)
  | [] => none

/-- How much of a text in which markup is cut off is taken as text before reading goes on: up to
the next `>`, otherwise up to the next `<`, otherwise nothing. -/
def cutOff (s : List Char) : List Char × List Char :=
  if s.contains '>' then
    (s.takeWhile (· ≠ '>') ++ ['>'], (s.dropWhile (· ≠ '>')).drop 1)
  else if s.contains '<' then (s.takeWhile (· ≠ '<'), s.dropWhile (· ≠ '<'))
  else ([], s)

def isPlain (c : Char) : Bool :=
  c ≠ '<' && c ≠ '&'

/-- The text that an ampersand gives which starts no complete reference, and what is left to read,
given the text behind it. A faulty number costs its sign and reading goes on, but only once:
`again` says that it did, or that markup was cut off before, and then all that is left is text, as
it is when no semicolon follows. A name at the end of the text stays as it is written, except that
a single letter loses the ampersand. -/
def loneAmpersand (again : Bool) : List Char → List Char × Bool × List Char
  | '#' :: s =>
    if again || !s.contains ';' then ('&' :: '#' :: s, again, []) else (['&', '#'], true, s)
  | [c] => if c.isAlpha then ([c], again, []) else (['&'], again, [c])
  | s => if s.head?.any Char.isAlpha then ('&' :: s, again, []) else (['&'], again, s)

/-- The tokens of a text, at most `fuel` steps of them; each step takes at least one character. -/
def scan : (fuel : Nat) → (again : Bool) → List Char → List Token
  | 0, _, _ => []
  | _ + 1, _, [] => []
  | fuel + 1, again, '<' :: s =>
    match marked? s with
    | some (tokens, rest) => tokens ++ scan fuel again rest
    | none =>
      let (piece, rest) := cutOff s
      .text ('<' :: piece) :: scan fuel true rest
  | fuel + 1, again, '&' :: s =>
    match textReference? s with
    | some (piece, rest) => .text piece :: scan fuel again rest
    | none =>
      let (piece, again, rest) := loneAmpersand again s
      .text piece :: scan fuel again rest
  | fuel + 1, again, c :: s =>
    .text (c :: s.takeWhile isPlain) :: scan fuel again (s.dropWhile isPlain)

def ofString (s : String) : List Token :=
  scan s.length false s.toList

end Token

end DocTree.Html
