import DocTree.Html.Reference
import DocTree.Html.Lower

/-!
Written tags. A start tag is a name, attributes apart from each other by blanks, slashes or the
quotes of a value, and a mark that ends it; a slash right before the mark closes the element. The
names of tags and attributes are read in lower case.
-/
namespace DocTree.Html

def lower (s : List Char) : String :=
  String.ofList (Text.lower s)

/-- The characters that end the name of a tag. Blanks other than these belong to the name. -/
def tagNameEnds : List Char :=
  ['\t', '\n', '\r', '\x0c', ' ', '/', '>', '\x00']

def isTagNameChar (c : Char) : Bool :=
  !tagNameEnds.contains c

def isAttributeNameChar (c : Char) : Bool :=
  !Text.isBlank c && c ≠ '/' && c ≠ '=' && c ≠ '>'

def isBareValueChar (c : Char) : Bool :=
  !Text.isBlank c && c ≠ '>'

def isQuote (c : Char) : Bool :=
  c = '\x22' || c = '\x27'

/-- Passes over blanks and over slashes that do not close a tag; `last` is the character before,
and the result starts with the one before what is left. -/
def separators (last : Char) : List Char → Char × List Char
  | [] => (last, [])
  | '/' :: '>' :: rest => (last, '/' :: '>' :: rest)
  | c :: rest => if Text.isBlank c || c = '/' then separators c rest else (last, c :: rest)

/-- The value of an attribute as it is written, the last character before what comes after it, and
what comes after. A quote that is not closed starts no quoted value: behind a blank the value is
empty, behind a second sign of equality that sign belongs to the value, and otherwise the
attribute has none. -/
def attributeValue (last : Char) (s : List Char) : List Char × Char × List Char :=
  match s.dropWhile Text.isBlank with
  | '=' :: t =>
    let u := t.dropWhile (· = '=')
    let rest := u.dropWhile Text.isBlank
    let bare := (rest.takeWhile isBareValueChar, '=', rest.dropWhile isBareValueChar)
    match rest with
    | [] => bare
    | q :: inner =>
      if !isQuote q then bare
      else if inner.contains q then
        (inner.takeWhile (· ≠ q), q, (inner.dropWhile (· ≠ q)).drop 1)
      else if rest.length < u.length then ([], ' ', rest)
      else if u.length < t.length then ('=' :: bare.1, bare.2)
      else ([], last, s)
  | _ => ([], last, s)

/-- How a start tag ends; one that ends at a character which belongs to no tag is text. -/
inductive TagEnd
  | plain
  | closing
  | broken
  deriving DecidableEq, Repr

/-- The attributes of a start tag, how it ends and what comes after it, unless it is cut off.
`last` is the character before the text, and `fuel` bounds the number of characters. -/
def attributes : (fuel : Nat) → (last : Char) → List Char →
    Option (List (String × List Char) × TagEnd × List Char)
  | 0, _, _ => none
  | _ + 1, _, [] => none
  | _ + 1, _, '>' :: rest => some ([], .plain, rest)
  | _ + 1, _, '/' :: '>' :: rest => some ([], .closing, rest)
  | fuel + 1, last, c :: rest =>
    if isQuote last || Text.isBlank last || last = '/' then
      let name := c :: rest.takeWhile isAttributeNameChar
      let (value, last, rest) :=
        attributeValue (name.getLastD c) (rest.dropWhile isAttributeNameChar)
      let (last, rest) := separators last rest
      (attributes fuel last rest).map fun (others, ending) =>
        ((lower name, resolve value) :: others, ending)
    else if c = '=' || c.isAlpha then none
    else some ([], .broken, c :: rest)

def startTag? (s : List Char) :
    Option (String × List (String × List Char) × TagEnd × List Char) :=
  let name := s.takeWhile isTagNameChar
  let (last, rest) := separators (name.getLastD '<') (s.dropWhile isTagNameChar)
  (attributes s.length last rest).map fun tag => (lower name, tag)

def isEndTagNameChar (c : Char) : Bool :=
  c.isAlphanum || c = '-' || c = '.' || c = ':' || c = '_'

def tagEnd? (s : List Char) : Option (List Char) :=
  match s.dropWhile Text.isBlank with
  | '>' :: rest => some rest
  | _ => none

def plainEndTag? (s : List Char) : Option (String × List Char) :=
  let t := s.dropWhile Text.isBlank
  if t.head?.any Char.isAlpha then
    (tagEnd? (t.dropWhile isEndTagNameChar)).map fun rest =>
      (lower (t.takeWhile isEndTagNameChar), rest)
  else none

end DocTree.Html
