import DocTree.Text.Blank

/-!
Document type declarations: a name, and after `PUBLIC` or `SYSTEM` the quoted identifiers of the
type. Every text can be read as a declaration; what does not fit is left out.
-/
namespace DocTree.Markup

/-- An empty identifier is none. -/
structure Doctype where
  name : String
  publicId? : Option String
  systemId? : Option String
  deriving DecidableEq, Repr

namespace Doctype

/-- Whether a character is the given lower-case letter in some case; two letters have a further
form that differs from them in case only. -/
def isLetter (letter c : Char) : Bool :=
  c.toLower = letter || letter = 's' && c = 'ſ' || letter = 'i' && (c = 'ı' || c = 'İ')

def keyword? : List Char → List Char → Option (List Char)
  | [], s => some s
  | _ :: _, [] => none
  | letter :: word, c :: s => if isLetter letter c then keyword? word s else none

def blanks? : List Char → Option (List Char)
  | [] => none
  | c :: s => if Text.isBlank c then some (s.dropWhile Text.isBlank) else none

def quoted? : List Char → Option (List Char × List Char)
  | [] => none
  | q :: s =>
    if q = '\x22' ∨ q = '\x27' then
      match s.dropWhile (· ≠ q) with
      | [] => none
      | _ :: rest => some (s.takeWhile (· ≠ q), rest)
    else none

def spaced? (word s : List Char) : Option (List Char) :=
  (blanks? s).bind fun s => (keyword? word s).bind blanks?

def identifier? (s : List Char) : Option String :=
  if s.isEmpty then none else some (String.ofList s)

def identifiers (s : List Char) : Option String × Option String :=
  match (spaced? ['p', 'u', 'b', 'l', 'i', 'c'] s).bind quoted? with
  | some (publicId, rest) =>
    (identifier? publicId,
      ((blanks? rest).bind quoted?).bind fun systemId => identifier? systemId.1)
  | none =>
    (none, ((spaced? ['s', 'y', 's', 't', 'e', 'm'] s).bind quoted?).bind fun systemId =>
      identifier? systemId.1)

def isNameChar (c : Char) : Bool :=
  !Text.isBlank c && c ≠ '\x22' && c ≠ '\x27'

/-- The declaration without leading blanks and without the keyword `doctype`. -/
def body (s : List Char) : List Char :=
  let s := s.dropWhile Text.isBlank
  ((keyword? ['d', 'o', 'c', 't', 'y', 'p', 'e'] s).bind blanks?).getD s

def read (declaration : String) : Doctype :=
  let s := body declaration.toList
  let ids := identifiers (s.dropWhile isNameChar)
  ⟨String.ofList (s.takeWhile isNameChar), ids.1, ids.2⟩

end Doctype

end DocTree.Markup
