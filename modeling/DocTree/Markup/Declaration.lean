import DocTree.Markup.Doctype
import DocTree.Text.Pattern

/-!
How document type declarations are written: the pattern they are to match, and the parts of one
with the conditions under which it is read as it was meant.
-/
namespace DocTree.Markup

namespace Doctype

/-- The groups of the pattern; a system identifier can stand behind a public one or by itself. -/
inductive Part
  | name | publicId | publicSystem | system
  deriving DecidableEq, Repr

open Text Pattern

def gap : Pattern Part := many1 isBlank

def keyword (letters : List Char) : Pattern Part := word isLetter letters gap

def enclosed (quote : Char) : Pattern Part :=
  seq (one (· = quote)) (seq (many (· ≠ quote)) (one (· = quote)))

def quotation : Pattern Part := either (enclosed '\x22') (enclosed '\x27')

/-- The system identifier behind a public one. -/
def publicSystem : Pattern Part := maybe (seq gap (group .publicSystem quotation))

def publicIds : Pattern Part :=
  seq gap <| seq (keyword ['p', 'u', 'b', 'l', 'i', 'c']) <|
    seq (group .publicId quotation) publicSystem

def systemIds : Pattern Part :=
  seq gap <| seq (keyword ['s', 'y', 's', 't', 'e', 'm']) <| group .system quotation

def ids : Pattern Part := maybe (either publicIds systemIds)

def named : Pattern Part := seq (group .name (many isNameChar)) ids

def opened : Pattern Part := seq (maybe (keyword ['d', 'o', 'c', 't', 'y', 'p', 'e'])) named

/-- A declaration; what it starts with, its name and its identifiers may all be missing. -/
def pattern : Pattern Part := seq (many isBlank) opened

def unquote (part? : Option (List Char)) : Option String :=
  part?.bind fun part => identifier? (part.drop 1).dropLast

/-- What the groups of a match say. -/
def ofParts (parts : List (Part × List Char)) : Doctype where
  name := String.ofList ((parts.lookup .name).getD [])
  publicId? := unquote (parts.lookup .publicId)
  systemId? := unquote ((parts.lookup .publicSystem).or (parts.lookup .system))

end Doctype

open Doctype

def Spells : List Char → List Char → Prop
  | [], [] => True
  | letter :: letters, c :: s => isLetter letter c ∧ Spells letters s
  | _, _ => False

structure Spelling (letters : List Char) where
  chars : List Char
  spells : Spells letters chars

structure Gap where
  chars : List Char
  nonempty : chars ≠ []
  blank : ∀ c ∈ chars, Text.isBlank c

structure Quotation where
  quote : Char
  content : List Char
  isQuote : quote = '\x22' ∨ quote = '\x27'
  unbroken : quote ∉ content

def Quotation.written (q : Quotation) : List Char :=
  q.quote :: q.content ++ [q.quote]

inductive ExternalId
  | absent
  | withPublic (before : Gap) (keyword : Spelling ['p', 'u', 'b', 'l', 'i', 'c']) (between : Gap)
      (publicId : Quotation) (systemId? : Option (Gap × Quotation))
  | withSystem (before : Gap) (keyword : Spelling ['s', 'y', 's', 't', 'e', 'm']) (between : Gap)
      (systemId : Quotation)

namespace ExternalId

def written : ExternalId → List Char
  | .absent => []
  | .withPublic before keyword between publicId systemId? =>
    before.chars ++ (keyword.chars ++ (between.chars ++ (publicId.written ++
      systemId?.elim [] fun systemId => systemId.1.chars ++ systemId.2.written)))
  | .withSystem before keyword between systemId =>
    before.chars ++ (keyword.chars ++ (between.chars ++ systemId.written))

def publicId? : ExternalId → Option Quotation
  | .withPublic _ _ _ q _ => some q
  | _ => none

def systemId? : ExternalId → Option Quotation
  | .withPublic _ _ _ _ systemId? => systemId?.map Prod.snd
  | .withSystem _ _ _ q => some q
  | .absent => none

end ExternalId

/-- A declaration in its parts. Its name would be taken for the keyword if it spelt `doctype`. -/
structure Declaration where
  leading : List Char
  leading_blank : ∀ c ∈ leading, Text.isBlank c
  opening? : Option (Spelling ['d', 'o', 'c', 't', 'y', 'p', 'e'] × Gap)
  name : List Char
  name_nonempty : name ≠ []
  name_chars : ∀ c ∈ name, Doctype.isNameChar c
  name_ne_keyword : ¬ Spells ['d', 'o', 'c', 't', 'y', 'p', 'e'] name
  ids : ExternalId

namespace Declaration

def written (d : Declaration) : String :=
  String.ofList (d.leading ++
    (d.opening?.elim [] (fun opening => opening.1.chars ++ opening.2.chars) ++
      (d.name ++ d.ids.written)))

def doctype (d : Declaration) : Doctype where
  name := String.ofList d.name
  publicId? := d.ids.publicId?.bind fun q => identifier? q.content
  systemId? := d.ids.systemId?.bind fun q => identifier? q.content

end Declaration

end DocTree.Markup
