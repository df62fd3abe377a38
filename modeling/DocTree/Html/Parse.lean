import DocTree.Markup.Convert
import DocTree.Html.Document

/-!
Reading written markup into a tree. The settings name the parser to use where none is asked for,
and say whether blank texts are kept. The modules beside this one stand for the parser, of which
nothing is proved: statements about the conversion are about parsed markup, however it was read.
-/
namespace DocTree.Html

open Markup

/-- The plain parser gives what is written; the other one completes a fragment to a document. -/
inductive Parser
  | plain | completing
  deriving DecidableEq, Repr

namespace Parser

def name : Parser → String
  | plain => "html.parser"
  | completing => "lxml"

def ofName? (s : String) : Option Parser :=
  [plain, completing].find? fun p => p.name = s

end Parser

structure Settings where
  parser : String
  keepBlank : Bool
  deriving DecidableEq, Repr

namespace Settings

def ofEnvironment (parser? keep? : Option String) : Settings :=
  ⟨parser?.getD "lxml", (keep?.getD "true").map Char.toLower = "true"⟩

def default : Settings := ofEnvironment none none

end Settings

inductive ParseFailure
  | unknownParser (name : String)
  | violation (v : Violation)

namespace ParseFailure

def faultClass : ParseFailure → FaultClass
  | unknownParser _ => .parse
  | violation v => v.faultClass

def message : ParseFailure → String
  | unknownParser name => "BeautifulSoup parser " ++ Text.quoted name ++ " is not available"
  | violation v => v.message

end ParseFailure

def isElement (name : String) : Item → Bool
  | .tag n _ _ => n.isText name
  | .string .. => false

def complete (items : List Item) : List Item :=
  if items.isEmpty || items.any (isElement "html") then items
  else [.tag (.str "html") [] [.tag (.str "body") [] items]]

def Parser.items : Parser → String → List Item
  | plain, markup => itemsOf markup
  | completing, markup => complete (itemsOf markup)

def decodeBytes (bytes : List UInt8) : String :=
  let s := (String.fromUTF8? ⟨bytes.toArray⟩).getD ""
  if s.startsWith "\uFEFF" then String.ofList (s.toList.drop 1) else s

/-- Reads markup into a root. An empty parser name asks for the one of the settings. -/
def parse (settings : Settings) (parser? : Option String) (keep? : Option Bool)
    (markup : String) : StateT Ident (Except ParseFailure) (Record × List Notice) :=
  let asked := parser?.getD ""
  let name := if asked.isEmpty then settings.parser else asked
  match Parser.ofName? name with
  | none => throw (.unknownParser name)
  | some parser => fun next =>
    ((Source.document (parser.items markup)).convert (keep?.getD settings.keepBlank) next).mapError
      .violation

end DocTree.Html
