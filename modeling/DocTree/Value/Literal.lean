import DocTree.Text.Quoted
import DocTree.Value

/-!
The text that stands for a value in messages. Inside a collection every value is written as a
literal; a text shown on its own appears without quotes.
-/
namespace DocTree

def commaSeparated (parts : List String) : String :=
  ", ".intercalate parts

/-- A tuple of one member keeps a comma, which tells it from a parenthesis. -/
def tupleText : List String → String
  | [x] => "(" ++ x ++ ",)"
  | xs => "(" ++ commaSeparated xs ++ ")"

def setText : List String → String
  | [] => "set()"
  | xs => "\x7b" ++ commaSeparated xs ++ "\x7d"

mutual

def Value.literal : Value → String
  | .null => "None"
  | .bool b => if b then "True" else "False"
  | .int n => toString n
  | .float x => x.text
  | .str s => Text.quoted s
  | .bytes bs => Text.quotedBytes bs
  | .list xs => "[" ++ commaSeparated (literals xs) ++ "]"
  | .tuple xs => tupleText (literals xs)
  | .set xs => setText (literals xs)
  | .stream _ _ => "<list_iterator>"
  | .map es => "\x7b" ++ commaSeparated (entryLiterals es) ++ "\x7d"
  | .record ⟨_, form, fields⟩ => form.name ++ "(" ++ commaSeparated (fieldLiterals fields) ++ ")"

def literals : List Value → List String
  | [] => []
  | x :: xs => x.literal :: literals xs

def entryLiterals : List (Value × Value) → List String
  | [] => []
  | (k, x) :: es => (k.literal ++ ": " ++ x.literal) :: entryLiterals es

def fieldLiterals : List (Field × Value) → List String
  | [] => []
  | (f, x) :: fs => (f.label ++ "=" ++ x.literal) :: fieldLiterals fs

end

def Value.display : Value → String
  | .str s => s
  | .record r => " ".intercalate (fieldLiterals r.fields)
  | v => v.literal

@[simp] theorem Value.display_str (s : String) : (Value.str s).display = s := rfl

end DocTree
