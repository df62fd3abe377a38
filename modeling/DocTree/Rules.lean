import DocTree.Containment
import DocTree.Properties
import DocTree.Schema

/-!
Rules of single fields. A rule either accepts a value, perhaps in another stored form, or refuses
it with errors that are collected; a fault of the structure below the field ends the check at once.
-/
namespace DocTree

/-- The paths of the errors start at the key of the field. -/
abbrev Verdict := Except (List FieldError) Value

namespace Verdict

def refuse (fault : FieldFault) : Verdict :=
  .error [⟨[], fault⟩]

def under (key : String) : Verdict → Verdict
  | .ok v => .ok v
  | .error errors => .error (errors.map fun e => ⟨.key key :: e.path, e.fault⟩)

end Verdict

open Verdict

def acceptKind (form : Form) (v : Value) : Verdict :=
  if v.isText form.kindText then .ok v else refuse (.wrongKind form.kindText)

def acceptText (nonempty : Bool) : Value → Verdict
  | .str s => if nonempty && s.isEmpty then refuse .emptyText else .ok (.str s)
  | _ => refuse .notText

def acceptInteger (least greatest : Option Int) : Value → Verdict
  | .int n =>
    match least.filter (fun b => n < b), greatest.filter (fun b => b < n) with
    | some b, _ => refuse (.below b)
    | none, some b => refuse (.above b)
    | none, none => .ok (.int n)
  | _ => refuse .notInteger

def acceptFlag : Value → Verdict
  | .bool b => .ok (.bool b)
  | _ => refuse .notFlag

/-- The step to an entry of a mapping: an integer of 64 bits stays a number, a truth value counts
as one, and any other key that is no text is named by its literal. -/
def Value.step : Value → Step
  | .str s => .key s
  | .bool b => .index (if b then 1 else 0)
  | .int n => if -Int.pow 2 63 ≤ n ∧ n < Int.pow 2 63 then .index n else .key (toString n)
  | v => .key v.literal

def metadataError? : Value × Value → Option FieldError
  | (.str _, _) => none
  | (key, _) => some ⟨[key.step, .key "[key]"], .notText⟩

def acceptMetadata : Value → Verdict
  | .map es =>
    match es.filterMap metadataError? with
    | [] => .ok (.map es)
    | errors => .error errors
  | _ => refuse .notMapping

/-- The verdict of a rule on a field of the given form; `place` checks points and positions. -/
def Rule.accept (form : Form) (place : Form → Value → Except Violation Record) :
    Rule → Value → Except Violation Verdict
  | .kind, v => .ok (acceptKind form v)
  | .text nonempty, v => .ok (acceptText nonempty v)
  | .integer least greatest, v => .ok (acceptInteger least greatest v)
  | .flag, v => .ok (acceptFlag v)
  | .metadata, v => .ok (acceptMetadata v)
  | .place f, v => (place f v).map fun r => .ok (.record r)
  | .children, v => (gatherChildren form v).map .ok
  | .properties, v => (gatherProperties v).map .ok

end DocTree
