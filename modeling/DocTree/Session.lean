import DocTree.Evolve
import DocTree.Load
import DocTree.Markup.Convert

/-!
Sessions: what can be built by any sequence of operations that check what they build, with
records used again freely, the places that they hold included.
-/
namespace DocTree

mutual

/-- The records that stand in a value, not looking into records. -/
def Value.outerRecords : Value → List Record
  | .list xs | .tuple xs | .set xs | .stream _ xs => outerRecordsOfItems xs
  | .map es => outerRecordsOfEntries es
  | .record r => [r]
  | _ => []

def outerRecordsOfItems : List Value → List Record
  | [] => []
  | x :: xs => x.outerRecords ++ outerRecordsOfItems xs

def outerRecordsOfEntries : List (Value × Value) → List Record
  | [] => []
  | (k, x) :: es => k.outerRecords ++ x.outerRecords ++ outerRecordsOfEntries es

end

namespace Markup

mutual

def Item.outerRecords : Item → List Record
  | .tag name attributes children =>
    name.outerRecords ++ outerRecordsOfEntries attributes ++ outerRecordsInside children
  | .string _ _ => []

def outerRecordsInside : List Item → List Record
  | [] => []
  | item :: rest => item.outerRecords ++ outerRecordsInside rest

end

def Source.outerRecords : Source → List Record
  | .document children => outerRecordsInside children
  | .tag name attributes children => (Item.tag name attributes children).outerRecords

end Markup

/-- `Session next pool` when some sequence of operations leads to the records of the pool, the
last one first, with `next` as the next identity. -/
inductive Session : Ident → List Record → Prop
  | start : Session 0 []
  | create {next next' : Ident} {pool : List Record} {r : Record} (form : Form) (v : Value) :
    Session next pool → v.outerRecords ⊆ pool → create form v next = .ok (r, next') →
    Session next' (r :: pool)
  | load {next next' : Ident} {pool : List Record} {r : Record} (forms : Registry)
    (family : String) (v : Value) :
    Session next pool → v.outerRecords ⊆ pool → load forms family v next = .ok (r, next') →
    Session next' (r :: pool)
  | evolve {next next' : Ident} {pool : List Record} {r r' : Record} (changes : Entries) :
    Session next pool → r ∈ pool → r.form.isNode → outerRecordsOfEntries changes ⊆ pool →
    r.evolve changes next = .ok (r', next') → Session next' (r' :: pool)
  | descendant {next : Ident} {pool : List Record} {r d : Record} (path : List Nat) :
    Session next pool → r ∈ pool → r.descendant? path = some d → Session next (d :: pool)
  | place {next : Ident} {pool : List Record} {r q : Record} (f : Field) :
    Session next pool → r ∈ pool → f ∈ [.position, .start, .stop] → r.get f = .record q →
    Session next (q :: pool)
  | convert {next next' : Ident} {pool : List Record} {r : Record} {notices : List Notice}
    (keepBlank : Bool) (source : Markup.Source) :
    Session next pool → source.outerRecords ⊆ pool →
    source.convert keepBlank next = .ok ((r, notices), next') → Session next' (r :: pool)

end DocTree
