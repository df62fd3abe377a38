import DocTree.Build
import DocTree.Value.Equal

/-!
Changed copies of nodes. A copy gets new identities throughout, and keeps what was shared within
the copied node shared. A node evolves by building a new one from its fields with some replaced;
children that are not replaced are copied one by one, so that the two nodes share none.
-/
namespace DocTree

mutual

def Value.relabel (new : Ident → Ident) : Value → Value
  | .list xs => .list (relabelItems new xs)
  | .tuple xs => .tuple (relabelItems new xs)
  | .set xs => .set (relabelItems new xs)
  | .stream id xs => .stream (new id) (relabelItems new xs)
  | .map es => .map (relabelEntries new es)
  | .record r => .record (r.relabel new)
  | v => v

def Record.relabel (new : Ident → Ident) : Record → Record
  | ⟨id, form, fields⟩ => ⟨new id, form, relabelFields new fields⟩

def relabelItems (new : Ident → Ident) : List Value → List Value
  | [] => []
  | x :: xs => x.relabel new :: relabelItems new xs

def relabelEntries (new : Ident → Ident) : List (Value × Value) → List (Value × Value)
  | [] => []
  | (k, x) :: es => (k.relabel new, x.relabel new) :: relabelEntries new es

def relabelFields (new : Ident → Ident) : List (Field × Value) → List (Field × Value)
  | [] => []
  | (f, x) :: fs => (f, x.relabel new) :: relabelFields new fs

end

mutual

def Value.idents : Value → List Ident
  | .list xs | .tuple xs | .set xs => identsOfItems xs
  | .stream id xs => id :: identsOfItems xs
  | .map es => identsOfEntries es
  | .record r => r.idents
  | _ => []

def Record.idents : Record → List Ident
  | ⟨id, _, fields⟩ => id :: identsOfFields fields

def identsOfItems : List Value → List Ident
  | [] => []
  | x :: xs => x.idents ++ identsOfItems xs

def identsOfEntries : List (Value × Value) → List Ident
  | [] => []
  | (k, x) :: es => k.idents ++ x.idents ++ identsOfEntries es

def identsOfFields : List (Field × Value) → List Ident
  | [] => []
  | (_, x) :: fs => x.idents ++ identsOfFields fs

end

/-- A copy with new identities, equal ones staying equal. -/
def Value.copy (v : Value) : Build Value := fun next =>
  let olds := v.idents.eraseDups
  .ok (v.relabel fun id => next + olds.idxOf id, next + olds.length)

/-- The stored fields under their labels. -/
def Record.entries (r : Record) : Entries :=
  r.fields.map fun (f, v) => (.str f.label, v)

/-- Entries with changes: a changed key keeps its place, a new one goes to the end. -/
def Entries.update (es changes : Entries) : Entries :=
  changes.foldl (fun acc e => acc.insert e.1 e.2) es

/-- Breaks off at the first field that an unchecked record does not store. -/
def Record.checkStored (r : Record) : Except Violation Unit :=
  r.form.specs.forM fun s => do
    let _ ← (Value.record r).attribute s.field

/-- A copy of what stands among children; only records can be copied. -/
def Value.copyMember (v : Value) : Build Value :=
  match v with
  | .record _ => v.copy
  | _ => throw (.breakdown (.noAttribute v "model_copy"))

def Record.copyChildren (r : Record) : Build (List Value) :=
  match (r.get .children).elements? with
  | some members => members.mapM Value.copyMember
  | none => throw (.breakdown (.notIterable (r.get .children)))

/-- The entries that a changed copy starts from: the stored fields, with copies for the children
unless a change gives others. -/
def Record.baseEntries (r : Record) (changes : Entries) : Build Entries := do
  r.checkStored
  if r.isBranch && !changes.contains "children" then do
    let copies ← r.copyChildren
    return r.entries.map fun e => if e.1.isText "children" then (e.1, .tuple copies) else e
  else return r.entries

/-- The node's form built anew from the node's fields and the changes. -/
def Record.evolve (r : Record) (changes : Entries) : Build Record := do
  let fields ← r.baseEntries changes
  r.form.new (Entries.update fields changes)

end DocTree
