import DocTree.Value

/-!
Nodes as plain data. A node is written as a mapping from the aliases of its fields, in schema
order and without the fields that hold null; its children are written likewise. Whatever can be
gone through as children, if a node was assembled without checks, is written as a list.
-/
namespace DocTree

mutual

/-- A place as a mapping from labels, without the fields that hold null. -/
def Record.dump : Record → Value
  | ⟨_, _, fields⟩ => .map (dumpFields fields)

def dumpFields : List (Field × Value) → Entries
  | [] => []
  | (_, .null) :: rest => dumpFields rest
  | (f, .record r) :: rest => (.str f.label, r.dump) :: dumpFields rest
  | (f, v) :: rest => (.str f.label, v) :: dumpFields rest

end

mutual

def Record.encode : Record → Value
  | ⟨_, _, fields⟩ => .map (encodeFields fields)

def encodeFields : List (Field × Value) → Entries
  | [] => []
  | (_, .null) :: rest => encodeFields rest
  | (.children, .list xs) :: rest
  | (.children, .tuple xs) :: rest
  | (.children, .set xs) :: rest
  | (.children, .stream _ xs) :: rest => (.str "children", .list (encodeItems xs)) :: encodeFields rest
  | (.children, .map es) :: rest => (.str "children", .list (encodeKeys es)) :: encodeFields rest
  | (.children, .str s) :: rest =>
    (.str "children", .list (s.toList.map fun c => .str c.toString)) :: encodeFields rest
  | (.children, .bytes bs) :: rest =>
    (.str "children", .list (bs.map fun b => .int b.toNat)) :: encodeFields rest
  | (f, .record r) :: rest => (.str f.key, r.dump) :: encodeFields rest
  | (f, v) :: rest => (.str f.key, v) :: encodeFields rest

def encodeItems : List Value → List Value
  | [] => []
  | .record r :: rest => r.encode :: encodeItems rest
  | v :: rest => v :: encodeItems rest

def encodeKeys : List (Value × Value) → List Value
  | [] => []
  | (.record r, _) :: rest => r.encode :: encodeKeys rest
  | (v, _) :: rest => v :: encodeKeys rest

end

def Record.writtenKeys (r : Record) : List String :=
  (r.fields.filter fun p => !p.2.isNull).map fun p => p.1.key

end DocTree
