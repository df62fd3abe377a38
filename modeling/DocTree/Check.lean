import DocTree.Order
import DocTree.Rules

/-!
Checking data against the schema of a form. Fields are read in schema order; the first fault of
the structure is the answer, whatever else is wrong, and otherwise the field errors are collected,
followed by one error for each key that gives no field. What couples fields is looked at last.
-/
namespace DocTree

/-- The key and the value that an entry gives for a field, under the preferred key if both occur. -/
def Field.find? (f : Field) (es : Entries) : Option (String × Value) :=
  f.keys.findSome? fun key => (es.get? key).map fun v => (key, v)

/-- Reads one field: an absent one takes its default. -/
def FieldSpec.read (s : FieldSpec) (accept : Rule → Value → Except Violation Verdict)
    (es : Entries) : Except Violation Verdict :=
  match s.field.find? es with
  | none =>
    match s.default? with
    | some v => .ok (.ok v)
    | none => .ok (.error [⟨[.key s.field.key], .missing⟩])
  | some (key, v) =>
    if s.nullable && v.isNull then .ok (.ok v) else (accept s.rule v).map (Verdict.under key)

/-- Reads the fields of a schema in order: the collected errors and the accepted values. -/
def readFields (accept : Rule → Value → Except Violation Verdict) (es : Entries) :
    List FieldSpec → Except Violation (List FieldError × List (Field × Value))
  | [] => .ok ([], [])
  | s :: rest => do
    let verdict ← s.read accept es
    let (errors, fields) ← readFields accept es rest
    match verdict with
    | .ok v => .ok (errors, (s.field, v) :: fields)
    | .error first => .ok (first ++ errors, fields)

def unknownKeys (specs : List FieldSpec) (es : Entries) : List FieldError :=
  let used := specs.filterMap fun s => (s.field.find? es).map Prod.fst
  es.filterMap fun e =>
    match e.1 with
    | .str name => if name ∈ used then none else some ⟨[.key name], .unknownKey⟩
    | key => some ⟨[key.step], .keyNotText⟩

/-- A capability form has no records of its own, and only a branch may be given children. -/
def checkShape (form : Form) (es : Entries) : Except Violation Unit :=
  if !form.isNode then .ok ()
  else if form.kind?.isNone then .error (.capability form)
  else if es.contains "children" && form.shape ≠ .branch then .error (.childless form)
  else .ok ()

/-- Whether a value counts as true: all do but null, false, zero and what is empty. -/
def Value.isTruthy : Value → Bool
  | .null => false
  | .bool b => b
  | .int n => n ≠ 0
  | .float x => !x.isZero
  | .str s => !s.isEmpty
  | .bytes bs => !bs.isEmpty
  | .list xs | .tuple xs | .set xs => !xs.isEmpty
  | .map es => !es.isEmpty
  | .stream _ _ | .record _ => true

def Value.isNegative : Value → Except Violation Bool
  | .bool _ => .ok false
  | .int n => .ok (n < 0)
  | .float x => .ok x.isNegative
  | v => .error (.breakdown (.notOrdered "<" v (.int 0)))

/-- What couples the fields of a record: the order of a position's places, and that an ordered
list starts at no negative number. -/
def checkCoupled (form : Form) (r : Record) : Except Violation Unit :=
  match form with
  | .position => checkOrder (.record r)
  | .list =>
    if (r.get .ordered).isTruthy && !(r.get .start).isNull then do
      if ← (r.get .start).isNegative then throw (.negativeStart (r.get .start))
    else .ok ()
  | _ => .ok ()

def assemble (form : Form) (id : Ident) (accept : Rule → Value → Except Violation Verdict)
    (es : Entries) : Except Violation Record := do
  checkShape form es
  let (errors, fields) ← readFields accept es form.specs
  match errors ++ unknownKeys form.specs es with
  | [] => .ok ⟨id, form, fields⟩
  | errors => .error (.badFields form errors)

/-- A mapping is assembled; a record of the form is kept as it is; either has to be coupled
rightly. -/
def checkWith (form : Form) (id : Ident) (place : Form → Value → Except Violation Record)
    (v : Value) : Except Violation Record := do
  let r ←
    match v with
    | .map es => assemble form id (Rule.accept form place) es
    | .record r => if r.form.isA form then .ok r else .error (.badFields form [⟨[], .notRecord form⟩])
    | _ => .error (.badFields form [⟨[], .notRecord form⟩])
  checkCoupled form r
  return r

def checkPoint (id : Ident) (v : Value) : Except Violation Record :=
  checkWith .point id (fun form _ => .error (.badFields form [])) v

def checkPlace (id : Ident) (form : Form) (v : Value) : Except Violation Record :=
  checkWith form id (fun _ => checkPoint id) v

def check (form : Form) (id : Ident) (v : Value) : Except Violation Record :=
  checkWith form id (checkPlace id) v

/-- A record put together without any check: absent fields take their defaults, and keys that
give no field are ignored. -/
def uncheckedRecord (form : Form) (id : Ident) (es : Entries) : Record :=
  ⟨id, form, form.specs.filterMap fun s =>
    match s.field.find? es with
    | some (_, v) => some (s.field, v)
    | none => s.default?.map fun v => (s.field, v)⟩

end DocTree
