import DocTree.Load

/-!
Loading as a sequence of steps. `traverse` lists what is done for nested data from left to right:
a mapping is entered, which resolves its type, then come the steps of its children, and then it is
left, which checks the node itself. A step holds what it looks at and no more. `run` does a step on
a stack of finished nodes, and `runAll` one after the other until one fails.
-/
namespace DocTree

namespace Entries

def type (es : Entries) : Value :=
  (es.get? "type").getD .null

def withChildren (es : Entries) (children : List Record) : Entries :=
  match es with
  | [] => []
  | (.str "children", _) :: rest => (.str "children", .list (children.map .record)) :: rest
  | e :: rest => e :: withChildren rest children

end Entries

inductive LoadStep
  | refuse (v : Value)
  | enter (type : Value)
  | keep (r : Record)
  | leave (form : Form) (es : Entries)
  | close (form : Form) (before : Entries) (arity : Nat) (after : Entries)

mutual

def traverse (forms : Registry) : Value → List LoadStep
  | .map es =>
    .enter (Entries.type es) ::
      match forms.resolve? (Entries.type es) with
      | none => []
      | some form =>
        if form.shape = .branch then traverseChildren forms form [] es else [.leave form es]
  | v => [.refuse v]

def traverseChildren (forms : Registry) (form : Form) (before : Entries) :
    List (Value × Value) → List LoadStep
  | [] => [.leave form before]
  | (.str "children", .list xs) :: after
  | (.str "children", .tuple xs) :: after =>
    traverseItems forms xs ++ [.close form before xs.length after]
  | e :: rest => traverseChildren forms form (before ++ [e]) rest

def traverseItems (forms : Registry) : List Value → List LoadStep
  | [] => []
  | x :: rest =>
    (match x.node? with
      | some r => [.keep r]
      | none => traverse forms x) ++ traverseItems forms rest

end

namespace LoadStep

/-- Does one step; the last finished node is on top of the stack. -/
def run (forms : Registry) (family : String) : LoadStep → List Value → Build (List Value)
  | refuse v, _ => throw (.notMapping family v)
  | enter type, stack =>
    match forms.resolve? type with
    | none => throw (.unknownType family type)
    | some _ => pure stack
  | keep r, stack => pure (.record r :: stack)
  | leave form es, stack => do
    let node ← create form (.map es)
    return .record node :: stack
  | close form before arity after, stack => do
    let nodes := (stack.take arity).reverse
    let node ← create form (.map (before ++ (.str "children", .list nodes) :: after))
    return .record node :: stack.drop arity

def runAll (forms : Registry) (family : String) : List LoadStep → List Value → Build (List Value)
  | [], stack => pure stack
  | step :: steps, stack => do
    let stack ← step.run forms family stack
    runAll forms family steps stack

/-- The first of the steps that fails does so with the given violation. -/
def FirstFails (forms : Registry) (family : String) (steps : List LoadStep) (next : Ident)
    (w : Violation) : Prop :=
  ∃ before step after stack mid, steps = before ++ step :: after ∧
    runAll forms family before [] next = .ok (stack, mid) ∧
    step.run forms family stack mid = .error w

end LoadStep

def holdsItems (e : Value × Value) : Prop :=
  e.1 = .str "children" ∧ ∃ xs, e.2 = .list xs ∨ e.2 = .tuple xs

/-- Whether data is come to inside other data when that is loaded, and if so, the steps before and
after those for it: the way leads through mappings whose types name branches. -/
inductive Reaches (forms : Registry) : Value → Value → List LoadStep → List LoadStep → Prop
  | here (v : Value) : Reaches forms v v [] []
  | child {form : Form} {es before after : Entries} {v x y : Value} {left right : List Value}
      {steps rest : List LoadStep} :
    forms.resolve? (Entries.type es) = some form → form.shape = .branch →
    es = before ++ (.str "children", v) :: after → (∀ e ∈ before, ¬ holdsItems e) →
    v = .list (left ++ x :: right) ∨ v = .tuple (left ++ x :: right) → x.node? = none →
    Reaches forms x y steps rest →
    Reaches forms (.map es) y (.enter (Entries.type es) :: traverseItems forms left ++ steps)
      (rest ++ traverseItems forms right ++
        [.close form before (left ++ x :: right).length after])

end DocTree
