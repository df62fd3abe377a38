import DocTree.Value

/-!
Values that are the same but for the identities of records: the same forms with the same fields,
in the same order, down to the last field. Numbers of different types are never alike, even where
they are equal, and what mappings hold is compared with its identities.
-/
namespace DocTree

mutual

inductive Value.Alike : Value → Value → Prop
  | same (v : Value) : v.Alike v
  | record {r s : Record} : r.Alike s → (Value.record r).Alike (.record s)
  | tuple {xs ys : List Value} : AlikeItems xs ys → (Value.tuple xs).Alike (.tuple ys)

inductive Record.Alike : Record → Record → Prop
  | mk {i j : Ident} {form : Form} {fields fields' : List (Field × Value)} :
    AlikeFields fields fields' → (Record.mk i form fields).Alike ⟨j, form, fields'⟩

inductive AlikeItems : List Value → List Value → Prop
  | nil : AlikeItems [] []
  | cons {x y : Value} {xs ys : List Value} :
    x.Alike y → AlikeItems xs ys → AlikeItems (x :: xs) (y :: ys)

inductive AlikeFields : List (Field × Value) → List (Field × Value) → Prop
  | nil : AlikeFields [] []
  | cons {f : Field} {v w : Value} {fields fields' : List (Field × Value)} :
    v.Alike w → AlikeFields fields fields' → AlikeFields ((f, v) :: fields) ((f, w) :: fields')

end

end DocTree
