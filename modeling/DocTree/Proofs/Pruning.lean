import DocTree.Markup.Blankless
import DocTree.Proofs.Conversion
import DocTree.Proofs.Parallel

/-!
Conversion with and without blank texts. The two runs over the same markup are followed side by
side: they fail for the same reason, or the tree without blank texts is the other one with its
blank texts taken out. What stands below a tag is new in both runs and may always stand there, so
name and attributes alone decide in both whether the element is built. Main statements:
`convertItems_kept_of_ok`, `convertItems_pruned` and `Source.convert_withoutBlankTexts`.
-/
namespace DocTree

open Markup

section Kept

variable {keepBlank : Bool}

mutual

/-- Whatever the attributes are: what an item becomes, if it becomes anything, is new and may stand
under its holder. -/
theorem convertItem_kept_of_ok (item : Item) {holder : Holder} {next next' : Ident}
    {c : Converted} (h : convertItem keepBlank holder item next = .ok (c, next')) :
    ∃ rs, c.1 = rs.map .record ∧ Kept holder (rs.map Record.outline) next next' rs := by
  cases item with
  | string cls content =>
    obtain ⟨rs, last, hrs, hkept⟩ := convertString_kept keepBlank holder cls content next
    obtain ⟨rfl, rfl⟩ := Prod.mk.inj (Except.ok.inj (hrs.symm.trans h))
    exact ⟨rs, rfl, hkept.outline_eq ▸ hkept⟩
  | tag name attributes children =>
    rw [convertItem] at h
    obtain ⟨inner, mid, hinner, h⟩ := Build.bind_eq_ok_iff.1 h
    obtain ⟨node, last, hnode, h⟩ := Build.bind_eq_ok_iff.1 h
    obtain ⟨rfl, rfl⟩ := Build.pure_eq_ok_iff.1 h
    obtain ⟨rs, hrs, hkept⟩ := convertItems_kept_of_ok children hinner
    rw [hrs, newElement_of_gathered name attributes mid hkept.gathered] at hnode
    obtain ⟨parts, -, hnode⟩ := check_map_eq_ok_iff.1 hnode
    obtain ⟨rfl, rfl⟩ := Prod.mk.inj hnode
    exact ⟨[_], rfl, hkept.around holder parts.1 parts.2⟩

theorem convertItems_kept_of_ok (items : List Item) {holder : Holder} {next next' : Ident}
    {c : Converted} (h : convertItems keepBlank holder items next = .ok (c, next')) :
    ∃ rs, c.1 = rs.map .record ∧ Kept holder (rs.map Record.outline) next next' rs := by
  cases items with
  | nil =>
    rw [convertItems] at h
    obtain ⟨rfl, rfl⟩ := Build.pure_eq_ok_iff.1 h
    exact ⟨[], rfl, .nil⟩
  | cons item rest =>
    rw [convertItems] at h
    obtain ⟨first, mid, hfirst, h⟩ := Build.bind_eq_ok_iff.1 h
    obtain ⟨others, last, hothers, h⟩ := Build.bind_eq_ok_iff.1 h
    obtain ⟨rfl, rfl⟩ := Build.pure_eq_ok_iff.1 h
    obtain ⟨rs, hrs, hkept⟩ := convertItem_kept_of_ok item hfirst
    obtain ⟨qs, hqs, hkept'⟩ := convertItems_kept_of_ok rest hothers
    refine ⟨rs ++ qs, by rw [hrs, hqs, List.map_append], ?_⟩
    rw [List.map_append]
    exact hkept.append hkept'

end

/-- What was converted under a holder can be gathered as the children of the node that the holder
becomes. -/
def Gathered (holder : Holder) (p : Converted × Ident) : Prop :=
  gatherChildren holder.form (.list p.1.1) = .ok (.tuple p.1.1)

theorem gathered_of_convertItems {holder : Holder} {items : List Item} {next : Ident}
    {p : Converted × Ident} (h : convertItems keepBlank holder items next = .ok p) :
    Gathered holder p := by
  obtain ⟨rs, hrs, hkept⟩ := convertItems_kept_of_ok items h
  rw [Gathered, hrs]
  exact hkept.gathered

end Kept

theorem AlikeItems.append {xs xs' ys ys' : List Value} (h : AlikeItems xs ys)
    (h' : AlikeItems xs' ys') : AlikeItems (xs ++ xs') (ys ++ ys') := by
  induction xs generalizing ys with
  | nil =>
    cases h
    exact h'
  | cons x xs ih =>
    cases h with
    | cons hx hxs => exact .cons hx (ih hxs)

/-- What some markup becomes without its blank texts, beside what it becomes with them. -/
structure Pruned (p q : Converted × Ident) : Prop where
  nodes : AlikeItems p.1.1 (itemsWithoutBlankTexts q.1.1)
  notices : p.1.2 = q.1.2

namespace Pruned

variable {r q : Record} {notices : List Notice} {next next' : Ident}

theorem nil : Pruned (([], notices), next) (([], notices), next') :=
  ⟨.nil, rfl⟩

theorem single (h : r.Alike q.withoutBlankTexts) (hq : q.isBlankText = false) :
    Pruned (([.record r], notices), next) (([.record q], notices), next') := by
  constructor
  · rw [itemsWithoutBlankTexts, hq]
    exact .cons (.record h) .nil
  · rfl

theorem dropped (hq : q.isBlankText) :
    Pruned (([], notices), next) (([.record q], notices), next') := by
  constructor
  · rw [itemsWithoutBlankTexts, if_pos hq]
    exact .nil
  · rfl

theorem append {p p' : Converted × Ident} {c c' : Converted} (h : Pruned (c, next) p)
    (h' : Pruned (c', next') p') : Pruned ((c.1 ++ c'.1, c.2 ++ c'.2), next')
      ((p.1.1 ++ p'.1.1, p.1.2 ++ p'.1.2), p'.2) := by
  constructor
  · rw [itemsWithoutBlankTexts_append]
    exact h.nodes.append h'.nodes
  · exact congrArg₂ (· ++ ·) h.notices h'.notices

theorem newElement_outcomes {name : Value} {p q : Converted × Ident} (h : Pruned p q)
    (hp : Gathered (.tag name) p) (hq : Gathered (.tag name) q) (attributes : Entries) :
    Outcomes Eq (fun a b => a.1.Alike b.1.withoutBlankTexts ∧ b.1.isBlankText = false)
      (newElement name attributes p.1.1 p.2) (newElement name attributes q.1.1 q.2) := by
  rw [newElement_of_gathered name attributes p.2 hp, newElement_of_gathered name attributes q.2 hq]
  refine (Outcomes.refl (fun _ => rfl) (fun _ => rfl) (elementParts name attributes)).map ?_
  rintro parts _ rfl
  have hown : AlikeFields [(.tagName, parts.1), (.properties, parts.2)]
    [(.tagName, parts.1), (.properties, parts.2)] := .refl _
  exact ⟨.mk (.cons (.same _) (.cons (.same _) (.cons (.same _) (.cons (.tuple h.nodes) hown)))),
    rfl⟩

theorem newRoot_outcomes {p q : Converted × Ident} (h : Pruned p q) (hp : Gathered .document p)
    (hq : Gathered .document q) :
    Outcomes Eq (fun a b => a.1.Alike b.1.withoutBlankTexts)
      (Form.hastRoot.new [(.str "children", .list p.1.1)] p.2)
      (Form.hastRoot.new [(.str "children", .list q.1.1)] q.2) := by
  rw [newRoot_of_gathered p.2 hp, newRoot_of_gathered q.2 hq]
  exact .ok (.mk (.cons (.same _) (.cons (.same _) (.cons (.same _) (.cons (.tuple h.nodes)
    .nil)))))

end Pruned

section Convert

/-- Blank texts are what the flag is about; comments, declarations and instructions that are blank
are treated alike. -/
theorem convertString_pruned (holder : Holder) (cls : StringClass) (content : String)
    (next next' : Ident) : Outcomes Eq Pruned (convertString false holder cls content next)
      (convertString true holder cls content next') := by
  by_cases hdoctype : cls = .doctype ∧ holder = .document
  · obtain ⟨rfl, rfl⟩ := hdoctype
    have hnew (next : Ident) := newDoctype_eq (Doctype.read content) next
    have hconvert (keepBlank : Bool) (next : Ident) :
        convertString keepBlank .document .doctype content next = _ :=
      Build.bind_eq_ok_iff.2 ⟨_, _, hnew next, rfl⟩
    rw [hconvert, hconvert]
    exact .ok (.single (.mk (.refl _)) rfl)
  by_cases hcomment : cls = .comment
  · subst hcomment
    have hnew (next : Ident) := newLeaf_eq (.inr rfl) content next
    have hconvert (keepBlank : Bool) (next : Ident) :
        convertString keepBlank holder .comment content next = _ :=
      Build.bind_eq_ok_iff.2 ⟨_, _, hnew next, rfl⟩
    rw [hconvert, hconvert]
    exact .ok (.single (.mk (.refl _)) rfl)
  rw [(convertString_eq false content hcomment hdoctype).1,
    (convertString_eq true content hcomment hdoctype).1]
  by_cases hpreformatted : cls.isPreformatted
  · rw [if_pos hpreformatted, if_pos hpreformatted]
    exact .ok .nil
  rw [if_neg hpreformatted, if_neg hpreformatted, Bool.true_or, if_pos rfl, Bool.false_or]
  have hnew (next : Ident) := newLeaf_eq (.inl rfl) content next
  have hconvert (next : Ident) : (do
      let node ← newLeaf .hastText content
      return ([.record node], []) : Build Converted) next = _ :=
      Build.bind_eq_ok_iff.2 ⟨_, _, hnew next, rfl⟩
  rw [hconvert]
  cases hblank : Text.isBlankText content with
  | true => exact .ok (.dropped hblank)
  | false =>
    rw [Bool.not_false, if_pos rfl, hconvert]
    exact .ok (.single (.mk (.refl _)) hblank)

mutual

/-- The children of a tag are treated alike, and then its element is built in both runs or in
neither. -/
theorem convertItem_pruned (item : Item) (holder : Holder) (next next' : Ident) :
    Outcomes Eq Pruned (convertItem false holder item next)
      (convertItem true holder item next') := by
  cases item with
  | string cls content => exact convertString_pruned holder cls content next next'
  | tag name attributes children =>
    rw [convertItem, convertItem]
    refine Build.bind_outcomes (convertItems_gathered children (.tag name) next next') ?_
    rintro p q ⟨h, hp, hq⟩
    refine Build.bind_outcomes (h.newElement_outcomes hp hq attributes) fun a b hab => ?_
    rw [h.notices]
    exact .ok (.single hab.1 hab.2)

theorem convertItems_pruned (items : List Item) (holder : Holder) (next next' : Ident) :
    Outcomes Eq Pruned (convertItems false holder items next)
      (convertItems true holder items next') := by
  cases items with
  | nil =>
    rw [convertItems, convertItems]
    exact .ok .nil
  | cons item rest =>
    rw [convertItems, convertItems]
    refine Build.bind_outcomes (convertItem_pruned item holder next next') fun p q h => ?_
    refine Build.bind_outcomes (convertItems_pruned rest holder p.2 q.2) fun p' q' h' => ?_
    exact .ok (h.append h')

theorem convertItems_gathered (items : List Item) (holder : Holder) (next next' : Ident) :
    Outcomes Eq (fun p q => Pruned p q ∧ Gathered holder p ∧ Gathered holder q)
      (convertItems false holder items next) (convertItems true holder items next') :=
  (convertItems_pruned items holder next next').imp fun _ _ hp hq h =>
    ⟨h, gathered_of_convertItems hp, gathered_of_convertItems hq⟩

end

/-- Whatever the markup is, both conversions refuse it for the same reason or both convert it. If
they do, they report the same, and without blank texts the tree is the other one with exactly its
blank texts taken out, at every depth and up to the identities of the nodes. -/
theorem Markup.Source.convert_withoutBlankTexts (source : Source) (next next' : Ident) :
    Outcomes Eq (fun p q => p.1.1.Alike q.1.1.withoutBlankTexts ∧ p.1.2 = q.1.2)
      (source.convert false next) (source.convert true next') := by
  cases source with
  | document children =>
    refine Build.bind_outcomes (convertItems_gathered children .document next next') ?_
    rintro p q ⟨h, hp, hq⟩
    refine Build.bind_outcomes (h.newRoot_outcomes hp hq) fun a b hab => ?_
    exact .ok ⟨hab, h.notices⟩
  | tag name attributes children =>
    refine Build.bind_outcomes (convertItems_gathered children (.tag name) next next') ?_
    rintro p q ⟨h, hp, hq⟩
    refine Build.bind_outcomes (h.newElement_outcomes hp hq attributes) fun a b hab => ?_
    exact .ok ⟨hab.1, h.notices⟩

end Convert

end DocTree
