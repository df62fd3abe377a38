import DocTree.Proofs.Outcome
import DocTree.Tree.Offence

/-!
What the check of an edge decides. A child is looked at without its siblings, and children are
refused for the first of them that may not stand there. Main statements: `checkChild_eq_error_iff`,
`checkChildren_eq_ok_iff` and `checkChildren_eq_error_iff`.
-/
namespace DocTree

theorem Value.isAmong_of_barred {texts : List String} {v part : Value} (h : v.BarredBy part) :
    v.isAmong texts = .error (.breakdown (.notHashable part)) := by
  obtain ⟨hset, hpart⟩ := h
  cases v with
  | set xs => exact absurd rfl (hset xs)
  | _ => simp [isAmong, hpart]

theorem Value.isAmong_of_not_barred (texts : List String) {v : Value}
    (h : ∀ part, ¬ v.BarredBy part) : v.isAmong texts = .ok (texts.any v.isText) := by
  by_cases hset : ∃ xs, v = .set xs
  · obtain ⟨xs, rfl⟩ := hset
    have hnone : texts.any (Value.set xs).isText = false := List.any_eq_false.2 fun _ _ => nofun
    rw [hnone, isAmong]
  · have hpart : v.unhashable? = none :=
      Option.eq_none_iff_forall_ne_some.2 fun part hp => h part ⟨fun xs he => hset ⟨xs, he⟩, hp⟩
    cases v with
    | set xs => exact absurd ⟨xs, rfl⟩ hset
    | _ => simp [isAmong, hpart]

theorem Value.not_barredBy_str {s : String} {part : Value} : ¬ (str s).BarredBy part :=
  fun h => nomatch h.2

theorem checkChild_record {holder : Form} {r : Record} (hn : r.form.isNode) :
    checkChild holder (.record r) =
      match r.get? .kind with
      | none => .error (.breakdown (.noAttribute (.record r) "kind"))
      | some kind =>
        if r.form.family ≠ holder.family then .error (.foreignChild holder r.form.family kind)
        else (kind.isAmong holder.allowedChildren).bind fun found =>
          if found then .ok () else .error (.forbiddenChild holder kind) := by
  simp only [checkChild, Value.node?_record, hn, if_true]
  cases hk : r.get? .kind with
  | none =>
    rw [Value.attribute_of_get?_none hk]
    rfl
  | some kind =>
    rw [Value.attribute_of_get? hk]
    rfl

theorem Record.get?_of_get {r : Record} {f : Field} {v : Value} (h : r.get f = v)
    (hv : v ≠ .null) : r.get? f = some v := by
  unfold get at h
  cases hf : r.get? f with
  | none => exact absurd (by simpa [hf] using h.symm) hv
  | some w => simpa [hf] using h

theorem Record.get?_kind_of_text {r : Record} {kind : String} (h : r.kind = .str kind) :
    r.get? .kind = some r.kind := by
  rw [h]
  exact get?_of_get h nofun

def Record.byKind (r : Record) (fault : Value → Violation) : Violation :=
  match r.get? .kind with
  | some kind => fault kind
  | none => .breakdown (.noAttribute (.record r) "kind")

theorem Record.byKind_of_get? {r : Record} {kind : Value} (h : r.get? .kind = some kind)
    (fault : Value → Violation) : r.byKind fault = fault kind := by
  rw [byKind, h]

theorem Record.byKind_of_get?_none {r : Record} (h : r.get? .kind = none)
    (fault : Value → Violation) :
    r.byKind fault = .breakdown (.noAttribute (.record r) "kind") := by
  rw [byKind, h]

theorem Record.attribute_kind_bind (r : Record) (fault : Value → Violation) :
    ((Value.record r).attribute .kind >>= fun kind => throw (fault kind) : Except Violation Unit) =
      .error (r.byKind fault) := by
  unfold byKind
  cases hk : r.get? .kind with
  | none =>
    rw [Value.attribute_of_get?_none hk]
    rfl
  | some kind =>
    rw [Value.attribute_of_get? hk]
    rfl

theorem checkChild_of_fitsUnder {holder : Form} {child : Value}
    (h : Record.FitsUnder holder child) : checkChild holder child = .ok () := by
  obtain ⟨r, kind, rfl, hn, hf, hk, hm⟩ := h
  have hget : r.get? .kind = some (.str kind) := Record.get?_of_get hk nofun
  simp [checkChild_record hn, hget, hf, Except.bind, hm]

theorem checkChild_of_edgeFault {holder : Form} {child : Value} {v : Violation}
    (h : EdgeFault holder child v) : checkChild holder child = .error v := by
  cases h with
  | notNode hn => simp [checkChild, hn]
  | nameless hn hk => simp [checkChild_record hn, hk]
  | foreign hn hk hf => simp [checkChild_record hn, hk, hf]
  | barred hn hk hf hb =>
    simp [checkChild_record hn, hk, hf, Value.isAmong_of_barred hb, Except.bind]
  | forbidden hn hk hf hb hno =>
    have ha : ¬ holder.allowedChildren.any _ := fun h => by
      obtain ⟨allowed, hm, ht⟩ := List.any_eq_true.1 h
      exact hno allowed hm (Value.isText_iff.1 ht)
    simp only [checkChild_record hn, hk, hf, ne_eq, not_true, if_false,
      Value.isAmong_of_not_barred _ hb, Except.bind]
    exact if_neg ha

theorem fitsUnder_or_edgeFault (holder : Form) (child : Value) :
    Record.FitsUnder holder child ∨ ∃ v, EdgeFault holder child v := by
  cases hr : child.node? with
  | none => exact .inr ⟨_, .notNode hr⟩
  | some r =>
    obtain ⟨rfl, hn⟩ := Value.node?_eq_some.1 hr
    cases hk : r.get? .kind with
    | none => exact .inr ⟨_, .nameless hn hk⟩
    | some kind =>
      by_cases hf : r.form.family = holder.family
      · by_cases hb : ∃ part, kind.BarredBy part
        · obtain ⟨part, hb⟩ := hb
          exact .inr ⟨_, .barred hn hk hf hb⟩
        · by_cases hm : ∃ allowed ∈ holder.allowedChildren, kind = .str allowed
          · obtain ⟨allowed, hm, rfl⟩ := hm
            exact .inl ⟨r, allowed, rfl, hn, hf, by simp [Record.kind, Record.get, hk], hm⟩
          · refine .inr ⟨_, .forbidden hn hk hf (not_exists.1 hb) fun allowed ha he => ?_⟩
            exact hm ⟨allowed, ha, he⟩
      · exact .inr ⟨_, .foreign hn hk hf⟩

theorem checkChild_eq_error_iff {holder : Form} {child : Value} {v : Violation} :
    checkChild holder child = .error v ↔ EdgeFault holder child v := by
  refine ⟨fun h => ?_, checkChild_of_edgeFault⟩
  rcases fitsUnder_or_edgeFault holder child with hfit | ⟨w, hw⟩
  · simp [checkChild_of_fitsUnder hfit] at h
  · rwa [← Except.error.inj ((checkChild_of_edgeFault hw).symm.trans h)]

example :
    checkChild .hastRoot (.record ⟨1, .hastText, [(.kind, .list [.str "text"])]⟩) =
      .error (.breakdown (.notHashable (.list [.str "text"]))) := rfl

theorem Record.checkChild_eq_ok_iff {holder : Form} {child : Value} :
    checkChild holder child = .ok () ↔ FitsUnder holder child := by
  refine ⟨fun h => ?_, checkChild_of_fitsUnder⟩
  rcases fitsUnder_or_edgeFault holder child with hfit | ⟨w, hw⟩
  · exact hfit
  · simp [checkChild_of_edgeFault hw] at h

theorem checkChildren_cons (holder : Form) (c : Value) (cs : List Value) :
    checkChildren holder (c :: cs) =
      match checkChild holder c with
      | .error v => .error v
      | .ok () => checkChildren holder cs := by
  change (checkChild holder c >>= fun _ => checkChildren holder cs) = _
  cases checkChild holder c <;> rfl

theorem checkChildren_eq_ok_iff {holder : Form} {cs : List Value} :
    checkChildren holder cs = .ok () ↔ ∀ c ∈ cs, Record.FitsUnder holder c := by
  induction cs with
  | nil => simp [checkChildren, List.forM, pure, Except.pure]
  | cons c cs ih =>
    rw [checkChildren_cons, List.forall_mem_cons, ← ih, ← Record.checkChild_eq_ok_iff]
    cases checkChild holder c <;> simp

theorem checkChildren_eq_error_iff {holder : Form} {cs : List Value} {v : Violation} :
    checkChildren holder cs = .error v ↔
      ∃ good bad rest, cs = good ++ bad :: rest ∧ (∀ c ∈ good, Record.FitsUnder holder c) ∧
        EdgeFault holder bad v := by
  induction cs with
  | nil => simp [checkChildren, List.forM, pure, Except.pure]
  | cons c cs ih =>
    rw [checkChildren_cons]
    cases hc : checkChild holder c with
    | error w =>
      have hno : ¬ Record.FitsUnder holder c := by simp [← Record.checkChild_eq_ok_iff, hc]
      constructor
      · rintro ⟨⟩
        exact ⟨[], c, cs, rfl, by simp, checkChild_eq_error_iff.1 hc⟩
      · rintro ⟨good, bad, rest, he, hgood, hbad⟩
        cases good with
        | nil =>
          obtain ⟨rfl, rfl⟩ := List.cons.inj he
          obtain rfl := Except.error.inj (hc.symm.trans (checkChild_eq_error_iff.2 hbad))
          rfl
        | cons g good =>
          obtain ⟨rfl, rfl⟩ := List.cons.inj he
          exact absurd (hgood c (by simp)) hno
    | ok u =>
      have hfit : Record.FitsUnder holder c := Record.checkChild_eq_ok_iff.1 hc
      constructor
      · intro h
        obtain ⟨good, bad, rest, rfl, hgood, hbad⟩ := ih.1 h
        exact ⟨c :: good, bad, rest, rfl, List.forall_mem_cons.2 ⟨hfit, hgood⟩, hbad⟩
      · rintro ⟨good, bad, rest, he, hgood, hbad⟩
        cases good with
        | nil =>
          obtain ⟨rfl, rfl⟩ := List.cons.inj he
          simp [checkChild_eq_error_iff.2 hbad] at hc
        | cons g good =>
          obtain ⟨rfl, rfl⟩ := List.cons.inj he
          exact ih.2 ⟨good, bad, rest, rfl, fun x hx => hgood x (by simp [hx]), hbad⟩

end DocTree
