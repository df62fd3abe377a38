import DocTree.Proofs.Session

/-!
Checks of what was checked before. A check breaks off only at what an unchecked record stores; of
data whose records are established it comes to a conclusion, which is a result or a violation. Each
function that checks has one lemma here, and those of its callers are put together from it. Main
statements: `gatherChildren_conclusive`, `check_conclusive` and `load_conclusive`.
-/
namespace DocTree

theorem Violation.ne_breakdown_iff {w : Violation} :
    (∀ cause, w ≠ .breakdown cause) ↔ w.faultClass ∈ [.shape, .field, .order] := by
  cases w with
  | breakdown cause => cases cause <;> simp [faultClass, Breakdown.faultClass]
  | _ => simp [faultClass]

/-- The check does not break off. -/
def Conclusive {α : Type} (x : Except Violation α) : Prop :=
  ∀ cause, x ≠ .error (.breakdown cause)

section Conclusive

variable {α β : Type} {x : Except Violation α}

theorem Conclusive.ok (a : α) : Conclusive (.ok a) :=
  nofun

theorem Conclusive.error {w : Violation} (h : ∀ cause, w ≠ .breakdown cause) :
    Conclusive (.error w : Except Violation α) :=
  fun cause he => h cause (Except.error.inj he)

theorem Conclusive.bind {f : α → Except Violation β} (hx : Conclusive x)
    (hf : ∀ a, x = .ok a → Conclusive (f a)) : Conclusive (x >>= f) := by
  cases x with
  | ok a => exact hf a rfl
  | error w => exact .error fun cause he => hx cause (he ▸ rfl)

theorem Conclusive.mapM {f : α → Except Violation β} {xs : List α}
    (h : ∀ a ∈ xs, Conclusive (f a)) : Conclusive (xs.mapM f) := by
  induction xs with
  | nil => exact .ok []
  | cons a xs ih =>
    obtain ⟨ha, hxs⟩ := List.forall_mem_cons.1 h
    rw [List.mapM_cons]
    exact ha.bind fun _ _ => (ih hxs).bind fun _ _ => .ok _

theorem Conclusive.map (hx : Conclusive x) (f : α → β) : Conclusive (x.map f) := by
  cases x with
  | ok a => exact .ok (f a)
  | error w => exact .error fun cause he => hx cause (he ▸ rfl)

theorem Conclusive.build_bind {x : Build α} {f : α → Build β} {next : Ident}
    (hx : Conclusive (x next))
    (hf : ∀ a mid, x next = .ok (a, mid) → Conclusive (f a mid)) :
    Conclusive ((x >>= f) next) :=
  Conclusive.bind hx fun p hp => hf p.1 p.2 hp

end Conclusive

section Children

variable {form : Form} {next : Ident}

theorem Record.WellFormed.named {r : Record} (h : r.WellFormed) : r.Named := by
  obtain ⟨kind, -, hk⟩ := (h.sound r (mem_preorder_iff.2 (.inl rfl))).kind_eq h.isNode
  exact ⟨_, get?_of_get hk nofun, fun _ => Value.not_barredBy_str⟩

theorem checkChildren_conclusive {cs : List Value}
    (h : ∀ c ∈ cs, ∀ r ∈ c.node?, r.Named) : Conclusive (checkChildren form cs) := by
  intro cause hc
  obtain ⟨good, bad, rest, rfl, -, hbad⟩ := checkChildren_eq_error_iff.1 hc
  have hclass := hbad.faultClass (h bad (by simp))
  cases cause <;> cases hclass

theorem checkVisits_conclusive {nodes : List Record} (h : ∀ r ∈ nodes, r.WellFormed) :
    Conclusive (checkVisits form [] (visitsOfItems (nodes.map .record))) := by
  have hvisits := @checkVisits_nodes form [] (nodes.flatMap Record.preorder)
  rw [List.map_nil] at hvisits
  rw [visitsOfItems_of_walkable fun r hr => (h r hr).walkable, hvisits]
  cases hrepeated : firstRepeated? (List.map Record.id []) (nodes.flatMap Record.preorder) with
  | none => exact .ok ()
  | some n =>
    obtain ⟨r, hr, hn⟩ := List.mem_flatMap.1 (mem_of_firstRepeated? hrepeated)
    have hkind := ((h r hr).sound n hn).get?_kind
      (Record.isNode_of_mem_preorder (h r hr).isNode hn)
    dsimp only
    rw [n.byKind_of_get? hkind]
    exact .error (by simp)

theorem gatherChildren_conclusive {v : Value} (hv : v.Settled next) :
    Conclusive (gatherChildren form v) := by
  unfold gatherChildren
  cases hxs : v.sequence? with
  | none => exact .error (by simp)
  | some xs =>
    have hnodes : ∀ x ∈ xs, ∀ r ∈ x.node?, r.WellFormed := by
      intro x hx r hr
      obtain ⟨rfl, hn⟩ := Value.node?_eq_some.1 hr
      exact (hv r (mem_outerRecords_of_sequence? hxs hx)).node hn
    refine (checkChildren_conclusive fun x hx r hr => (hnodes x hx r hr).named).bind
      fun _ hfit => ?_
    have hrecords : xs = (xs.filterMap Value.node?).map .record :=
      Record.eq_map_record_of_fitsUnder (checkChildren_eq_ok_iff.1 hfit)
    refine Conclusive.bind ?_ fun _ _ => .ok _
    rw [hrecords]
    refine checkVisits_conclusive fun r hr => ?_
    obtain ⟨x, hx, hn⟩ := List.mem_filterMap.1 hr
    exact hnodes x hx r hn

end Children

section Fields

variable {form : Form} {es : Entries} {place : Form → Value → Except Violation Record}

theorem checkProperty_conclusive (e : Value × Value) : Conclusive (checkProperty e) := by
  obtain ⟨k, v⟩ := e
  cases k with
  | str name =>
    cases hv : v.property? with
    | some w =>
      simp only [checkProperty, hv]
      exact .ok _
    | none =>
      simp only [checkProperty, hv]
      exact .error (by simp)
  | _ => exact .error (by simp)

theorem gatherProperties_conclusive (v : Value) : Conclusive (gatherProperties v) := by
  cases v with
  | null => exact .ok _
  | map es => exact (Conclusive.mapM fun e _ => checkProperty_conclusive e).map _
  | _ => exact .error (by simp)

theorem Rule.accept_conclusive {rule : Rule} {v : Value} (next : Ident)
    (hv : rule = .children → v.Settled next)
    (hplace : ∀ f, rule = .place f → Conclusive (place f v)) :
    Conclusive (rule.accept form place v) := by
  cases rule with
  | place f => exact (hplace f rfl).map _
  | children => exact (gatherChildren_conclusive (hv rfl)).map _
  | properties => exact (gatherProperties_conclusive v).map _
  | _ => exact .ok _

theorem FieldSpec.read_conclusive {s : FieldSpec}
    {accept : Rule → Value → Except Violation Verdict}
    (h : ∀ key v, s.field.find? es = some (key, v) → Conclusive (accept s.rule v)) :
    Conclusive (s.read accept es) := by
  unfold read
  cases hf : s.field.find? es with
  | none => cases s.default? <;> exact .ok _
  | some p =>
    obtain ⟨key, v⟩ := p
    dsimp only
    split
    · exact .ok _
    · exact (h key v hf).map _

theorem readFields_conclusive {accept : Rule → Value → Except Violation Verdict}
    {specs : List FieldSpec} (h : ∀ s ∈ specs, Conclusive (s.read accept es)) :
    Conclusive (readFields accept es specs) := by
  induction specs with
  | nil => exact .ok _
  | cons s specs ih =>
    obtain ⟨hs, hspecs⟩ := List.forall_mem_cons.1 h
    rw [readFields]
    refine hs.bind fun verdict _ => (ih hspecs).bind fun _ _ => ?_
    cases verdict <;> exact .ok _

theorem assemble_conclusive {id : Ident}
    (h : ∀ s ∈ form.specs, ∀ key v, s.field.find? es = some (key, v) →
      Conclusive (Rule.accept form place s.rule v)) :
    Conclusive (assemble form id (Rule.accept form place) es) := by
  have hshape : Conclusive (checkShape form es) := by
    unfold checkShape
    split
    · exact .ok ()
    · split
      · exact .error (by simp)
      · split
        · exact .error (by simp)
        · exact .ok ()
  refine hshape.bind fun _ _ => ?_
  refine (readFields_conclusive fun s hs => s.read_conclusive (h s hs)).bind fun read _ => ?_
  dsimp only
  split
  · exact .ok _
  · exact .error (by simp)

end Fields

section Check

variable {form : Form} {id : Ident} {place : Form → Value → Except Violation Record} {v : Value}

theorem checkWith_conclusive
    (hassemble : ∀ es, v = .map es → Conclusive (assemble form id (Rule.accept form place) es))
    (hmade : ∀ es r, v = .map es → assemble form id (Rule.accept form place) es = .ok r →
      Conclusive (checkCoupled form r))
    (hkept : ∀ r, v = .record r → r.form.isA form → Conclusive (checkCoupled form r)) :
    Conclusive (checkWith form id place v) := by
  cases v with
  | map es =>
    exact (hassemble es rfl).bind fun r hr => (hmade es r rfl hr).bind fun _ _ => .ok r
  | record r =>
    by_cases hr : r.form.isA form = true
    · simp only [checkWith, hr, if_true]
      exact (hkept r rfl hr).bind fun _ _ => .ok r
    · simp only [checkWith, hr]
      exact .error (by simp)
  | _ => exact .error (by simp)

theorem checkPoints_conclusive {first last : Value} {p q : Place} (hp : first.IsPointAt p)
    (hq : last.IsPointAt q) : Conclusive (checkPoints first last) := by
  obtain ⟨start, -, hstart⟩ := hp.denotes
  obtain ⟨stop, -, hstop⟩ := hq.denotes
  rw [checkPoints_of_ofValue? hstart hstop, checkOffsets_of_ofValue? hstart hstop]
  split
  · exact .error (by simp)
  · split
    · split
      · exact .error (by simp)
      · exact .ok ()
    · exact .ok ()

theorem checkCoupled_conclusive {r : Record}
    (h : ∀ s ∈ form.specs, s.Stores form (r.get s.field)) : Conclusive (checkCoupled form r) := by
  by_cases hposition : form = .position
  · subst hposition
    obtain ⟨hn, -⟩ | ⟨p, hp⟩ := h _ Form.first_mem_specs
    · simp [FieldSpec.required] at hn
    obtain ⟨hn, -⟩ | ⟨q, hq⟩ := h _ Form.last_mem_specs
    · simp [FieldSpec.required] at hn
    rw [checkCoupled_position_eq hp hq]
    exact checkPoints_conclusive hp hq
  by_cases hlist : form = .list
  · subst hlist
    rcases h _ Form.start_mem_specs with ⟨-, hnull⟩ | ⟨n, hn, -⟩
    · have hnull : r.get .start = .null := hnull
      simp only [checkCoupled, hnull, Value.isNull, Bool.not_true, Bool.and_false]
      exact .ok ()
    · rw [checkCoupled_list_int hn]
      split
      · exact .error (by simp)
      · exact .ok ()
  · rw [checkCoupled_of_ne hposition hlist]
    exact .ok ()

theorem Value.IsPosition.coupled_conclusive {r : Record} (h : (Value.record r).IsPosition) :
    Conclusive (checkCoupled .position r) := by
  obtain ⟨p, q, hp, hq, -⟩ := h.points
  rw [checkCoupled_position_eq hp hq]
  exact checkPoints_conclusive hp hq

theorem checkPoint_conclusive : Conclusive (checkWith .point id place v) := by
  have hcoupled (r : Record) : Conclusive (checkCoupled .point r) := .ok ()
  refine checkWith_conclusive (fun es _ => assemble_conclusive fun s hs key w _ => ?_)
    (fun _ r _ _ => hcoupled r) fun r _ _ => hcoupled r
  refine Rule.accept_conclusive id (fun hr => ?_) fun f hf =>
    absurd hf (Form.not_place_of_point s hs f)
  cases Form.point.branch_of_children s hs ((Form.point.field_of_rule s hs).2 hr)

theorem checkPlace_conclusive (hf : form = .point ∨ form = .position)
    (hv : ∀ q ∈ v.outerRecords, q.Placed) : Conclusive (checkPlace id form v) := by
  rcases hf with rfl | rfl
  · exact checkPoint_conclusive
  refine checkWith_conclusive (fun es _ => ?_) (fun es r he hr => ?_) fun r he hr => ?_
  · refine assemble_conclusive fun s hs key w _ => ?_
    refine Rule.accept_conclusive id (fun hr => ?_) fun _ _ => checkPoint_conclusive
    cases Form.position.branch_of_children s hs ((Form.position.field_of_rule s hs).2 hr)
  · subst he
    obtain ⟨hshape, -, -, -, -, htakes⟩ := assemble_eq_ok_iff.1 hr
    exact checkCoupled_conclusive (stores_of_takes (fun hn => (hshape hn).1) htakes
      fun s hs _ _ _ _ hrule hw hq => points_stores hv hs hrule hw hq)
  · subst he
    refine ((hv r (by simp [Value.outerRecords])).position ?_).coupled_conclusive
    simpa [Form.isA] using hr

/-- A check of what may be used comes to a conclusion. -/
theorem check_conclusive {next : Ident} (hv : v.Usable next) : Conclusive (check form next v) := by
  refine checkWith_conclusive (fun es he => ?_) (fun es r he hr => ?_) fun r he hr => ?_
  · subst he
    have hsettled {key : String} {w : Value} (hw : Entries.get? es key = some w)
        (hkey : key ∉ Field.metadata.keys) : w.Settled next := fun q hq => hv key w hw hkey q hq
    refine assemble_conclusive fun s hs key w hw => ?_
    obtain ⟨hkey, hget⟩ := Field.find?_eq_some hw
    refine Rule.accept_conclusive next (fun hrule => ?_) fun f hrule => ?_
    · rw [(form.field_of_rule s hs).2 hrule] at hkey
      obtain rfl := List.mem_singleton.1 hkey
      exact hsettled hget (by decide)
    · obtain ⟨hf, hkeys⟩ := place_declared hs hrule
      exact checkPlace_conclusive hf fun q hq => (hsettled hget (hkeys key hkey) q hq).toPlaced
  · subst he
    obtain ⟨hshape, -, -, -, -, htakes⟩ := assemble_eq_ok_iff.1 hr
    refine checkCoupled_conclusive (stores_of_takes (fun hn => (hshape hn).1) htakes ?_)
    intro s hs f key w q hrule hw hq
    obtain ⟨hf, hkeys⟩ := place_declared hs hrule
    obtain ⟨hkey, hget⟩ := Field.find?_eq_some hw
    exact checkPlace_stores hf (fun x hx => (hv key w hget (hkeys key hkey) x hx).toPlaced) hq form
  · subst he
    have hv : r.Established next := hv
    by_cases hposition : form = .position
    · subst hposition
      exact (hv.position (by simpa [Form.isA] using hr)).coupled_conclusive
    by_cases hlist : form = .list
    · subst hlist
      have hform : r.form = .list := by simpa [Form.isA] using hr
      have hwf := hv.node (by simp [hform, Form.isNode])
      exact checkCoupled_conclusive
        (hform ▸ (hwf.sound r (Record.mem_preorder_iff.2 (.inl rfl))).stores)
    · rw [checkCoupled_of_ne hposition hlist]
      exact .ok ()

theorem create_conclusive {next : Ident} (hv : v.Usable next) :
    Conclusive (create form v next) :=
  (check_conclusive hv).map _

end Check

section Load

variable {forms : Registry} {family : String}

mutual

/-- Loading data comes to a conclusion if the records in the data are established. -/
theorem load_conclusive (v : Value) {next : Ident} (hv : v.Settled next) :
    Conclusive (load forms family v next) := by
  cases v with
  | map es =>
    rw [load_map]
    cases forms.formOf? es with
    | none => exact .error (by simp)
    | some form =>
      have hstep : Conclusive (loadEntries forms family form es next) ∧ ∀ loaded mid,
          loadEntries forms family form es next = .ok (loaded, mid) →
            Entries.Settled mid loaded := by
        unfold loadEntries
        split
        · exact ⟨loadChildren_conclusive es hv, fun _ _ hl => (loadChildren_settled es hv hl).2⟩
        · refine ⟨.ok _, fun loaded mid hl => ?_⟩
          obtain ⟨rfl, rfl⟩ := Build.pure_eq_ok_iff.1 hl
          exact hv
      exact hstep.1.build_bind fun loaded mid hl =>
        create_conclusive (usable_of_outerRecords (v := .map loaded) (hstep.2 loaded mid hl))
  | _ => exact .error (by simp)
termination_by 2 * sizeOf v

theorem loadChildren_conclusive (es : Entries) {next : Ident} (he : Entries.Settled next es) :
    Conclusive (loadChildren forms family es next) := by
  rcases loadChildren_cases forms family es with
    ⟨-, hl⟩ | ⟨before, v, after, xs, rfl, -, hv, hl⟩
  · rw [hl]
    exact .ok _
  · rw [hl]
    obtain ⟨-, hcons⟩ := Entries.settled_append.1 he
    obtain ⟨-, hval, -⟩ := Entries.settled_cons.1 hcons
    have hxs : ∀ x ∈ xs, x.Settled next := by
      rcases hv with rfl | rfl <;> exact settled_list.1 hval
    have hmem : (.str "children", v) ∈ before ++ (.str "children", v) :: after := by simp
    have hlt := sizeOf_items_lt hmem hv
    exact (loadItems_conclusive xs hxs).build_bind fun _ _ _ => .ok _
termination_by 2 * sizeOf es + 1

theorem loadItems_conclusive (xs : List Value) {next : Ident} (hx : ∀ x ∈ xs, x.Settled next) :
    Conclusive (loadItems forms family xs next) := by
  cases xs with
  | nil =>
    rw [loadItems]
    exact .ok _
  | cons x xs =>
    obtain ⟨hfirst, hothers⟩ := List.forall_mem_cons.1 hx
    rw [loadItems_cons]
    have hitem : Conclusive (loadItem forms family x next) := by
      unfold loadItem
      cases x.node? with
      | some r => exact .ok _
      | none => exact load_conclusive x hfirst
    refine hitem.build_bind fun r mid hr => ?_
    have hle : next ≤ mid := by
      rcases loadItem_eq_ok_iff.1 hr with ⟨-, rfl⟩ | ⟨-, hr⟩
      · exact Nat.le_refl next
      · exact (load_established x hfirst hr).1
    exact (loadItems_conclusive xs fun y hy => (hothers y hy).mono hle).build_bind
      fun _ _ _ => .ok _
termination_by 2 * sizeOf xs

end

end Load

end DocTree
