import DocTree.WellFormed

/-!
The schemas, taken apart. `Form.Declares` lists the kinds of declarations that schemas are made of,
so that a fact about every field of every form is proved once for each kind of declaration and not
once for each form. Main statements: `Form.declares` and `default_stores`.
-/
namespace DocTree

def Rule.isScalar : Rule → Bool
  | .text _ | .integer _ _ | .flag => true
  | _ => false

def Field.isScalar : Field → Bool
  | .kind | .position | .metadata | .children | .properties => false
  | _ => true

inductive Form.Declares (form : Form) : FieldSpec → Prop
  | kind : form.isNode → Declares form ⟨.kind, .kind, false, form.kind?.map .str⟩
  | position : form.isNode → Declares form (.optional .position (.place .position))
  | metadata : form.isNode → Declares form (.optional .metadata .metadata)
  | children : form.shape = .branch → Declares form (.defaulted .children .children (.tuple []))
  | properties : form = .element → Declares form (.defaulted .properties .properties (.map []))
  | place {f : Field} : form = .position → f = .start ∨ f = .stop →
    Declares form (.required f (.place .point))
  | required {f : Field} {rule : Rule} : f.isScalar → rule.isScalar →
    Declares form (.required f rule)
  | optional {f : Field} {rule : Rule} : f.isScalar → rule.isScalar →
    Declares form (.optional f rule)
  | flag {f : Field} : f.isScalar → Declares form (.defaulted f .flag (.bool false))

namespace Form

theorem declares_ownSpecs (form : Form) : ∀ s ∈ form.ownSpecs, form.Declares s := by
  cases form <;>
    simp only [ownSpecs, List.forall_mem_cons, List.not_mem_nil, false_implies, implies_true,
      and_true]
  case point => exact ⟨.required rfl rfl, .required rfl rfl, .optional rfl rfl⟩
  case position => exact ⟨.place rfl (.inl rfl), .place rfl (.inr rfl)⟩
  case element => exact ⟨.required rfl rfl, .properties rfl⟩
  case doctype => exact ⟨.required rfl rfl, .optional rfl rfl, .optional rfl rfl⟩
  case heading => exact .required rfl rfl
  case list => exact ⟨.flag rfl, .optional rfl rfl, .flag rfl⟩
  case listItem => exact ⟨.optional rfl rfl, .flag rfl⟩
  case code => exact ⟨.optional rfl rfl, .optional rfl rfl⟩
  case link => exact ⟨.required rfl rfl, .optional rfl rfl⟩
  case image => exact ⟨.required rfl rfl, .optional rfl rfl, .optional rfl rfl⟩

theorem declares {form : Form} {s : FieldSpec} (hs : s ∈ form.specs) : form.Declares s := by
  unfold specs at hs
  split at hs
  · rename_i hn
    simp only [List.mem_append, nodeSpecs, List.mem_cons, List.not_mem_nil, or_false] at hs
    rcases hs with ((rfl | rfl | rfl) | hs) | hs
    · exact .kind hn
    · exact .position hn
    · exact .metadata hn
    · unfold shapeSpecs at hs
      cases hshape : form.shape with
      | branch =>
        obtain rfl : s = _ := by simpa [hshape] using hs
        exact .children hshape
      | leaf =>
        obtain rfl : s = _ := by simpa [hshape] using hs
        exact .required rfl rfl
      | bare => simp [hshape] at hs
    · exact form.declares_ownSpecs s hs
  · exact form.declares_ownSpecs s hs

theorem isNode_of_branch {form : Form} (hb : form.shape = .branch) : form.isNode := by
  cases form <;> cases hb <;> rfl

theorem ne_position_of_isNode {form : Form} (hn : form.isNode) : form ≠ .position := by
  rintro rfl
  cases hn

theorem kind_mem_specs {form : Form} (hn : form.isNode) :
    ⟨.kind, .kind, false, form.kind?.map .str⟩ ∈ form.specs := by
  simp [specs, hn, nodeSpecs]

theorem position_mem_specs {form : Form} (hn : form.isNode) :
    .optional .position (.place .position) ∈ form.specs := by
  simp [specs, hn, nodeSpecs]

theorem children_mem_specs {form : Form} (hb : form.shape = .branch) :
    .defaulted .children .children (.tuple []) ∈ form.specs := by
  simp [specs, isNode_of_branch hb, shapeSpecs, hb]

theorem isNode_of_leaf {form : Form} (hl : form.shape = .leaf) : form.isNode := by
  cases form <;> cases hl <;> rfl

theorem value_mem_specs {form : Form} (hl : form.shape = .leaf) :
    .required .value (.text false) ∈ form.specs := by
  simp [specs, isNode_of_leaf hl, shapeSpecs, hl]

theorem line_mem_specs : .required .line (.integer (some 1) none) ∈ point.specs :=
  .head _

theorem column_mem_specs : .required .column (.integer (some 1) none) ∈ point.specs :=
  .tail _ (.head _)

theorem offset_mem_specs : .optional .offset (.integer (some 0) none) ∈ point.specs :=
  .tail _ (.tail _ (.head _))

theorem first_mem_specs : .required .start (.place .point) ∈ position.specs :=
  .head _

theorem last_mem_specs : .required .stop (.place .point) ∈ position.specs :=
  .tail _ (.head _)

theorem ownSpecs_subset {form : Form} (hn : form.isNode) : form.ownSpecs ⊆ form.specs := by
  unfold specs
  rw [if_pos hn]
  exact List.subset_append_right _ _

theorem ordered_mem_specs : .defaulted .ordered .flag (.bool false) ∈ list.specs :=
  ownSpecs_subset rfl (.head _)

theorem start_mem_specs : .optional .start (.integer none none) ∈ list.specs :=
  ownSpecs_subset rfl (.tail _ (.head _))

theorem field_of_rule (form : Form) : ∀ s ∈ form.specs,
    (s.rule = .metadata → s.field = .metadata) ∧ (s.rule = .children → s.field = .children) := by
  cases form <;> decide

theorem branch_of_children (form : Form) :
    ∀ s ∈ form.specs, s.field = .children → form.shape = .branch := by
  cases form <;> decide

theorem rule_of_children (form : Form) :
    ∀ s ∈ form.specs, s.field = .children → s.rule = .children := by
  cases form <;> decide

theorem isNode_of_kind_field (form : Form) :
    ∀ s ∈ form.specs, s.field = .kind → form.isNode := by
  cases form <;> decide

theorem not_place_of_point : ∀ s ∈ point.specs, ∀ f, s.rule ≠ .place f := by
  intro s hs f hf
  have hscalar : s.rule.isScalar := (by decide : ∀ s ∈ point.specs, s.rule.isScalar) s hs
  rw [hf] at hscalar
  cases hscalar

theorem not_children_of_point : ∀ s ∈ point.specs, s.rule ≠ .children := by
  decide

theorem place_of_position : ∀ s ∈ position.specs, s.rule = .place .point := by
  decide

theorem position_of_place {form : Form} {s : FieldSpec} (hs : s ∈ form.specs) (hn : form.isNode)
    {f : Form} (hr : s.rule = .place f) : f = .position := by
  cases declares hs with
  | position => exact (Rule.place.inj hr).symm
  | place hf => simp [hf, isNode] at hn
  | required _ h | optional _ h =>
    obtain rfl := hr
    simp [Rule.isScalar] at h
  | _ => simp [FieldSpec.defaulted, FieldSpec.optional] at hr

theorem field_of_position (form : Form) :
    ∀ s ∈ form.specs, s.rule = .place .position → s.field = .position := by
  cases form <;> decide

theorem field_of_properties (form : Form) :
    ∀ s ∈ form.specs, s.rule = .properties → s.field = .properties := by
  cases form <;> decide

theorem field_of_key (form : Form) : ∀ s ∈ form.specs, ∀ t ∈ form.specs, ∀ key ∈ s.field.keys,
    key ∈ t.field.keys → s.field = t.field := by
  cases form <;> decide

theorem label_eq_key (form : Form) : form.isNode = false →
    ∀ s ∈ form.specs, s.field.label = s.field.key ∧ s.field ≠ .children := by
  cases form <;> decide

theorem nodup_key (form : Form) : (form.specs.map fun s => s.field.key).Nodup := by
  cases form <;> decide

end Form

theorem Field.children_not_mem_keys {f : Field} (h : f ≠ .children) : "children" ∉ f.keys := by
  cases f with
  | children => exact absurd rfl h
  | _ => decide

theorem Field.key_mem_keys (f : Field) : f.key ∈ f.keys := by
  cases f <;> decide

theorem Field.label_mem_keys (f : Field) : f.label ∈ f.keys := by
  cases f <;> decide

/-- Every default may be stored in the field whose default it is. -/
theorem default_stores {form : Form} (hk : form.isNode → form.kind?.isSome) {s : FieldSpec}
    (hs : s ∈ form.specs) {v : Value} (hv : s.default? = some v) : s.Stores form v := by
  cases Form.declares hs with
  | kind hn =>
    obtain ⟨kind, hkind⟩ := Option.isSome_iff_exists.1 (hk hn)
    have hv : Value.str kind = v := by simpa [hkind] using hv
    exact .inr ⟨kind, hkind, hv.symm⟩
  | position | metadata | optional => exact .inl ⟨rfl, (Option.some.inj hv).symm⟩
  | children => exact .inr ⟨[], (Option.some.inj hv).symm⟩
  | properties => exact .inr ⟨[], (Option.some.inj hv).symm, by simp⟩
  | place | required => simp [FieldSpec.required] at hv
  | flag => exact .inr ⟨false, (Option.some.inj hv).symm⟩

theorem default_of_nullable {form : Form} {s : FieldSpec} (hs : s ∈ form.specs)
    (hn : s.nullable) : s.default? = some .null := by
  cases Form.declares hs with
  | position | metadata | optional => rfl
  | _ => cases hn

theorem Rule.Stores.ne_null {form : Form} {rule : Rule} {v : Value} (h : rule.Stores form v) :
    v ≠ .null := by
  rintro rfl
  cases rule with
  | kind =>
    obtain ⟨kind, -, hv⟩ := h
    simp at hv
  | text | integer | metadata | properties =>
    obtain ⟨x, hv, -⟩ := h
    simp at hv
  | flag | children =>
    obtain ⟨x, hv⟩ := h
    simp at hv
  | place f =>
    cases f with
    | position =>
      obtain ⟨id, first, last, p, q, hv, -⟩ := h
      simp at hv
    | _ =>
      obtain ⟨p, ⟨id, hv⟩, -⟩ := h
      simp at hv

theorem place_declared {form : Form} {s : FieldSpec} (hs : s ∈ form.specs) {f : Form}
    (hr : s.rule = .place f) :
    (f = .point ∨ f = .position) ∧ ∀ key ∈ s.field.keys, key ∉ Field.metadata.keys := by
  cases Form.declares hs with
  | position =>
    obtain rfl := Rule.place.inj hr
    exact ⟨.inr rfl, by decide⟩
  | place _ hf =>
    obtain rfl := Rule.place.inj hr
    rcases hf with rfl | rfl <;> exact ⟨.inl rfl, by decide⟩
  | required _ h | optional _ h =>
    obtain rfl := hr
    simp [Rule.isScalar] at h
  | _ => simp [FieldSpec.defaulted, FieldSpec.optional] at hr

theorem Form.isNode_of_kind {form : Form} {kind : String} (h : form.kind? = some kind) :
    form.isNode := by
  cases form <;> cases h <;> rfl

end DocTree
