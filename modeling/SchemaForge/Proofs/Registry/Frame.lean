import SchemaForge.Proofs.Registry.Edits

/-!
# What filters leave alone

Writing filters adds conditions, sort orders and operators under names of their own. A
type of any other name keeps its kind, its directives and, but for the arguments of its
lines, its lines; and no directive is written anywhere.
-/
namespace SchemaForge

/-- The names that filters are written under. -/
def IsDerived (name : String) : Prop :=
  (∃ type field, name = whereInputName type field)
    ∨ (∃ type field, name = orderEnumName type field) ∨ ∃ kind, name = operatorInputName kind

theorem isDerived_whereInputName (type field : String) : IsDerived (whereInputName type field) :=
  .inl ⟨type, field, rfl⟩

theorem isDerived_orderEnumName (type field : String) : IsDerived (orderEnumName type field) :=
  .inr (.inl ⟨type, field, rfl⟩)

theorem isDerived_operatorInputName (kind : String) : IsDerived (operatorInputName kind) :=
  .inr (.inr ⟨kind, rfl⟩)

/-- Derived names are long, so that short names are none. -/
theorem length_of_isDerived {name : String} (h : IsDerived name) : 11 ≤ name.length := by
  have hwhere : (capitalized whereWord).length = 12 := by decide
  have horder : (capitalized orderWord).length = 11 := by decide
  rcases h with ⟨t, f, rfl⟩ | ⟨t, f, rfl⟩ | ⟨kind, rfl⟩
  · rw [whereInputName, derivedName, String.length_append, String.length_append, hwhere]
    omega
  · rw [orderEnumName, derivedName, String.length_append, String.length_append, horder]
    omega
  · have hword : "GeneOperator".length = 12 := by decide
    rw [operatorInputName, String.length_append, String.length_append, hword]
    omega

namespace Registry

/-- One registry comes from another by writing filters. -/
structure Filtered (r r' : Registry) : Prop where
  /-- No type is declared twice. -/
  nodup : (Table.keys r).Nodup → (Table.keys r').Nodup
  /-- No line gets directives. -/
  uses : ∀ type field, (r'.line type field).directives ⊆ (r.line type field).directives
  /-- No type gets directives. -/
  typeUses : ∀ type, (r'.entry type).directives ⊆ (r.entry type).directives
  /-- Other types keep their kind. -/
  kind : ∀ type, ¬IsDerived type → (r'.entry type).kind = (r.entry type).kind
  /-- Other types keep their directives. -/
  directives : ∀ type, ¬IsDerived type → (r'.entry type).directives = (r.entry type).directives
  /-- Lines of other types keep their signature and directives. -/
  line : ∀ type field, ¬IsDerived type → (r'.line type field).type = (r.line type field).type
    ∧ (r'.line type field).directives = (r.line type field).directives
  /-- Other types keep the names of their lines. -/
  keys : ∀ type, ¬IsDerived type →
    Table.keys (r'.entry type).lines = Table.keys (r.entry type).lines

namespace Filtered

theorem refl (r : Registry) : Filtered r r where
  nodup := id
  uses _ _ := List.Subset.refl _
  typeUses _ := List.Subset.refl _
  kind _ _ := rfl
  directives _ _ := rfl
  line _ _ _ := ⟨rfl, rfl⟩
  keys _ _ := rfl

theorem trans {r r' r'' : Registry} (h : Filtered r r') (k : Filtered r' r'') :
    Filtered r r'' where
  nodup hr := k.nodup (h.nodup hr)
  uses t f := List.Subset.trans (k.uses t f) (h.uses t f)
  typeUses t := List.Subset.trans (k.typeUses t) (h.typeUses t)
  kind t ht := (k.kind t ht).trans (h.kind t ht)
  directives t ht := (k.directives t ht).trans (h.directives t ht)
  line t f ht :=
    ⟨((k.line t f ht).1).trans (h.line t f ht).1, ((k.line t f ht).2).trans (h.line t f ht).2⟩
  keys t ht := (k.keys t ht).trans (h.keys t ht)

end Filtered

variable (r : Registry)

/-- A change of a derived type that writes no directives. -/
theorem filtered_of_entry {r r' : Registry} {type : String} (hd : IsDerived type)
    (hnodup : (Table.keys r).Nodup → (Table.keys r').Nodup)
    (hother : ∀ t, t ≠ type → r'.entry t = r.entry t)
    (htype : (r'.entry type).directives ⊆ (r.entry type).directives)
    (hlines : ∀ f, (r'.line type f).directives ⊆ (r.line type f).directives) : Filtered r r' where
  nodup := hnodup
  uses t f := by
    by_cases ht : t = type
    · rw [ht]
      exact hlines f
    · rw [line, line, hother t ht]
      exact List.Subset.refl _
  typeUses t := by
    by_cases ht : t = type
    · rw [ht]
      exact htype
    · rw [hother t ht]
      exact List.Subset.refl _
  kind t ht := by rw [hother t fun h => ht (h ▸ hd)]
  directives t ht := by rw [hother t fun h => ht (h ▸ hd)]
  line t f ht := by
    rw [line, line, hother t fun h => ht (h ▸ hd)]
    exact ⟨rfl, rfl⟩
  keys t ht := by rw [hother t fun h => ht (h ▸ hd)]

/-- A change of a line of a derived type that keeps its directives. -/
theorem filtered_updateField {type : String} (hd : IsDerived type) (field : String)
    {f : FieldLine → FieldLine} (hf : ∀ l, (f l).directives = l.directives) :
    Filtered r (updateField r type field f) := by
  refine filtered_of_entry hd (nodup_updateType · _ _) (fun t ht => ?_) ?_ fun g => ?_
  · rw [updateField, entry_updateType, if_neg ht]
  · rw [directives_updateField]
    exact List.Subset.refl _
  · rw [line_updateField]
    split
    · rename_i h
      rw [hf, h.2]
      exact List.Subset.refl _
    · exact List.Subset.refl _

theorem filtered_setKind {type : String} (hd : IsDerived type) (kind : Language.TypeKind) :
    Filtered r (setKind r type kind) := by
  refine filtered_of_entry hd (nodup_updateType · _ _) (fun t ht => ?_) ?_ fun g => ?_
  · rw [setKind, entry_updateType, if_neg ht]
  · rw [setKind, entry_updateType, if_pos rfl]
    exact List.Subset.refl _
  · rw [setKind, line_updateType r type type g (fun entry => { entry with kind }) fun _ => rfl]
    exact List.Subset.refl _

theorem filtered_deleteField {type : String} (hd : IsDerived type) (field : String) :
    Filtered r (deleteField r type field) := by
  have hentry : ∀ t, (deleteField r type field).entry t
      = if t = type then { r.entry t with lines := (r.entry t).lines.erase field }
        else r.entry t := by
    intro t
    rw [entry, deleteField, Table.get?_modify, entry]
    by_cases ht : t = type
    · cases Table.get? r t <;> simp [ht, Table.erase]
    · simp [ht]
  refine filtered_of_entry hd (Table.nodup_keys_modify · _ _) (fun t ht => ?_) ?_ fun g => ?_
  · rw [hentry, if_neg ht]
  · rw [hentry, if_pos rfl]
    exact List.Subset.refl _
  · rw [line, hentry, if_pos rfl, Table.get?_erase]
    split
    · exact List.nil_subset _
    · exact List.Subset.refl _

theorem filtered_ensureOperatorInput (kind : String) :
    Filtered r (ensureOperatorInput r kind) := by
  have hd := isDerived_operatorInputName kind
  cases hhas : Table.has r (operatorInputName kind) with
  | true =>
    rw [ensureOperatorInput_of_has hhas]
    exact .refl r
  | false =>
    refine filtered_of_entry hd (Table.nodup_keys_ensure · _ _)
      (fun t ht => entry_ensureOperatorInput_of_ne ht) ?_ fun g => ?_
    · rw [entry_ensureOperatorInput_self hhas]
      exact List.nil_subset _
    · have hlines : operatorLines kind = plainLines (operatorTypes kind) := rfl
      rw [line, entry_ensureOperatorInput_self hhas, hlines, get?_plainLines]
      exact List.nil_subset _

/-- Changing the arguments of a line writes no directives. -/
theorem filtered_modifyArguments (type field : String)
    (f : Table (List String) → Table (List String)) :
    Filtered r (Table.modify r type fun entry =>
      { entry with lines := entry.lines.modify field fun line =>
          { line with arguments := f line.arguments } }) := by
  obtain ⟨r', hr'⟩ : ∃ r' : Registry, Table.modify r type (fun entry =>
      { entry with lines := entry.lines.modify field fun line =>
          { line with arguments := f line.arguments } }) = r' := ⟨_, rfl⟩
  rw [hr']
  have hnodup : (Table.keys r).Nodup → (Table.keys r').Nodup :=
    hr' ▸ (Table.nodup_keys_modify · _ _)
  have hentry : ∀ t, r'.entry t = if t = type then { r.entry t with
      lines := (r.entry t).lines.modify field fun line =>
        { line with arguments := f line.arguments } } else r.entry t := by
    intro t
    rw [entry, ← hr', Table.get?_modify, entry]
    by_cases ht : t = type
    · cases Table.get? r t <;> simp [ht, Table.modify]
    · simp [ht]
  have hline : ∀ t g, (r'.line t g).type = (r.line t g).type
      ∧ (r'.line t g).directives = (r.line t g).directives := by
    intro t g
    rw [line, hentry, line]
    by_cases ht : t = type
    · rw [if_pos ht, Table.get?_modify]
      by_cases hg : g = field
      · cases (r.entry t).lines.get? g <;> simp [hg]
      · simp [hg]
    · rw [if_neg ht]
      exact ⟨rfl, rfl⟩
  have htype : ∀ t, (r'.entry t).kind = (r.entry t).kind
      ∧ (r'.entry t).directives = (r.entry t).directives := by
    intro t
    rw [hentry]
    split <;> exact ⟨rfl, rfl⟩
  have hkeys : ∀ t, Table.keys (r'.entry t).lines = Table.keys (r.entry t).lines := by
    intro t
    rw [hentry]
    split
    · exact Table.keys_modify (r.entry t).lines field fun line =>
        { line with arguments := f line.arguments }
    · rfl
  exact ⟨hnodup, fun t g => (hline t g).2 ▸ List.Subset.refl _,
    fun t => (htype t).2 ▸ List.Subset.refl _,
    fun t _ => (htype t).1, fun t _ => (htype t).2, fun t g _ => hline t g, fun t _ => hkeys t⟩

theorem filtered_dropEmptyOrder (type field : String) :
    Filtered r (dropEmptyOrder r type field (orderEnumName type field)) := by
  unfold dropEmptyOrder
  split
  · exact .refl r
  · have hd : IsDerived (orderEnumName type field) := .inr (.inl ⟨type, field, rfl⟩)
    have herase : ∀ t, entry (Table.erase r (orderEnumName type field)) t
        = if t = orderEnumName type field then {} else r.entry t := by
      intro t
      rw [entry, Table.get?_erase, entry]
      by_cases ht : t = orderEnumName type field <;> simp [ht]
    have hfiltered : Filtered r (Table.erase r (orderEnumName type field)) := by
      refine filtered_of_entry hd (Table.nodup_keys_erase · _) (fun t ht => ?_) ?_ fun g => ?_
      · rw [herase, if_neg ht]
      · rw [herase, if_pos rfl]
        exact List.nil_subset _
      · rw [line, herase, if_pos rfl]
        exact List.nil_subset _
    exact hfiltered.trans (filtered_modifyArguments _ type field _)

theorem filtered_startWhereInput {whereInput : String} (hw : IsDerived whereInput) :
    Filtered r (startWhereInput r whereInput) := by
  have hset : ∀ (r : Registry) (c : String),
      Filtered r (setFieldType r whereInput c ("[" ++ whereInput ++ "!]")) :=
    fun r c => filtered_updateField r hw c fun _ => rfl
  unfold startWhereInput connectives
  rw [List.foldl_cons, List.foldl_cons, List.foldl_nil]
  exact (filtered_setKind r hw .input).trans ((hset _ _).trans (hset _ _))

/-! ### Runs -/

/-- A change that only writes filters when it succeeds. -/
def WritesFilters {α : Type} (e : Edit α) : Prop := ∀ r a r', e r = (.ok a, r') → Filtered r r'

/-- Each change that filters are made of leaves everything else alone. -/
theorem keptByFilters_filtered (type field returned : String) (lines : String → String → Prop) :
    KeptByFilters (Filtered r) type field returned lines := by
  have hw := isDerived_whereInputName type field
  have ho := isDerived_orderEnumName type field
  exact {
    start := fun r' h => h.trans (filtered_startWhereInput r' hw)
    enum := fun r' h => h.trans (filtered_setKind r' ho .enum)
    entry := fun r' key _ kind _ _ h => h.trans ((filtered_ensureOperatorInput r' kind).trans
      (filtered_updateField _ hw key fun _ => rfl))
    delete := fun r' key _ _ _ h => h.trans (filtered_deleteField r' hw key)
    values := fun r' key _ _ _ => addOrderValues_of_value (fun r'' d _ h =>
      h.trans (filtered_updateField r'' ho (key ++ "_" ++ d) fun _ => rfl)) r'
    drop := fun r' h => h.trans (filtered_dropEmptyOrder r' type field) }

/-- Writing the filters of a field leaves everything else alone. -/
theorem writesFilters_addFilters (type field returned : String) (isList : Bool) :
    WritesFilters (addFilters type field returned isList) :=
  fun r a r' h => keeps_addFilters (keptByFilters_filtered r type field returned fun _ _ => True)
    (fun _ _ _ _ => trivial) isList r a r' h (.refl r)

end Registry
end SchemaForge
