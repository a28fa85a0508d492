import SchemaForge.Proofs.Registry.Entries
import SchemaForge.Proofs.Registry.Inputs
import SchemaForge.Proofs.Schema.Walk
import SchemaForge.Proofs.Store.Returned

/-!
# Conditions on one name

A condition input has one field for each name that it offers. Where filters are written for lines
of some kinds of values, this field takes the operators on the kind of its line (`Kinded`), and the
input for these takes one value as the operand of `eq` (`Builds.takesField_condition`,
`Builds.takesField_eq`).
-/
namespace SchemaForge

open Language

namespace Registry

/-! ### Kinds of values -/

/-- A line that takes the operators on a kind of value is one for this kind. -/
def IsOfKind (kinds : String → String → String → String → Prop)
    (name key signature : String) : Prop :=
  ∀ kind ∈ filterableTypes, signature = operatorInputName kind →
    ∃ type field, name = whereInputName type field ∧ kinds type field key kind

/-- Under the names of filters the lines have names of their own, and take the operators on the
kinds of values that filters are written for. -/
structure Kinded (kinds : String → String → String → String → Prop) (r : Registry) : Prop where
  /-- Names of lines. -/
  nodup : ∀ name, IsFilterName name → (Table.keys (r.entry name).lines).Nodup
  /-- Kinds of lines. -/
  lines : ∀ name, IsFilterName name → ∀ l ∈ (r.entry name).lines, IsOfKind kinds name l.1 l.2.type

variable {kinds : String → String → String → String → Prop} {r r' : Registry} {name : String}

theorem isOfKind_list (key item : String) : IsOfKind kinds name key ("[" ++ item ++ "!]") :=
  fun kind _ hkind => absurd hkind.symm (operatorInputName_ne_list kind item)

/-- A change of what stands under the name of a filter. -/
theorem Kinded.updateType (h : Kinded kinds r) {f : TypeEntry → TypeEntry}
    (hnodup : (Table.keys (f (r.entry name)).lines).Nodup)
    (hf : ∀ l ∈ (f (r.entry name)).lines, IsOfKind kinds name l.1 l.2.type) :
    Kinded kinds (updateType r name f) := by
  constructor <;> intro n hn <;> rw [entry_updateType]
  · split
    · exact hnodup
    · exact h.nodup n hn
  · split
    · rename_i heq
      exact heq ▸ hf
    · exact h.lines n hn

theorem Kinded.setKind (h : Kinded kinds r) (hname : IsFilterName name) (kind : TypeKind) :
    Kinded kinds (setKind r name kind) :=
  h.updateType (h.nodup name hname) (h.lines name hname)

/-- A change of one line. -/
theorem Kinded.updateField (h : Kinded kinds r) (hname : IsFilterName name) {key : String}
    {f : FieldLine → FieldLine} (hstart : IsOfKind kinds name key (f {}).type)
    (hf : ∀ line, IsOfKind kinds name key line.type → IsOfKind kinds name key (f line).type) :
    Kinded kinds (updateField r name key f) := by
  refine h.updateType (Table.nodup_keys_update (h.nodup name hname) key _ f) fun l hl => ?_
  rcases mem_update hl with hl | ⟨x, hx, rfl⟩
  · exact h.lines name hname l hl
  · rcases hx with hx | rfl
    · exact hf x (h.lines name hname _ hx)
    · exact hstart

theorem Kinded.setFieldType (h : Kinded kinds r) (hname : IsFilterName name)
    {key signature : String} (hline : IsOfKind kinds name key signature) :
    Kinded kinds (setFieldType r name key signature) :=
  h.updateField hname hline fun _ _ => hline

theorem Kinded.startWhereInput (h : Kinded kinds r) (hname : IsFilterName name) :
    Kinded kinds (startWhereInput r name) := by
  unfold Registry.startWhereInput connectives
  rw [List.foldl_cons, List.foldl_cons, List.foldl_nil]
  exact ((h.setKind hname .input).setFieldType hname (isOfKind_list _ name)).setFieldType hname
    (isOfKind_list _ name)

/-- A change that brings no lines. -/
theorem Kinded.of_fewer (h : Kinded kinds r)
    (hlines : ∀ name, IsFilterName name →
      ((r'.entry name).lines.map fun l => (l.1, l.2.type)).Sublist
        ((r.entry name).lines.map fun l => (l.1, l.2.type))) : Kinded kinds r' := by
  constructor
  · intro n hn
    have hkeys := ((hlines n hn).map Prod.fst).nodup
    simp only [List.map_map] at hkeys
    exact hkeys (h.nodup n hn)
  · intro n hn l hl
    obtain ⟨l', hl', hsame⟩ := List.mem_map.mp ((hlines n hn).subset (List.mem_map_of_mem hl))
    obtain ⟨hkey, htype⟩ := Prod.mk.inj hsame
    exact hkey ▸ htype ▸ h.lines n hn l' hl'

/-- A change of one type that brings no lines. -/
theorem Kinded.modify (h : Kinded kinds r) (type : String) {f : TypeEntry → TypeEntry}
    (hempty : f {} = {}) (hf : ∀ e : TypeEntry, ((f e).lines.map fun l => (l.1, l.2.type)).Sublist
      (e.lines.map fun l => (l.1, l.2.type))) : Kinded kinds (Table.modify r type f) := by
  refine h.of_fewer fun n _ => ?_
  rw [entry_modify type n f hempty]
  split
  · exact hf _
  · exact .refl _

theorem Kinded.dropEmptyOrder (h : Kinded kinds r) (type field orderEnum : String) :
    Kinded kinds (dropEmptyOrder r type field orderEnum) := by
  unfold Registry.dropEmptyOrder
  split
  · exact h
  · refine Kinded.modify (r := Table.erase r orderEnum) (h.of_fewer fun n _ => ?_) type rfl
      fun e => ?_
    · rw [entry, entry, Table.get?_erase]
      split
      · exact List.nil_sublist _
      · exact .refl _
    · have hsame : (Table.modify e.lines field fun line =>
          { line with arguments := line.arguments.erase "order" }).map
            (fun l => (l.1, l.2.type)) = e.lines.map fun l => (l.1, l.2.type) := by
        rw [Table.modify, List.map_map]
        refine List.map_congr_left fun l _ => ?_
        simp only [Function.comp]
        split <;> rfl
      exact hsame ▸ .refl _

theorem Kinded.ensureOperatorInput (h : Kinded kinds r) {kind : String}
    (hkind : kind ∈ filterableTypes) : Kinded kinds (ensureOperatorInput r kind) := by
  refine h.of_fewer fun n hn => ?_
  have hne : n ≠ operatorInputName kind := by
    rintro rfl
    exact not_isFilterName hkind hn
  rw [entry_ensureOperatorInput_of_ne hne]

/-- **Every change that filters are made of keeps the kinds of lines.** -/
theorem keptByFilters_kinded (type field returned : String) :
    KeptByFilters (Kinded kinds) type field returned fun key signature =>
      ∀ r kind, filterKind? r signature = .ok (some kind) → kinds type field key kind := by
  have hw := isFilterName_whereInputName type field
  have ho := isFilterName_orderEnumName type field
  exact {
    start := fun r h => h.startWhereInput hw
    enum := fun r h => h.setKind ho .enum
    entry := fun r key _ kind hkinds hfilter h =>
      have hkind := mem_filterableTypes hfilter
      (h.ensureOperatorInput hkind).setFieldType hw fun k hk heq =>
        ⟨type, field, rfl, operatorInputName_injOn kind hkind k hk heq ▸ hkinds r kind hfilter⟩
    delete := fun r key _ _ _ h => h.modify _ rfl fun e => (List.filter_sublist).map _
    values := fun r key _ _ _ => addOrderValues_of_value (fun r' d _ h =>
      h.updateField ho (fun kind hkind heq => absurd heq.symm (by
        have hnames : ∀ kind ∈ filterableTypes, operatorInputName kind ≠ "" := by decide +kernel
        exact hnames kind hkind)) fun _ => id) r
    drop := fun r h => h.dropEmptyOrder type field _ }

/-! ### Fields of inputs -/

variable {base : Option Schema} {s : Schema}

theorem default?_of_memberOf {named : String × FieldLine} {i : InputNode}
    (h : memberOf named = some i) : i.default? = none := by
  obtain ⟨t, -, h⟩ := Option.bind_eq_some_iff.mp h
  obtain ⟨directives, -, h⟩ := Option.bind_eq_some_iff.mp h
  cases h
  rfl

/-- A type with fields of inputs is an input type. -/
theorem isKind_of_mem_inputs (hown : Schema.isStandardType name = false) {i : InputNode}
    (hi : i ∈ s.inputs name) : s.isKind name .input = true := by
  unfold Schema.inputs at hi
  cases hbody : s.body? name with
  | none =>
    rw [hbody] at hi
    cases hi
  | some body =>
    refine (Schema.isKind_iff hown).mpr ⟨body, hbody, ?_⟩
    rw [hbody] at hi
    cases body with
    | input is => rfl
    | _ => cases hi

/-- The fields of a new input type have the names of its lines. -/
theorem Builds.names_inputs (h : Builds r base s) (hnew : IsNew base name)
    (hkind : s.isKind name .input = true) :
    (s.inputs name).map (·.name) = Table.keys (r.entry name).lines := by
  have hmap := h.map_memberOf hnew hkind
  have hline : ∀ l ∈ (r.entry name).lines, (memberOf l).map (·.name) = some l.1 := by
    intro l hl
    obtain ⟨i, -, hi⟩ := List.mem_map.mp (hmap ▸ List.mem_map_of_mem hl)
    rw [← hi, Option.map_some, (memberOf_eq_some hi.symm).1]
  have hsome : ((s.inputs name).map (·.name)).map some
      = (Table.keys (r.entry name).lines).map some := calc
    _ = ((s.inputs name).map some).map (Option.map (·.name)) := by
      rw [List.map_map, List.map_map]
      rfl
    _ = (r.entry name).lines.map fun l => (memberOf l).map (·.name) := by
      rw [← hmap, List.map_map]
      rfl
    _ = (Table.keys (r.entry name).lines).map some := by
      rw [List.map_congr_left hline, Table.keys, List.map_map]
      rfl
  exact List.map_injective_iff.mpr (Option.some_injective _) hsome

/-- A new input type takes each of its fields alone, if none of its lines excludes null. -/
theorem Builds.takesField (h : Builds r base s) (hnew : IsNew base name)
    (hkind : s.isKind name .input = true) (hnodup : (Table.keys (r.entry name).lines).Nodup)
    (hnull : ∀ l ∈ (r.entry name).lines, ∀ t, (TypeRef.ofText? l.2.type).toOption = some t →
      t.isNonNull = false) {i : InputNode} (hi : i ∈ s.inputs name) :
    s.TakesField name i.name i.type := by
  have hmap := h.map_memberOf hnew hkind
  have hdistinct : ((s.inputs name).map (·.name)).Nodup := h.names_inputs hnew hkind ▸ hnodup
  refine ⟨hkind, ?_, hdistinct, fun j hj => ?_⟩
  · rw [Coercion.inputType?, find?_of_mem hdistinct hi, Option.map_some]
  · obtain ⟨l, hl, hj⟩ := List.mem_map.mp (hmap ▸ List.mem_map_of_mem hj)
    exact ⟨default?_of_memberOf hj, hnull l hl _ (memberOf_eq_some hj).2⟩

/-- The input for the operators on a kind of value takes one value for `eq`. -/
theorem Builds.takesField_eq {names : String → String → String → Prop} (h : Builds r base s)
    (hfilled : Filled names r) {kind : String} (hkind : kind ∈ filterableTypes)
    (hhas : Table.has r (operatorInputName kind) = true)
    (hnew : IsNew base (operatorInputName kind)) :
    s.TakesField (operatorInputName kind) "eq" (.named kind) := by
  obtain ⟨-, htypes⟩ := hfilled.operators kind hkind hhas
  have hoperators : ∀ kind ∈ filterableTypes, ((operatorTypes kind).map Prod.fst).Nodup
      ∧ ∀ e ∈ operatorTypes kind, ∀ t, (TypeRef.ofText? e.2).toOption = some t →
        t.isNonNull = false ∧ (e.1 = "eq" → t = .named kind) := by
    decide +kernel
  obtain ⟨hnodup, hsignatures⟩ := hoperators kind hkind
  have hkind' := h.isKind_operatorInput hfilled hkind hhas hnew
  have hmem : ∀ l ∈ (r.entry (operatorInputName kind)).lines,
      (l.1, l.2.type) ∈ operatorTypes kind := fun l hl =>
    htypes ▸ List.mem_map_of_mem (f := fun l : String × FieldLine => (l.1, l.2.type)) hl
  have heq : ("eq", kind) ∈ operatorTypes kind := List.mem_append_left _ List.mem_cons_self
  obtain ⟨l, hl, hline⟩ := List.mem_map.mp (htypes ▸ heq)
  obtain ⟨i, hi, hname⟩ := (h.mem_inputs hnew hkind').2 l hl
  obtain ⟨l', hl', hsame, htype⟩ := (h.mem_inputs hnew hkind').1 i hi
  have hfound : i.name = "eq" := hname.trans (congrArg Prod.fst hline)
  have hnull : ∀ l ∈ (r.entry (operatorInputName kind)).lines, ∀ t,
      (TypeRef.ofText? l.2.type).toOption = some t → t.isNonNull = false := fun l hl t ht =>
    (hsignatures _ (hmem l hl) t ht).1
  have hfield := h.takesField hnew hkind' ?_ hnull hi
  · rwa [hfound, (hsignatures _ (hmem l' hl') _ htype).2 (hsame.trans hfound)] at hfield
  · rw [← htypes, List.map_map] at hnodup
    exact hnodup

/-- **A condition input takes the operators on the kind of a line**, for each name that it offers
besides connectives. -/
theorem Builds.takesField_condition {names : String → String → String → Prop}
    (h : Builds r base s) (hfilled : Filled names r) (hkinded : Kinded kinds r)
    (hnew : ∀ name, IsDerived name → IsNew base name) (hname : IsFilterName name) {i : InputNode}
    (hi : i ∈ s.inputs name) (hkey : Condition.isConnective i.name = false) :
    ∃ type field kind, name = whereInputName type field ∧ kinds type field i.name kind
      ∧ kind ∈ filterableTypes ∧ s.TakesField name i.name (.named (operatorInputName kind))
      ∧ s.TakesField (operatorInputName kind) "eq" (.named kind) := by
  have hown := hnew name (isDerived_of_isFilterName hname)
  have hkind := isKind_of_mem_inputs hown.own hi
  have hisName : ∀ l ∈ (r.entry name).lines, isName name = true := fun l hl =>
    (h.readable _ (mem_of_lines (List.ne_nil_of_mem hl))).named
  have hnull : ∀ l ∈ (r.entry name).lines, ∀ t, (TypeRef.ofText? l.2.type).toOption = some t →
      t.isNonNull = false := by
    intro l hl t ht
    cases hfilled.lines name hname l hl with
    | connective hconnective hsignature =>
      rw [hsignature, TypeRef.ofText?_list (hisName l hl)] at ht
      exact Option.some.inj ht ▸ rfl
    | operators type field kind hfield hkey hmem hsignature hhas =>
      rw [hsignature, ofText?_operator hmem] at ht
      exact Option.some.inj ht ▸ rfl
    | value type field source descending hfield hkey hvalue hsignature =>
      rw [hsignature, toOption_ofText?_empty] at ht
      cases ht
  have hfield := h.takesField hown hkind (hkinded.nodup name hname) hnull hi
  obtain ⟨l, hl, hsame, htype⟩ := (h.mem_inputs hown hkind).1 i hi
  cases hfilled.lines name hname l hl with
  | connective hconnective hsignature =>
    rw [hsame, hkey] at hconnective
    cases hconnective
  | operators _ _ kind _ _ hmem hsignature hhas =>
    rw [hsignature, ofText?_operator hmem] at htype
    obtain ⟨type, field, hown, hkinds⟩ := hkinded.lines name hname l hl kind hmem hsignature
    rw [← Option.some.inj htype] at hfield
    exact ⟨type, field, kind, hown, hsame ▸ hkinds, hmem, hfield,
      h.takesField_eq hfilled hmem hhas (hnew _ (isDerived_operatorInputName kind))⟩
  | value type field source descending hfield hkey hvalue hsignature =>
    rw [hsignature, toOption_ofText?_empty] at htype
    cases htype

end Registry
end SchemaForge
