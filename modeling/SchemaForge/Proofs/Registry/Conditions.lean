import SchemaForge.Proofs.Changes
import SchemaForge.Proofs.Registry.Frame
import SchemaForge.Condition
import SchemaForge.Store.Order

/-!
# What stands in condition inputs and order enums

Where nothing else is written under the names of filters, a condition input has connectives
and lines that take the operators on a kind of value, an order enum has the values of fields
in both directions, and the operators on a kind of value are all there. `Filled` says so, and
which names these lines and values come from; every change that filters are made of keeps it.
-/
namespace SchemaForge

/-- The names of condition inputs and of order enums. -/
def IsFilterName (name : String) : Prop :=
  (∃ type field, name = whereInputName type field) ∨ ∃ type field, name = orderEnumName type field

namespace Registry

theorem isFilterName_whereInputName (type field : String) :
    IsFilterName (whereInputName type field) := .inl ⟨type, field, rfl⟩

theorem isFilterName_orderEnumName (type field : String) :
    IsFilterName (orderEnumName type field) := .inr ⟨type, field, rfl⟩

theorem isDerived_of_isFilterName {name : String} (h : IsFilterName name) : IsDerived name :=
  h.imp id .inl

/-- The inputs for operators have names of their own: the words in the names of filters do not
stand in them. -/
theorem not_isFilterName {kind : String} (h : kind ∈ filterableTypes) :
    ¬IsFilterName (operatorInputName kind) := by
  have hwords : ∀ kind ∈ filterableTypes,
      ¬(capitalized whereWord).toList <:+: (operatorInputName kind).toList
        ∧ ¬(capitalized orderWord).toList <:+: (operatorInputName kind).toList := by
    decide +kernel
  rintro (⟨type, field, hname⟩ | ⟨type, field, hname⟩)
  · refine (hwords kind h).1 ⟨(capitalized type).toList, (capitalized field).toList, ?_⟩
    rw [hname, whereInputName, derivedName, String.toList_append, String.toList_append]
  · refine (hwords kind h).2 ⟨(capitalized type).toList, (capitalized field).toList, ?_⟩
    rw [hname, orderEnumName, derivedName, String.toList_append, String.toList_append]

/-- A line that filters write: a connective of the input itself, one that takes the operators
on a kind of value, or the order value of a name. The filters of a field are written for some
names. -/
inductive FilterLine (names : String → String → String → Prop) (r : Registry)
    (name key signature : String) : Prop
  | connective (h : Condition.isConnective key = true) (hs : signature = "[" ++ name ++ "!]")
  | operators (type field kind : String) (hname : name = whereInputName type field)
      (hkey : names type field key) (h : kind ∈ filterableTypes)
      (hs : signature = operatorInputName kind) (hhas : Table.has r (operatorInputName kind) = true)
  | value (type field source : String) (descending : Bool) (hname : name = orderEnumName type field)
      (hkey : names type field source) (h : key = OrderTerm.value source descending)
      (hs : signature = "")

/-- Under the names of filters stands what filters write, for some names each. -/
structure Filled (names : String → String → String → Prop) (r : Registry) : Prop where
  /-- Lines of condition inputs and order enums. -/
  lines : ∀ name, IsFilterName name → ∀ l ∈ (r.entry name).lines,
    FilterLine names r name l.1 l.2.type
  /-- All operators on a kind of value, where there are any. -/
  operators : ∀ kind ∈ filterableTypes, Table.has r (operatorInputName kind) = true →
    (r.entry (operatorInputName kind)).kind = .input
      ∧ (r.entry (operatorInputName kind)).lines.map (fun l => (l.1, l.2.type)) = operatorTypes kind

variable {names : String → String → String → Prop} {r r' : Registry} {name : String}

/-! ### Single changes -/

theorem FilterLine.mono {key signature : String} (h : FilterLine names r name key signature)
    (hhas : ∀ kind ∈ filterableTypes, Table.has r (operatorInputName kind) = true →
      Table.has r' (operatorInputName kind) = true) : FilterLine names r' name key signature := by
  cases h with
  | connective h hs => exact .connective h hs
  | operators type field kind hname hkey h hs hkind =>
    exact .operators type field kind hname hkey h hs (hhas kind h hkind)
  | value type field source descending hname hkey h hs =>
    exact .value type field source descending hname hkey h hs

/-- A change of what stands under the name of a filter. -/
theorem Filled.updateType (h : Filled names r) (hname : IsFilterName name)
    {f : TypeEntry → TypeEntry}
    (hf : ∀ l ∈ (f (r.entry name)).lines, FilterLine names r name l.1 l.2.type) :
    Filled names (updateType r name f) := by
  have hentry : ∀ kind ∈ filterableTypes,
      (Registry.updateType r name f).entry (operatorInputName kind)
      = r.entry (operatorInputName kind) := by
    intro kind hkind
    rw [entry_updateType, if_neg]
    rintro rfl
    exact not_isFilterName hkind hname
  constructor
  · intro n hn l hl
    refine FilterLine.mono (r := r) ?_ fun kind _ => has_updateType name _ f
    rw [entry_updateType] at hl
    split at hl
    · rename_i heq
      exact heq ▸ hf l hl
    · exact h.lines n hn l hl
  · intro kind hkind hhas
    rw [hentry kind hkind]
    refine h.operators kind hkind ?_
    rw [Registry.updateType, Table.has_eq_isSome, Table.get?_update, if_neg] at hhas
    · exact Table.has_eq_isSome r _ ▸ hhas
    · intro heq
      exact not_isFilterName hkind (beq_iff_eq.mp heq ▸ hname)

theorem Filled.setKind (h : Filled names r) (hname : IsFilterName name) (kind : Language.TypeKind) :
    Filled names (setKind r name kind) :=
  h.updateType hname fun l hl => h.lines name hname l hl

/-- A change of one line to what filters write there. -/
theorem Filled.updateField (h : Filled names r) (hname : IsFilterName name) {key : String}
    {f : FieldLine → FieldLine} (hstart : FilterLine names r name key (f {}).type)
    (hf : ∀ line, FilterLine names r name key line.type →
      FilterLine names r name key (f line).type) :
    Filled names (updateField r name key f) := by
  refine h.updateType hname fun l hl => ?_
  rcases mem_update hl with hl | ⟨x, hx, rfl⟩
  · exact h.lines name hname l hl
  · rcases hx with hx | rfl
    · exact hf x (h.lines name hname _ hx)
    · exact hstart

theorem Filled.setFieldType (h : Filled names r) (hname : IsFilterName name)
    {key signature : String} (hline : FilterLine names r name key signature) :
    Filled names (setFieldType r name key signature) :=
  h.updateField hname hline fun _ _ => hline

theorem Filled.startWhereInput (h : Filled names r) (hname : IsFilterName name) :
    Filled names (startWhereInput r name) := by
  unfold Registry.startWhereInput connectives
  rw [List.foldl_cons, List.foldl_cons, List.foldl_nil]
  exact ((h.setKind hname .input).setFieldType hname (.connective rfl rfl)).setFieldType hname
    (.connective rfl rfl)

/-- A change that brings no lines, and leaves the inputs for operators. -/
theorem Filled.of_fewer (h : Filled names r)
    (hlines : ∀ name, IsFilterName name → ∀ l ∈ (r'.entry name).lines,
      ∃ line, (l.1, line) ∈ (r.entry name).lines ∧ line.type = l.2.type)
    (hhas : ∀ kind ∈ filterableTypes,
      Table.has r' (operatorInputName kind) = Table.has r (operatorInputName kind))
    (hoperators : ∀ kind ∈ filterableTypes,
      (r'.entry (operatorInputName kind)).kind = (r.entry (operatorInputName kind)).kind
        ∧ (r'.entry (operatorInputName kind)).lines.map (fun l => (l.1, l.2.type))
          = (r.entry (operatorInputName kind)).lines.map fun l => (l.1, l.2.type)) :
    Filled names r' := by
  constructor
  · intro name hname l hl
    obtain ⟨line, hline, htype⟩ := hlines name hname l hl
    exact (htype ▸ h.lines name hname _ hline).mono fun kind hkind => (hhas kind hkind).symm ▸ id
  · intro kind hkind hk
    obtain ⟨hsame, htypes⟩ := hoperators kind hkind
    rw [hsame, htypes]
    exact h.operators kind hkind (hhas kind hkind ▸ hk)

theorem entry_modify (type name : String) (f : TypeEntry → TypeEntry) (hf : f {} = {}) :
    entry (Table.modify r type f) name
      = if name = type then f (r.entry name) else r.entry name := by
  rw [entry, Table.get?_modify, entry]
  by_cases h : name = type
  · subst h
    rw [beq_self_eq_true, if_pos rfl, if_pos rfl]
    cases Table.get? r name with
    | none => exact hf.symm
    | some e => rfl
  · rw [if_neg (by simpa using h), if_neg h]

theorem Filled.deleteField (h : Filled names r) (hname : IsFilterName name) (key : String) :
    Filled names (deleteField r name key) := by
  have hentry := fun other => entry_modify (r := r) name other
    (fun entry => { entry with lines := entry.lines.erase key }) rfl
  refine h.of_fewer (fun n hn l hl => ?_) (fun kind _ => Table.has_modify ..) fun kind hkind => ?_
  · rw [Registry.deleteField, hentry] at hl
    split at hl
    · exact ⟨l.2, (List.mem_filter.mp hl).1, rfl⟩
    · exact ⟨l.2, hl, rfl⟩
  · rw [Registry.deleteField, hentry, if_neg]
    · exact ⟨rfl, rfl⟩
    · rintro rfl
      exact not_isFilterName hkind hname

/-- The operators on a kind of value are written all at once. -/
theorem Filled.ensureOperatorInput (h : Filled names r) {kind : String}
    (hkind : kind ∈ filterableTypes) : Filled names (ensureOperatorInput r kind) := by
  cases hhas : Table.has r (operatorInputName kind) with
  | true => rwa [ensureOperatorInput_of_has hhas]
  | false =>
    constructor
    · intro n hn l hl
      have hne : n ≠ operatorInputName kind := by
        rintro rfl
        exact not_isFilterName hkind hn
      rw [entry_ensureOperatorInput_of_ne hne] at hl
      refine (h.lines n hn l hl).mono fun k _ hk => ?_
      rw [has_ensureOperatorInput, hk, Bool.true_or]
    · intro k hk hthere
      by_cases heq : operatorInputName k = operatorInputName kind
      · obtain rfl := operatorInputName_injOn k hk kind hkind heq
        rw [entry_ensureOperatorInput_self hhas]
        refine ⟨rfl, ?_⟩
        simp [operatorLines, Function.comp_def]
      · rw [entry_ensureOperatorInput_of_ne heq]
        rw [has_ensureOperatorInput, beq_false_of_ne heq, Bool.or_false] at hthere
        exact h.operators k hk hthere

/-- Changing the arguments of a line leaves what stands under the names of filters. -/
theorem Filled.modifyArguments (h : Filled names r) (type field : String)
    (f : Table (List String) → Table (List String)) :
    Filled names (Table.modify r type fun entry =>
      { entry with lines := entry.lines.modify field fun line =>
          { line with arguments := f line.arguments } }) := by
  have hentry := fun name => entry_modify (r := r) type name
    (fun entry => { entry with lines := entry.lines.modify field fun line =>
      { line with arguments := f line.arguments } }) rfl
  refine h.of_fewer (fun n hn l hl => ?_) (fun kind _ => Table.has_modify ..) fun kind hkind => ?_
  · rw [hentry] at hl
    split at hl
    · have hl : l ∈ Table.modify (r.entry n).lines field fun line =>
          { line with arguments := f line.arguments } := hl
      rcases mem_modify hl with ⟨hl, -⟩ | ⟨line, hline, rfl⟩
      · exact ⟨l.2, hl, rfl⟩
      · exact ⟨line, hline, rfl⟩
    · exact ⟨l.2, hl, rfl⟩
  · rw [hentry]
    split
    · refine ⟨rfl, ?_⟩
      rw [Table.modify, List.map_map]
      refine List.map_congr_left fun l _ => ?_
      simp only [Function.comp]
      split <;> rfl
    · exact ⟨rfl, rfl⟩

theorem Filled.dropEmptyOrder (h : Filled names r) (type field : String) :
    Filled names (dropEmptyOrder r type field (orderEnumName type field)) := by
  unfold Registry.dropEmptyOrder
  split
  · exact h
  · refine Filled.modifyArguments (r := Table.erase r _) ?_ type field (·.erase "order")
    have hget := Table.get?_erase r (orderEnumName type field)
    have hother : ∀ kind ∈ filterableTypes,
        Table.get? (Table.erase r (orderEnumName type field)) (operatorInputName kind)
          = Table.get? r (operatorInputName kind) := by
      intro kind hkind
      rw [hget, if_neg]
      intro heq
      exact not_isFilterName hkind (beq_iff_eq.mp heq ▸ isFilterName_orderEnumName type field)
    refine h.of_fewer (fun n hn l hl => ?_) (fun kind hkind => ?_) fun kind hkind => ?_
    · rw [entry, hget] at hl
      split at hl
      · cases hl
      · exact ⟨l.2, hl, rfl⟩
    · rw [Table.has_eq_isSome, Table.has_eq_isSome, hother kind hkind]
    · rw [entry, hother kind hkind]
      exact ⟨rfl, rfl⟩

/-- **Every change that filters are made of keeps what stands under their names.** -/
theorem keptByFilters_filled (type field returned : String) :
    KeptByFilters (Filled names) type field returned fun key _ => names type field key := by
  have hw := isFilterName_whereInputName type field
  have ho := isFilterName_orderEnumName type field
  exact {
    start := fun r h => h.startWhereInput hw
    enum := fun r h => h.setKind ho .enum
    entry := fun r key _ kind hkey hfilter h =>
      have hkind := mem_filterableTypes hfilter
      (h.ensureOperatorInput hkind).setFieldType hw
        (.operators type field kind rfl hkey hkind rfl (by simp [has_ensureOperatorInput]))
    delete := fun r key _ _ _ h => h.deleteField hw key
    values := fun r key _ hkey _ => addOrderValues_of_value (fun r' d hd h =>
      h.updateField ho (.value type field key (d == "DESC") rfl hkey (by
        simp only [directions, List.mem_cons, List.not_mem_nil, or_false] at hd
        rcases hd with rfl | rfl <;> rfl) rfl) fun _ => id) r
    drop := fun r h => h.dropEmptyOrder type field }

end Registry
end SchemaForge
