import SchemaForge.Proofs.Changes
import SchemaForge.Proofs.Outcome
import SchemaForge.Proofs.Registry.Lines
import SchemaForge.Registry.Filters

/-!
# What filters write

Writing the filters of a field is made of six changes of the registry: the condition input is
started and the order enum made, entries and values are added or taken out, and an order enum
without values is dropped. Whatever these changes keep is kept by all of it.
-/
namespace SchemaForge
namespace Registry

/-- A line of a type, if it is there, can be sorted by. -/
def Sorts (r : Registry) (type field : String) : Prop :=
  ∀ line, r.line? type field = some line → isSortable r line.type = .ok true

/-- The values of an order enum for a field. -/
def addOrderValues (r : Registry) (orderEnum field : String) : Registry :=
  directions.foldl (fun r d => ensureField r orderEnum (field ++ "_" ++ d)) r

/-- A property that the changes keep by which the derived types of a field are filled, where these
are written for lines of the returned type that have some names and signatures. -/
structure KeptByFilling (I : Registry → Prop) (type field returned : String)
    (lines : String → String → Prop) : Prop where
  /-- A line can be filtered by the operators on a kind of value. -/
  entry : ∀ r key signature kind, lines key signature →
    filterKind? r signature = .ok (some kind) → I r →
    I (setFieldType (ensureOperatorInput r kind) (whereInputName type field) key
      (operatorInputName kind))
  /-- A line cannot be filtered. -/
  delete : ∀ r key signature, lines key signature → filterKind? r signature = .ok none → I r →
    I (deleteField r (whereInputName type field) key)
  /-- A line can be sorted by. -/
  values : ∀ r key signature, lines key signature → Sorts r returned key → I r →
    I (addOrderValues r (orderEnumName type field) key)

/-- A property that all changes keep of which the filters of a field are made. -/
structure KeptByFilters (I : Registry → Prop) (type field returned : String)
    (lines : String → String → Prop) : Prop extends KeptByFilling I type field returned lines where
  /-- The condition input starts with the connectives. -/
  start : ∀ r, I r → I (startWhereInput r (whereInputName type field))
  /-- The order enum is made. -/
  enum : ∀ r, I r → I (setKind r (orderEnumName type field) .enum)
  /-- An order enum without values is dropped. -/
  drop : ∀ r, I r → I (dropEmptyOrder r type field (orderEnumName type field))

open Run

theorem mem_lines_entry {r : Registry} {type : String} {l : String × FieldLine}
    (h : l ∈ ((Table.get? r type).map (·.lines)).getD []) : l ∈ (r.entry type).lines := by
  rw [entry]
  cases hget : Table.get? r type with
  | none =>
    rw [hget] at h
    cases h
  | some e =>
    rw [hget] at h
    exact h

/-- A type that has lines is there. -/
theorem has_of_mem_lines {r : Registry} {name : String} {l : String × FieldLine}
    (h : l ∈ (r.entry name).lines) : Table.has r name = true := by
  rw [Table.has_eq_isSome]
  cases hget : Table.get? r name with
  | some e => rfl
  | none =>
    rw [entry, hget] at h
    cases h

/-! ### The operators on a kind of value -/

theorem operatorInputName_injOn : ∀ k ∈ filterableTypes, ∀ kind ∈ filterableTypes,
    operatorInputName k = operatorInputName kind → k = kind := by decide +kernel

section operators

variable {r : Registry} {kind : String}

theorem has_ensureOperatorInput (r : Registry) (kind t : String) :
    Table.has (ensureOperatorInput r kind) t = (Table.has r t || t == operatorInputName kind) :=
  Table.has_ensure r _ t _

theorem ensureOperatorInput_of_has (h : Table.has r (operatorInputName kind) = true) :
    ensureOperatorInput r kind = r := Table.ensure_of_has h _

theorem get?_ensureOperatorInput_of_ne {t : String} (h : t ≠ operatorInputName kind) :
    Table.get? (ensureOperatorInput r kind) t = Table.get? r t := by
  rw [ensureOperatorInput, Table.get?_ensure, if_neg (by simpa using h), Option.or_none]

theorem entry_ensureOperatorInput_of_ne {t : String} (h : t ≠ operatorInputName kind) :
    (ensureOperatorInput r kind).entry t = r.entry t := by
  rw [entry, get?_ensureOperatorInput_of_ne h, entry]

/-- Where nothing stands under their name, the operators are all that stands there then. -/
theorem entry_ensureOperatorInput_self (h : Table.has r (operatorInputName kind) = false) :
    (ensureOperatorInput r kind).entry (operatorInputName kind)
      = { kind := .input, lines := operatorLines kind } := by
  rw [entry, ensureOperatorInput, Table.get?_ensure, (Table.get?_eq_none_iff r _).mpr h]
  simp

end operators

variable {I J : Registry → Prop} {type field returned : String} {lines : String → String → Prop}

/-- What each direction keeps, both keep. -/
theorem addOrderValues_of_value {orderEnum key : String} (h : ∀ r, ∀ d ∈ directions, I r →
    I (ensureField r orderEnum (key ++ "_" ++ d))) (r : Registry) (hr : I r) :
    I (addOrderValues r orderEnum key) :=
  h _ "DESC" (List.mem_cons_of_mem _ List.mem_cons_self) (h r "ASC" List.mem_cons_self hr)

/-- What is kept apart is kept together. -/
theorem KeptByFilters.and (h : KeptByFilters I type field returned lines)
    (k : KeptByFilters J type field returned lines) :
    KeptByFilters (fun r => I r ∧ J r) type field returned lines where
  start r hr := ⟨h.start r hr.1, k.start r hr.2⟩
  enum r hr := ⟨h.enum r hr.1, k.enum r hr.2⟩
  entry r key s kind hline hkind hr :=
    ⟨h.entry r key s kind hline hkind hr.1, k.entry r key s kind hline hkind hr.2⟩
  delete r key s hline hnone hr :=
    ⟨h.delete r key s hline hnone hr.1, k.delete r key s hline hnone hr.2⟩
  values r key s hline hsorts hr :=
    ⟨h.values r key s hline hsorts hr.1, k.values r key s hline hsorts hr.2⟩
  drop r hr := ⟨h.drop r hr.1, k.drop r hr.2⟩

/-- What is kept for more lines is kept for fewer. -/
theorem KeptByFilters.mono {lines' : String → String → Prop}
    (h : KeptByFilters I type field returned lines)
    (hlines : ∀ key s, lines' key s → lines key s) : KeptByFilters I type field returned lines' where
  start := h.start
  enum := h.enum
  entry r key s kind hline := h.entry r key s kind (hlines key s hline)
  delete r key s hline := h.delete r key s (hlines key s hline)
  values r key s hline := h.values r key s (hlines key s hline)
  drop := h.drop

/-- A signature that can be filtered names a kind of value that conditions compare. -/
theorem mem_of_filterable? {signature kind : String} (h : filterable? signature = .ok (some kind)) :
    kind ∈ filterableTypes := by
  unfold filterable? at h
  split at h
  · cases h
  · obtain ⟨name, -, hname⟩ := Outcome.map_eq_ok.mp h
    split at hname
    · rename_i hmem
      cases hname
      exact List.contains_iff_mem.mp hmem
    · cases hname

/-- A line is filtered by a kind of value that conditions compare. -/
theorem mem_filterableTypes {r : Registry} {signature kind : String}
    (h : filterKind? r signature = .ok (some kind)) : kind ∈ filterableTypes := by
  obtain ⟨found, hfound, h⟩ := Outcome.bind_eq_ok.mp h
  cases found with
  | some k =>
    cases h
    exact mem_of_filterable? hfound
  | none =>
    dsimp only at h
    split at h
    · exact mem_of_filterable? h
    · cases h

/-- **What filling keeps, the filters of one line keep**, also where they are not finished. -/
theorem reaches_addFilter (h : KeptByFilling I type field returned lines) (isList : Bool)
    {key : String} {line : FieldLine} (hline : lines key line.type) : Reaches I I (addFilter
      (whereInputName type field) (orderEnumName type field) returned isList key line) := by
  have horder : Reaches I I (do
      let r ← get
      if ← isSortable r (((r.line? returned key).map (·.type)).getD line.type) then
        modify fun r => directions.foldl
          (fun r d => ensureField r (orderEnumName type field) (key ++ "_" ++ d)) r : Edit PUnit) := by
    intro r hr
    rw [bind_of_ok (get_apply r)]
    cases hsortable : isSortable r (((r.line? returned key).map (·.type)).getD line.type) with
    | error e => exact hr
    | ok sortable =>
      cases sortable with
      | false => exact hr
      | true =>
        refine h.values r key line.type hline (fun found hfound => ?_) hr
        rw [hfound] at hsortable
        exact hsortable
  have hrest : Reaches I I (if isList then do
      let r ← get
      if ← isSortable r (((r.line? returned key).map (·.type)).getD line.type) then
        modify fun r => directions.foldl
          (fun r d => ensureField r (orderEnumName type field) (key ++ "_" ++ d)) r
      else pure ()
    else pure () : Edit PUnit) :=
    reaches_ite (fun _ => horder) fun _ => reaches_pure (fun _ => id) _
  -- The kind of value is that of the registry in which the entry is written.
  intro r hr
  unfold addFilter
  rw [bind_of_ok (get_apply r)]
  cases hkind : filterKind? r line.type with
  | error e => exact hr
  | ok kind =>
    cases kind with
    | none => exact hrest _ (h.delete r key line.type hline hkind hr)
    | some kind => exact hrest _ (h.entry r key line.type kind hline hkind hr)

/-- A registry in which the condition input of a field is begun, if it has no lines yet. -/
def begun (r : Registry) (type field : String) : Registry :=
  if r.isPopulated (whereInputName type field) then r
  else startWhereInput r (whereInputName type field)

/-- A registry in which both derived types of a field are begun, the order enum for a list. -/
def opened (r : Registry) (type field : String) (isList : Bool) : Registry :=
  if isList && !r.isPopulated (orderEnumName type field) then
    setKind (r.begun type field) (orderEnumName type field) .enum
  else r.begun type field

/-- What is kept when derived types are begun holds where they are. -/
theorem opened_induction {P : Registry → Prop} {r : Registry} {isList : Bool} (hr : P r)
    (hstart : r.isPopulated (whereInputName type field) = false →
      P (startWhereInput r (whereInputName type field)))
    (henum : isList = true → r.isPopulated (orderEnumName type field) = false →
      ∀ r, P r → P (setKind r (orderEnumName type field) .enum)) :
    P (r.opened type field isList) := by
  have hbegun : P (r.begun type field) := by
    unfold begun
    split
    · exact hr
    · exact hstart (eq_false_of_ne_true ‹_›)
  unfold opened
  split
  · rename_i hlist
    rw [Bool.and_eq_true, Bool.not_eq_true'] at hlist
    exact henum hlist.1 hlist.2 _ hbegun
  · exact hbegun

/-- Write the filters of a field whose derived types are begun. -/
def fillOpened (type field returned : String) (isList : Bool) : Edit Unit := do
  if !basicTypes.contains returned then
    if Table.has (← get) returned then
      fillFilters (whereInputName type field) (orderEnumName type field) returned isList
    else throw (.unknownReturnType returned)
  if isList then modify (dropEmptyOrder · type field (orderEnumName type field))

/-- Writing the filters of a field begins its derived types and fills them, unless both are
there. -/
theorem addFilters_apply (type field returned : String) (isList : Bool) (r : Registry) :
    addFilters type field returned isList r
      = if r.isPopulated (whereInputName type field) && r.isPopulated (orderEnumName type field)
        then (.ok ⟨⟩, r) else fillOpened type field returned isList (r.opened type field isList) := by
  unfold addFilters opened begun
  rw [bind_of_ok (get_apply r), bind_of_ok (get_apply r)]
  cases r.isPopulated (whereInputName type field) <;>
    cases r.isPopulated (orderEnumName type field) <;> cases isList <;> rfl

/-- What filling keeps holds when derived types are filled, as far as it gets, and what the last
change makes of it holds at the end. -/
theorem fillOpened_induction (h : KeptByFilling I type field returned lines) {isList : Bool}
    (hIJ : ∀ r, I r → J r)
    (hdrop : isList = true → ∀ r, I r → J (dropEmptyOrder r type field (orderEnumName type field)))
    {r : Registry} (hlines : ∀ l ∈ (r.entry returned).lines, lines l.1 l.2.type) (hr : I r) :
    J (fillOpened type field returned isList r).2 := by
  have hend : Reaches I J (if isList then
      modify (dropEmptyOrder · type field (orderEnumName type field)) else pure () : Edit PUnit) :=
    reaches_ite (fun hlist => reaches_modify (hdrop hlist)) fun _ => reaches_pure hIJ _
  have hfill : Reaches I I (((Table.get? r returned).map (·.lines)).getD [] |>.forM
      fun l => addFilter (whereInputName type field) (orderEnumName type field) returned isList
        l.1 l.2) :=
    reaches_forM fun l hl => reaches_addFilter h isList (hlines l (mem_lines_entry hl))
  unfold fillOpened
  split
  · rw [bind_of_ok (get_apply r)]
    split
    · exact (hfill.bind hIJ fun _ => hend) r hr
    · exact hIJ r hr
  · exact hend r hr

theorem keeps_fillOpened (h : KeptByFilters I type field returned lines)
    (hlines : ∀ r, I r → ∀ l ∈ (r.entry returned).lines, lines l.1 l.2.type) (isList : Bool) :
    Keeps I (fillOpened type field returned isList) :=
  Reaches.keeps fun r hr =>
    fillOpened_induction h.toKeptByFilling (fun _ => id) (fun _ => h.drop) (hlines r hr) hr

/-- **What the changes keep that filters are made of, the filters of a field keep**, also where
they are not finished, if the lines of the returned type are such lines. -/
theorem reaches_addFilters (h : KeptByFilters I type field returned lines)
    (hlines : ∀ r, I r → ∀ l ∈ (r.entry returned).lines, lines l.1 l.2.type) (isList : Bool) :
    Reaches I I (addFilters type field returned isList) := by
  intro r hr
  rw [addFilters_apply]
  split
  · exact hr
  · have hopened : I (r.opened type field isList) :=
      opened_induction hr (fun _ => h.start r hr) fun _ _ => h.enum
    exact fillOpened_induction h.toKeptByFilling (fun _ => id) (fun _ => h.drop)
      (hlines _ hopened) hopened

theorem keeps_addFilters (h : KeptByFilters I type field returned lines)
    (hlines : ∀ r, I r → ∀ l ∈ (r.entry returned).lines, lines l.1 l.2.type) (isList : Bool) :
    Keeps I (addFilters type field returned isList) := (reaches_addFilters h hlines isList).keeps

end Registry

/-! ### Registries that bear uses of some sort

Uses of directives are added to a registry one by one. If all that it bears are of some sort,
then so are all after any other change, among them those that write filters.
-/

variable {Q : String → Prop}

/-- All uses of directives on a type and its lines are of some sort. -/
structure TypeEntry.Bears (Q : String → Prop) (entry : TypeEntry) : Prop where
  /-- Those on the type. -/
  type : ∀ u ∈ entry.directives, Q u
  /-- Those on its lines. -/
  lines : ∀ l ∈ entry.lines, ∀ u ∈ l.2.directives, Q u

/-- All uses of directives in a registry are of some sort. -/
def Registry.Bears (Q : String → Prop) (r : Registry) : Prop := ∀ e ∈ r, e.2.Bears Q

namespace TypeEntry

/-- An entry of some kind whose lines have no directives. -/
theorem bears_lines {kind : Language.TypeKind} {lines : Table FieldLine}
    (h : ∀ l ∈ lines, l.2.directives = []) : ({ kind, lines } : TypeEntry).Bears Q :=
  ⟨fun _ hu => (List.not_mem_nil hu).elim, fun l hl u hu => by rw [h l hl] at hu; cases hu⟩

theorem bears_empty : ({} : TypeEntry).Bears Q := bears_lines fun _ hl => (List.not_mem_nil hl).elim

variable {entry : TypeEntry} (h : entry.Bears Q)

include h

theorem Bears.mono {Q' : String → Prop} (hQ : ∀ u, Q u → Q' u) : entry.Bears Q' :=
  ⟨fun u hu => hQ u (h.type u hu), fun l hl u hu => hQ u (h.lines l hl u hu)⟩

theorem Bears.addDirective {use : String} (huse : Q use) : (entry.addDirective use).Bears Q := by
  refine ⟨fun u hu => ?_, h.lines⟩
  rcases mem_addOnce.mp hu with hu | rfl
  · exact h.type u hu
  · exact huse

/-- A change of a line that adds only such uses. -/
theorem Bears.updateLine {field : String} {f : FieldLine → FieldLine}
    (hf : ∀ l : FieldLine, (∀ u ∈ l.directives, Q u) → ∀ u ∈ (f l).directives, Q u) :
    (entry.updateLine field f).Bears Q := by
  refine ⟨h.type, fun l hl => ?_⟩
  rcases Registry.mem_update hl with hl | ⟨line, hline, rfl⟩
  · exact h.lines l hl
  · refine hf line ?_
    rcases hline with hline | rfl
    · exact h.lines _ hline
    · exact fun u hu => (List.not_mem_nil hu).elim

/-- A change of a line, if it is there, that leaves its directives. -/
theorem Bears.modifyLine {field : String} {f : FieldLine → FieldLine}
    (hf : ∀ l : FieldLine, (f l).directives = l.directives) :
    ({ entry with lines := entry.lines.modify field f } : TypeEntry).Bears Q := by
  refine ⟨h.type, fun l (hl : l ∈ Table.modify entry.lines field f) => ?_⟩
  rcases Registry.mem_modify hl with ⟨hl, -⟩ | ⟨line, hline, rfl⟩
  · exact h.lines l hl
  · exact fun u hu => h.lines _ hline u (hf line ▸ hu)

end TypeEntry

namespace Registry

variable {r : Registry}

theorem Bears.mono {Q' : String → Prop} (h : r.Bears Q) (hQ : ∀ u, Q u → Q' u) : r.Bears Q' :=
  fun e he => (h e he).mono hQ

theorem Bears.updateType (h : r.Bears Q) {type : String} {f : TypeEntry → TypeEntry}
    (hf : ∀ e : TypeEntry, e.Bears Q → (f e).Bears Q) : (updateType r type f).Bears Q := by
  intro e he
  rcases mem_update he with he | ⟨entry, hentry, rfl⟩
  · exact h e he
  · refine hf entry ?_
    rcases hentry with hentry | rfl
    · exact h _ hentry
    · exact TypeEntry.bears_empty

theorem Bears.setKind (h : r.Bears Q) (type : String) (kind : Language.TypeKind) :
    (setKind r type kind).Bears Q := h.updateType fun _ he => ⟨he.type, he.lines⟩

theorem Bears.updateField (h : r.Bears Q) {type field : String} {f : FieldLine → FieldLine}
    (hf : ∀ l : FieldLine, (∀ u ∈ l.directives, Q u) → ∀ u ∈ (f l).directives, Q u) :
    (updateField r type field f).Bears Q := h.updateType fun _ he => he.updateLine hf

/-- A change of a line that leaves its directives. -/
theorem Bears.updateField_same (h : r.Bears Q) {type field : String} {f : FieldLine → FieldLine}
    (hf : ∀ l : FieldLine, (f l).directives = l.directives) :
    (Registry.updateField r type field f).Bears Q :=
  h.updateField fun l hl u hu => hl u (hf l ▸ hu)

theorem Bears.ensureField (h : r.Bears Q) (type field : String) :
    (ensureField r type field).Bears Q := h.updateField_same fun _ => rfl

theorem Bears.setFieldType (h : r.Bears Q) (type field signature : String) :
    (setFieldType r type field signature).Bears Q := h.updateField_same fun _ => rfl

theorem Bears.ensure (h : r.Bears Q) {type : String} {entry : TypeEntry} (he : entry.Bears Q) :
    Bears Q (Table.ensure r type entry) := by
  intro e hmem
  unfold Table.ensure at hmem
  split at hmem
  · exact h e hmem
  · rcases List.mem_append.mp hmem with hmem | hmem
    · exact h e hmem
    · rw [List.mem_singleton.mp hmem]
      exact he

theorem Bears.put (h : r.Bears Q) {type : String} {entry : TypeEntry} (he : entry.Bears Q) :
    Bears Q (Table.put r type entry) := by
  intro e hmem
  rcases Table.mem_put hmem with hmem | rfl
  · exact h e hmem
  · exact he

theorem Bears.modify (h : r.Bears Q) {type : String} {f : TypeEntry → TypeEntry}
    (hf : ∀ e : TypeEntry, e.Bears Q → (f e).Bears Q) : Bears Q (Table.modify r type f) := by
  intro e hmem
  rcases mem_modify hmem with ⟨hmem, -⟩ | ⟨entry, hentry, rfl⟩
  · exact h e hmem
  · exact hf entry (h _ hentry)

theorem Bears.addTypeDirective (h : r.Bears Q) (type : String) {use : String} (huse : Q use) :
    (addTypeDirective r type use).Bears Q := h.updateType fun _ he => he.addDirective huse

theorem Bears.addFieldDirective (h : r.Bears Q) (type field : String) {use : String}
    (huse : Q use) : (addFieldDirective r type field use).Bears Q := by
  refine h.updateField fun l hl u hu => ?_
  rcases mem_addOnce.mp hu with hu | rfl
  · exact hl u hu
  · exact huse

/-- **Writing filters adds no uses of directives.** -/
theorem bears_keptByFilters (type field returned : String) :
    KeptByFilters (Bears Q) type field returned fun _ _ => True where
  start _ h := ((h.setKind _ _).setFieldType _ _ _).setFieldType _ _ _
  enum _ h := h.setKind _ _
  entry r key _ kind _ _ h := by
    refine Bears.setFieldType (h.ensure (TypeEntry.bears_lines fun l hl => ?_)) _ _ _
    obtain ⟨a, -, rfl⟩ := List.mem_map.mp hl
    rfl
  delete _ _ _ _ _ h := h.modify fun _ he => ⟨he.type, fun l hl => he.lines l (List.mem_filter.mp hl).1⟩
  values _ _ _ _ _ h := (h.ensureField _ _).ensureField _ _
  drop r h := by
    unfold dropEmptyOrder
    split
    · exact h
    · have herased : Bears Q (Table.erase r (orderEnumName type field)) :=
        fun e he => h e (List.mem_filter.mp he).1
      exact herased.modify fun _ he => he.modifyLine fun _ => rfl

end Registry
end SchemaForge
