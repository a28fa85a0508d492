import SchemaForge.Proofs.Registry.Verdicts
import SchemaForge.Proofs.Registry.Widening

/-!
# The filters of one field, entry by entry

A run that writes the filters of a field begins its derived types, writes the verdicts on the lines
of the returned type, and for a list drops an order enum that is left without values. It changes
each entry of the registry on its own: `FilterPlan.act` says what becomes of an entry, given the
verdicts and whether the order enum is dropped, and **`get?_filled`** that this is all.
-/
namespace SchemaForge

open Language

/-! ### Entries -/

/-- A line without its order argument. -/
def FieldLine.withoutOrder (line : FieldLine) : FieldLine :=
  { line with arguments := line.arguments.erase "order" }

namespace TypeEntry

/-- Change the lines of an entry. -/
def onLines (f : Table FieldLine → Table FieldLine) (e : TypeEntry) : TypeEntry :=
  { e with lines := f e.lines }

/-- Take the order argument from a line. -/
def withoutOrder (field : String) : TypeEntry → TypeEntry :=
  onLines (·.modify field FieldLine.withoutOrder)

/-- The lines that a condition input starts with. -/
def connectiveLines (name : String) : Table FieldLine :=
  Registry.connectives.map fun c => (c, { type := "[" ++ name ++ "!]" })

/-- A condition input with the connectives, unless it has lines already. -/
def asInput (name : String) (e : TypeEntry) : TypeEntry :=
  if e.lines.isEmpty then { e with kind := .input, lines := connectiveLines name } else e

/-- An order enum, unless it has lines already. -/
def asEnum (e : TypeEntry) : TypeEntry := if e.lines.isEmpty then { e with kind := .enum } else e

end TypeEntry

/-- Each kind of value has an input for operators of its own. -/
theorem operatorInputName_inj {kind kind' : String}
    (h : operatorInputName kind = operatorInputName kind') : kind = kind' := by
  have hlist := congrArg String.toList h
  simp only [operatorInputName, String.toList_append, List.append_cancel_right_eq,
    List.append_cancel_left_eq] at hlist
  exact String.toList_inj.mp hlist

namespace Verdict

/-- The entry that comes in under a name, if it is that of the operators of a line. -/
def operator? (v : Verdict) (name : String) : Option TypeEntry :=
  v.kind?.bind fun kind =>
    if name = operatorInputName kind then some (Registry.operatorEntry kind) else none

/-- The entry that comes in under a name, if it is that of any operators. -/
def operators? (vs : List Verdict) (name : String) : Option TypeEntry :=
  vs.findSome? (·.operator? name)

/-- Only kinds of values that conditions compare count. -/
def Plain (vs : List Verdict) : Prop :=
  ∀ v ∈ vs, ∀ kind ∈ v.kind?, kind ∈ Registry.filterableTypes

variable {vs : List Verdict} {name : String}

theorem exists_of_operators? {e : TypeEntry} (h : operators? vs name = some e) :
    ∃ v ∈ vs, ∃ kind, v.kind? = some kind ∧ name = operatorInputName kind
      ∧ e = Registry.operatorEntry kind := by
  obtain ⟨v, hv, hsome⟩ := List.exists_of_findSome?_eq_some h
  obtain ⟨kind, hkind, hsome⟩ := Option.bind_eq_some_iff.mp hsome
  split at hsome
  · rename_i hname
    cases hsome
    exact ⟨v, hv, kind, hkind, hname, rfl⟩
  · cases hsome

theorem operators?_eq_some {e : TypeEntry} (hplain : Plain vs)
    (h : operators? vs name = some e) : ∃ kind ∈ Registry.filterableTypes,
      name = operatorInputName kind ∧ e = Registry.operatorEntry kind := by
  obtain ⟨v, hv, kind, hkind, hname, he⟩ := exists_of_operators? h
  exact ⟨kind, hplain v hv kind hkind, hname, he⟩

theorem isSome_operators? {v : Verdict} {kind : String} (hv : v ∈ vs) (hkind : v.kind? = some kind) :
    (operators? vs (operatorInputName kind)).isSome = true := by
  refine List.findSome?_isSome_iff.mpr ⟨v, hv, ?_⟩
  rw [operator?, hkind, Option.bind_some, if_pos rfl]
  rfl

theorem operators?_of_isFilterName (hplain : Plain vs) (h : IsFilterName name) :
    operators? vs name = none := by
  cases hsome : operators? vs name with
  | none => rfl
  | some e =>
    obtain ⟨kind, hkind, rfl, -⟩ := operators?_eq_some hplain hsome
    exact absurd h (Registry.not_isFilterName hkind)

end Verdict

/-- What a run that writes the filters of a field does. -/
structure FilterPlan where
  /-- The type with the field. -/
  type : String
  /-- The field. -/
  field : String
  /-- Whether the field is a list. -/
  isList : Bool
  /-- The verdicts on the lines of the returned type. -/
  verdicts : List Verdict
  /-- Whether the order enum is dropped. -/
  drops : Bool

namespace FilterPlan

/-- What stands under a name before the order argument is taken away. -/
def written? (p : FilterPlan) (name : String) (x : Option TypeEntry) : Option TypeEntry :=
  if name = whereInputName p.type p.field then
    some (((x.getD {}).asInput name).onLines (Verdict.conditions p.verdicts))
  else if name = orderEnumName p.type p.field then
    if p.isList then
      if p.drops then none else some ((x.getD {}).asEnum.onLines (Verdict.orders p.verdicts))
    else x
  else x.or (Verdict.operators? p.verdicts name)

/-- What becomes of what stands under a name. -/
def act (p : FilterPlan) (name : String) (x : Option TypeEntry) : Option TypeEntry :=
  if p.drops ∧ name = p.type then (p.written? name x).map (·.withoutOrder p.field) else p.written? name x

end FilterPlan

namespace Registry

variable {r r' r1 : Registry} {type field returned name : String} {isList : Bool} {v : Verdict}
  {vs : List Verdict}

theorem isPopulated_eq (r : Registry) (name : String) :
    r.isPopulated name = !(r.entry name).lines.isEmpty := by
  unfold isPopulated entry
  cases Table.get? r name <;> rfl

theorem get?_eq_some_entry (h : Table.has r name = true) :
    Table.get? r name = some (r.entry name) := by
  rw [Table.has_eq_isSome] at h
  rw [entry]
  cases hget : Table.get? r name with
  | none =>
    rw [hget] at h
    cases h
  | some e => rfl

theorem has_of_isPopulated (h : r.isPopulated name = true) : Table.has r name = true := by
  unfold isPopulated at h
  rw [Table.has_eq_isSome]
  cases hget : Table.get? r name with
  | none =>
    rw [hget] at h
    cases h
  | some e => rfl

/-! ### Verdicts -/

/-- Write the condition of a line, or take it out. -/
def writeCondition (r : Registry) (whereInput : String) (v : Verdict) : Registry :=
  match v.kind? with
  | some kind => setFieldType (ensureOperatorInput r kind) whereInput v.key (operatorInputName kind)
  | none => deleteField r whereInput v.key

/-- Write the filters of a line. -/
def write (type field : String) (r : Registry) (v : Verdict) : Registry :=
  if v.sorts then
    addOrderValues (writeCondition r (whereInputName type field) v) (orderEnumName type field) v.key
  else writeCondition r (whereInputName type field) v

/-- Write the filters of lines. -/
def writeAll (type field : String) (r : Registry) (vs : List Verdict) : Registry :=
  vs.foldl (write type field) r

theorem get?_writeCondition {w : String} (hw : Table.has r w = true) (v : Verdict) (n : String) :
    Table.get? (writeCondition r w v) n
      = if n = w then (Table.get? r w).map (·.onLines v.condition)
        else (Table.get? r n).or (v.operator? n) := by
  unfold writeCondition Verdict.operator? Verdict.condition
  split
  · rename_i kind hkind
    rw [setFieldType, updateField, updateType, Table.get?_update, ensureOperatorInput,
      Table.get?_ensure, Table.get?_ensure, get?_eq_some_entry hw, hkind]
    by_cases hn : n = w
    · simp [hn, TypeEntry.onLines, TypeEntry.updateLine]
    · rw [if_neg (by simpa using hn), if_neg hn, Option.bind_some]
      simp only [beq_iff_eq, operatorEntry]
  · rename_i hkind
    rw [deleteField, Table.get?_modify, hkind]
    by_cases hn : n = w
    · simp [hn, TypeEntry.onLines]
    · simp [hn]

theorem get?_ensureFields {o : String} (names : List String) (ho : Table.has r o = true)
    (n : String) :
    Table.get? (names.foldl (fun r name => ensureField r o name) r) n
      = if n = o then (Table.get? r o).map (·.onLines fun lines => lines.ensureAll names {})
        else Table.get? r n := by
  induction names generalizing r with
  | nil => by_cases hn : n = o <;> simp [hn, TypeEntry.onLines, Table.ensureAll]
  | cons name names ih =>
    have hthere : Table.has (ensureField r o name) o = true := by
      rw [ensureField, updateField]
      exact has_updateType o o _ ho
    rw [List.foldl_cons, ih hthere, ensureField, updateField, updateType, Table.get?_update,
      Table.get?_update, get?_eq_some_entry ho]
    by_cases hn : n = o
    · simp [hn, TypeEntry.onLines, TypeEntry.updateLine, Table.update_id, Table.ensureAll]
    · simp [hn]

/-- Writing the filters of a line changes each entry on its own. -/
theorem get?_write (hw : Table.has r (whereInputName type field) = true)
    (ho : v.sorts = true → Table.has r (orderEnumName type field) = true)
    (hplain : ∀ kind ∈ v.kind?, kind ∈ filterableTypes) (n : String) :
    Table.get? (write type field r v) n
      = if n = whereInputName type field then (Table.get? r n).map (·.onLines v.condition)
        else if n = orderEnumName type field then (Table.get? r n).map (·.onLines v.order)
        else (Table.get? r n).or (v.operator? n) := by
  have hne := whereInputName_ne_orderEnumName type field
  have hoperator : v.operator? (orderEnumName type field) = none := by
    unfold Verdict.operator?
    cases hkind : v.kind? with
    | none => rfl
    | some kind =>
      refine if_neg fun heq => not_isFilterName (hplain kind hkind) ?_
      exact heq ▸ isFilterName_orderEnumName type field
  have hcondition := get?_writeCondition hw v
  unfold write Verdict.order Verdict.values
  split
  · rename_i hsorts
    have hthere : Table.has (writeCondition r (whereInputName type field) v)
        (orderEnumName type field) = true := by
      rw [Table.has_eq_isSome, hcondition, if_neg hne.symm, hoperator, Option.or_none,
        ← Table.has_eq_isSome]
      exact ho hsorts
    rw [addOrderValues, ← List.foldl_map (f := fun d => v.key ++ "_" ++ d)
      (g := fun r name => ensureField r (orderEnumName type field) name), get?_ensureFields _ hthere,
      hcondition, hcondition, if_neg hne.symm, hoperator, Option.or_none]
    by_cases hn : n = whereInputName type field
    · simp [hn, hne]
    · by_cases hn' : n = orderEnumName type field <;> simp [hn, hn', hne.symm]
  · rw [hcondition]
    by_cases hn : n = whereInputName type field
    · simp [hn]
    · by_cases hn' : n = orderEnumName type field
      · simp [hn', hne.symm, hoperator, TypeEntry.onLines, Table.ensureAll]
      · simp [hn, hn']

/-- **Writing the filters of lines changes each entry on its own.** -/
theorem get?_writeAll (hw : Table.has r (whereInputName type field) = true)
    (ho : ∀ v ∈ vs, v.sorts = true → Table.has r (orderEnumName type field) = true)
    (hplain : Verdict.Plain vs) (n : String) :
    Table.get? (writeAll type field r vs) n
      = if n = whereInputName type field then
          (Table.get? r n).map (·.onLines (Verdict.conditions vs))
        else if n = orderEnumName type field then
          (Table.get? r n).map (·.onLines (Verdict.orders vs))
        else (Table.get? r n).or (Verdict.operators? vs n) := by
  induction vs generalizing r with
  | nil =>
    simp [writeAll, TypeEntry.onLines, Verdict.conditions, Verdict.orders, Table.ensureAll,
      Verdict.operators?]
  | cons v vs ih =>
    have hget := get?_write hw (ho v List.mem_cons_self) (hplain v List.mem_cons_self)
    have hsame : ∀ n ∈ derivedNames type field,
        Table.has (write type field r v) n = Table.has r n := by
      intro n hn
      rw [Table.has_eq_isSome, hget, Table.has_eq_isSome]
      rcases List.mem_cons.mp hn with rfl | hn
      · simp
      · rw [List.mem_singleton.mp hn]
        simp [(whereInputName_ne_orderEnumName type field).symm]
    rw [writeAll, List.foldl_cons, ← writeAll, ih ((hsame _ List.mem_cons_self).trans hw)
      (fun v' hv' hsorts => (hsame _ (List.mem_cons_of_mem _ List.mem_cons_self)).trans
        (ho v' (List.mem_cons_of_mem v hv') hsorts))
      fun v' hv' => hplain v' (List.mem_cons_of_mem v hv'), hget]
    by_cases hn : n = whereInputName type field
    · simp [hn, TypeEntry.onLines, Verdict.conditions_cons, Function.comp_def]
    · by_cases hn' : n = orderEnumName type field
      · simp [hn', (whereInputName_ne_orderEnumName type field).symm, TypeEntry.onLines,
          Verdict.orders_cons, Function.comp_def]
      · simp only [hn, hn', if_false, Option.or_assoc, Verdict.operators?, List.findSome?_cons]
        cases v.operator? n <;> simp

/-! ### Whole fields -/

/-- A registry in which the derived types of a field are begun and filled by verdicts, where an
order enum that is left without values is dropped. -/
def filled (r : Registry) (type field : String) (isList : Bool) (vs : List Verdict) : Registry :=
  if isList then
    dropEmptyOrder (writeAll type field (r.opened type field isList) vs) type field
      (orderEnumName type field)
  else writeAll type field (r.opened type field isList) vs

/-- What filling the derived types of a field by verdicts does. -/
def planOf (r : Registry) (type field : String) (isList : Bool) (vs : List Verdict) : FilterPlan where
  type := type
  field := field
  isList := isList
  verdicts := vs
  drops := isList && (Verdict.orders vs (r.entry (orderEnumName type field)).lines).isEmpty

@[simp] theorem planOf_type : (r.planOf type field isList vs).type = type := rfl

@[simp] theorem planOf_field : (r.planOf type field isList vs).field = field := rfl

@[simp] theorem planOf_isList : (r.planOf type field isList vs).isList = isList := rfl

@[simp] theorem planOf_verdicts : (r.planOf type field isList vs).verdicts = vs := rfl

theorem get?_updateType (r : Registry) (type n : String) (f : TypeEntry → TypeEntry) :
    Table.get? (updateType r type f) n
      = if n = type then some (f (r.entry type)) else Table.get? r n := by
  rw [updateType, Table.get?_update, entry]
  by_cases hn : n = type <;> simp [hn]

theorem get?_begun (r : Registry) (type field n : String) :
    Table.get? (r.begun type field) n
      = if n = whereInputName type field then
          some ((r.entry (whereInputName type field)).asInput (whereInputName type field))
        else Table.get? r n := by
  unfold begun TypeEntry.asInput
  rw [isPopulated_eq]
  cases hlines : (r.entry (whereInputName type field)).lines with
  | cons l ls =>
    have hhas : Table.has r (whereInputName type field) = true :=
      has_of_isPopulated (by rw [isPopulated_eq, hlines]; rfl)
    by_cases hn : n = whereInputName type field
    · simp [hn, get?_eq_some_entry hhas]
    · simp [hn]
  | nil =>
    unfold startWhereInput connectives setFieldType updateField setKind
    rw [if_neg (by simp), List.foldl_cons, List.foldl_cons, List.foldl_nil, get?_updateType,
      get?_updateType, get?_updateType, entry_updateType, if_pos rfl, entry_updateType, if_pos rfl]
    by_cases hn : n = whereInputName type field
    · simp [hn, TypeEntry.updateLine, hlines, Table.update, Table.ensure, Table.modify, Table.has,
        TypeEntry.connectiveLines, connectives]
    · simp [hn]

/-- Beginning the derived types of a field changes each of them on its own. -/
theorem get?_opened (r : Registry) (type field : String) (isList : Bool) (n : String) :
    Table.get? (r.opened type field isList) n
      = if n = whereInputName type field then
          some ((r.entry (whereInputName type field)).asInput (whereInputName type field))
        else if n = orderEnumName type field ∧ isList = true then
          some (r.entry (orderEnumName type field)).asEnum
        else Table.get? r n := by
  have hne := whereInputName_ne_orderEnumName type field
  have hentry : (r.begun type field).entry (orderEnumName type field)
      = r.entry (orderEnumName type field) := by
    rw [entry, get?_begun, if_neg hne.symm, entry]
  have hpopulated := isPopulated_eq r (orderEnumName type field)
  unfold opened TypeEntry.asEnum
  cases isList with
  | false => simp [get?_begun]
  | true =>
    cases hlines : (r.entry (orderEnumName type field)).lines with
    | cons l ls =>
      rw [hlines] at hpopulated
      have hget := get?_eq_some_entry (has_of_isPopulated hpopulated)
      by_cases hn : n = orderEnumName type field
      · simp [hn, hne.symm, hpopulated, get?_begun, hget]
      · simp [hn, hpopulated, get?_begun]
    | nil =>
      rw [hlines] at hpopulated
      rw [hpopulated, Bool.true_and, List.isEmpty_nil, Bool.not_true, Bool.not_false, if_pos rfl,
        setKind, get?_updateType, hentry, get?_begun]
      by_cases hn : n = orderEnumName type field
      · simp [hn, hne.symm, hlines]
      · simp [hn]

theorem has_opened_input (r : Registry) (type field : String) (isList : Bool) :
    Table.has (r.opened type field isList) (whereInputName type field) = true := by
  rw [Table.has_eq_isSome, get?_opened, if_pos rfl]
  rfl

theorem has_opened_order (r : Registry) (type field : String) :
    Table.has (r.opened type field true) (orderEnumName type field) = true := by
  rw [Table.has_eq_isSome, get?_opened, if_neg (whereInputName_ne_orderEnumName type field).symm,
    if_pos ⟨rfl, rfl⟩]
  rfl

theorem get?_dropEmptyOrder (r : Registry) (type field o n : String) :
    Table.get? (dropEmptyOrder r type field o) n
      = if r.isPopulated o then Table.get? r n
        else if n = type then (if n = o then none else Table.get? r n).map (·.withoutOrder field)
        else if n = o then none else Table.get? r n := by
  unfold dropEmptyOrder
  split
  · rfl
  · rw [Table.get?_modify, Table.get?_erase]
    by_cases hn : n = type
    · simp only [hn, beq_self_eq_true, if_true, beq_iff_eq]
      rfl
    · simp [hn]

section filled

variable (hplain : Verdict.Plain vs) (hsorts : ∀ v ∈ vs, v.sorts = true → isList = true)
include hplain hsorts

theorem get?_writeAll_opened (r : Registry) (type field n : String) :
    Table.get? (writeAll type field (r.opened type field isList) vs) n
      = if n = whereInputName type field then
          some (((r.entry n).asInput n).onLines (Verdict.conditions vs))
        else if n = orderEnumName type field then
          if isList then some ((r.entry n).asEnum.onLines (Verdict.orders vs))
          else (Table.get? r n).map (·.onLines (Verdict.orders vs))
        else (Table.get? r n).or (Verdict.operators? vs n) := by
  have hne := whereInputName_ne_orderEnumName type field
  rw [get?_writeAll (r.has_opened_input type field isList) (fun v hv hs => by
    rw [hsorts v hv hs]
    exact r.has_opened_order type field) hplain, get?_opened]
  by_cases hn : n = whereInputName type field
  · simp [hn]
  · by_cases hn' : n = orderEnumName type field
    · cases isList <;> simp [hn', hne.symm]
    · simp [hn, hn']

/-- The order enum is dropped if it is left without values. -/
theorem isPopulated_writeAll_opened (r : Registry) (type field : String) (hlist : isList = true) :
    (writeAll type field (r.opened type field isList) vs).isPopulated (orderEnumName type field)
      = !(r.planOf type field isList vs).drops := by
  have hlines : ((r.entry (orderEnumName type field)).asEnum.onLines (Verdict.orders vs)).lines
      = Verdict.orders vs (r.entry (orderEnumName type field)).lines := by
    unfold TypeEntry.asEnum TypeEntry.onLines
    split <;> rfl
  rw [isPopulated_eq, entry, get?_writeAll_opened hplain hsorts,
    if_neg (whereInputName_ne_orderEnumName type field).symm, if_pos rfl, if_pos hlist,
    Option.getD_some, hlines, planOf, hlist, Bool.true_and]

/-- **Filling the derived types of a field changes each entry on its own.** -/
theorem get?_filled (n : String) :
    Table.get? (r.filled type field isList vs) n
      = (r.planOf type field isList vs).act n (Table.get? r n) := by
  have hne := whereInputName_ne_orderEnumName type field
  have hwritten := get?_writeAll_opened hplain hsorts r type field
  have hpopulated := isPopulated_writeAll_opened hplain hsorts r type field
  cases isList with
  | false =>
    have hvalues : ∀ v ∈ vs, v.values = [] := fun v hv =>
      if_neg fun hs => Bool.false_ne_true (hsorts v hv hs)
    have horders : Verdict.orders vs = id := funext fun lines => by
      rw [Verdict.orders, List.flatMap_eq_nil_iff.mpr hvalues]
      rfl
    unfold filled planOf FilterPlan.act FilterPlan.written?
    simp only [Bool.false_eq_true, if_false, Bool.false_and, false_and, hwritten, horders, entry]
    cases Table.get? r n <;> rfl
  | true =>
    have hpopulated := hpopulated rfl
    unfold filled
    rw [if_pos rfl, get?_dropEmptyOrder, hpopulated, hwritten]
    unfold FilterPlan.act FilterPlan.written?
    cases hdrops : (r.planOf type field true vs).drops with
    | false => simp [entry]
    | true =>
      by_cases hn : n = orderEnumName type field
      · simp [hn, hne.symm]
      · simp [hn, entry]

end filled

end Registry
end SchemaForge
