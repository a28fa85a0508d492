import SchemaForge.Proofs.Registry.Conditions

/-!
# What the filters of one field touch

The filters of a field stand under two derived names, its condition input and its order enum.
Every other type that is there keeps its outline: its kind, its directives and its lines but
for their arguments. Under the two names themselves stand no more than connectives and lines
of the returned type, and values for those that can be sorted by.

Unlike `Filtered`, which leaves out all names that any filters could be written under, this
names the two derived names of the field, so that a type that happens to be called like the
filters of another field is kept as well.
-/
namespace SchemaForge

/-- What an entry says but for the arguments of its lines. -/
def TypeEntry.outline (e : TypeEntry) :
    Language.TypeKind × List String × List (String × String × List String) :=
  (e.kind, e.directives, e.lines.map fun l => (l.1, l.2.type, l.2.directives))

/-- The names that the filters of a field are written under. -/
def derivedNames (type field : String) : List String :=
  [whereInputName type field, orderEnumName type field]

theorem whereInputName_ne_orderEnumName (type field : String) :
    whereInputName type field ≠ orderEnumName type field := by
  intro h
  have hlength := congrArg String.length h
  have hwhere : (capitalized whereWord).length = 12 := by decide
  have horder : (capitalized orderWord).length = 11 := by decide
  simp only [whereInputName, orderEnumName, derivedName, String.length_append, hwhere, horder]
    at hlength
  omega

theorem length_le_capitalized (s : String) : s.length ≤ (capitalized s).length + 1 := by
  unfold capitalized
  split
  · omega
  · rename_i c cs heq
    rw [String.length_ofList, List.length_append, ← String.length_toList, heq, List.length_cons]
    omega

/-- The derived types of a field are longer than the type that the field is of. -/
theorem owner_not_mem_derivedNames (type field : String) : type ∉ derivedNames type field := by
  have hwhere : (capitalized whereWord).length = 12 := by decide
  have horder : (capitalized orderWord).length = 11 := by decide
  have hlength := length_le_capitalized type
  intro hmem
  rcases List.mem_cons.mp hmem with heq | hmem
  · have hsame := congrArg String.length heq
    simp only [whereInputName, derivedName, String.length_append, hwhere] at hsame
    omega
  · have hsame := congrArg String.length (List.mem_singleton.mp hmem)
    simp only [orderEnumName, derivedName, String.length_append, horder] at hsame
    omega

/-- Order values of different fields are different. -/
theorem OrderTerm.value_inj {key key' : String} {descending descending' : Bool}
    (h : value key descending = value key' descending') : key = key' := by
  have hreversed := congrArg (fun s => s.toList.reverse) h
  cases descending <;> cases descending' <;> simp [value] at hreversed
  · exact String.toList_inj.mp hreversed
  · exact String.toList_inj.mp hreversed

/-- Each direction makes an order value of the field. -/
theorem OrderTerm.exists_value_eq (key : String) {direction : String}
    (h : direction ∈ Registry.directions) :
    ∃ descending, key ++ "_" ++ direction = value key descending := by
  simp only [Registry.directions, List.mem_cons, List.not_mem_nil, or_false] at h
  rcases h with rfl | rfl
  · exact ⟨false, rfl⟩
  · exact ⟨true, rfl⟩

namespace Registry

/-- The outline of a type, if it is there. -/
def outline? (r : Registry) (type : String) :
    Option (Language.TypeKind × List String × List (String × String × List String)) :=
  (Table.get? r type).map TypeEntry.outline

/-- A type that is there or does not hold operators. -/
def IsSettled (r : Registry) (type : String) : Prop :=
  Table.has r type = true ∨ ∀ kind ∈ filterableTypes, type ≠ operatorInputName kind

/-- Types keep their outlines, but for derived names and for operators that come in. -/
def Framed (derived : String → Prop) (r r' : Registry) : Prop :=
  ∀ t, ¬derived t → r.IsSettled t → r'.outline? t = r.outline? t

variable {r r' r'' : Registry} {derived : String → Prop} {type field name : String}

section outline

/-- Types of one outline have the same lines but for arguments. -/
theorem lines_of_outline? (h : r'.outline? name = r.outline? name) :
    (r'.entry name).lines.map (fun l => (l.1, l.2.type, l.2.directives))
      = (r.entry name).lines.map fun l => (l.1, l.2.type, l.2.directives) := by
  unfold outline? at h
  unfold entry
  cases hget : Table.get? r name with
  | none =>
    rw [hget] at h
    rw [Option.map_eq_none_iff.mp h]
  | some e =>
    rw [hget] at h
    obtain ⟨e', he', hsame⟩ := Option.map_eq_some_iff.mp h
    rw [he']
    exact congrArg (fun o => o.2.2) hsame

theorem keys_of_outline? (h : r'.outline? name = r.outline? name) :
    Table.keys (r'.entry name).lines = Table.keys (r.entry name).lines := by
  have hlines := congrArg (List.map Prod.fst) (lines_of_outline? h)
  simpa [Table.keys, Function.comp_def] using hlines

theorem has_of_outline? (h : r'.outline? name = r.outline? name) :
    Table.has r' name = Table.has r name := by
  have hsome := congrArg Option.isSome h
  rw [outline?, outline?, Option.isSome_map, Option.isSome_map] at hsome
  rw [Table.has_eq_isSome, Table.has_eq_isSome, hsome]

theorem kind_of_outline? (h : r'.outline? name = r.outline? name) :
    (Table.get? r' name).map (·.kind) = (Table.get? r name).map (·.kind) := by
  have hkinds := congrArg (Option.map Prod.fst) h
  simpa [outline?, Option.map_map, Function.comp_def, TypeEntry.outline] using hkinds

/-- The signature of a line. -/
theorem type_of_outline? (h : r'.outline? name = r.outline? name) (field : String) :
    (r'.line? name field).map (·.type) = (r.line? name field).map (·.type) := by
  have hget : ∀ (lines : Table FieldLine), (Table.get? lines field).map (·.type)
      = (Table.get? (lines.map fun l => (l.1, l.2.type, l.2.directives)) field).map (·.1) := by
    intro lines
    rw [Table.get?_mapEntries lines fun l => (l.2.type, l.2.directives), Option.map_map]
    rfl
  have hline : ∀ r : Registry, r.line? name field = Table.get? (r.entry name).lines field := by
    intro r
    rw [line?, entry]
    cases Table.get? r name <;> rfl
  rw [hline, hline, hget, hget, lines_of_outline? h]

theorem line_of_outline? (h : r'.outline? name = r.outline? name) (field : String) :
    (r'.line name field).type = (r.line name field).type := by
  have htype := type_of_outline? h field
  rw [line_eq_getD_line?, line_eq_getD_line?]
  cases hline : r.line? name field with
  | none =>
    rw [hline] at htype
    rw [Option.map_eq_none_iff.mp htype]
  | some line =>
    rw [hline] at htype
    obtain ⟨line', hline', hsame⟩ := Option.map_eq_some_iff.mp htype
    rw [hline']
    exact hsame

end outline

/-- Derived names are those of filters. -/
theorem isFilterName_of_mem_derivedNames (h : name ∈ derivedNames type field) :
    IsFilterName name := by
  rcases List.mem_cons.mp h with rfl | h
  · exact isFilterName_whereInputName type field
  · exact List.mem_singleton.mp h ▸ isFilterName_orderEnumName type field

/-! ### Single changes -/

/-- A change of one type leaves the others. -/
theorem outline?_updateType (h : name ≠ type) (f : TypeEntry → TypeEntry) :
    (updateType r type f).outline? name = r.outline? name := by
  rw [outline?, updateType, Table.get?_update, if_neg (by simpa using h), outline?]

theorem outline?_modify (h : name ≠ type) (f : TypeEntry → TypeEntry) :
    outline? (Table.modify r type f) name = r.outline? name := by
  rw [outline?, Table.get?_modify, if_neg (by simpa using h), outline?]

/-- Changing the arguments of a line leaves the outline. -/
theorem outline_modifyArguments (field : String) (f : Table (List String) → Table (List String))
    (e : TypeEntry) : TypeEntry.outline { e with lines := e.lines.modify field fun line =>
      { line with arguments := f line.arguments } } = e.outline := by
  simp only [TypeEntry.outline, Table.modify, List.map_map, Prod.mk.injEq, true_and]
  refine List.map_congr_left fun l _ => ?_
  simp only [Function.comp]
  split <;> rfl

theorem outline?_modifyArguments (type field : String)
    (f : Table (List String) → Table (List String)) (name : String) :
    outline? (Table.modify r type fun entry =>
      { entry with lines := entry.lines.modify field fun line =>
          { line with arguments := f line.arguments } }) name = r.outline? name := by
  rw [outline?, Table.get?_modify, outline?]
  split
  · rw [Option.map_map]
    exact congrArg (Option.map · _) (funext (outline_modifyArguments field f))
  · rfl

/-- Dropping an order enum leaves the outlines of all other types. -/
theorem outline?_dropEmptyOrder {orderEnum : String} (h : name ≠ orderEnum) (r : Registry)
    (type field : String) :
    (dropEmptyOrder r type field orderEnum).outline? name = r.outline? name := by
  unfold dropEmptyOrder
  split
  · rfl
  · rw [outline?_modifyArguments (r := Table.erase r _) type field (·.erase "order"), outline?,
      Table.get?_erase, if_neg (by simpa using h), outline?]

theorem Framed.mono {derived' : String → Prop} (h : Framed derived r r')
    (hderived : ∀ n, derived n → derived' n) : Framed derived' r r' :=
  fun t ht => h t fun hd => ht (hderived t hd)

theorem IsSettled.of_outline? (h : r.IsSettled name) (hsame : r'.outline? name = r.outline? name) :
    r'.IsSettled name := h.imp (has_of_outline? hsame ▸ ·) id

theorem Framed.trans (h : Framed derived r r') (h' : Framed derived r' r'') :
    Framed derived r r'' := fun t ht hsettled =>
  have hsame := h t ht hsettled
  (h' t ht (hsettled.of_outline? hsame)).trans hsame

theorem Framed.refl (r : Registry) : Framed derived r r := fun _ _ _ => rfl

/-- A change of derived names, and perhaps of arguments. -/
theorem Framed.of_outline? (h : Framed derived r r')
    (hsame : ∀ t, ¬derived t → r''.outline? t = r'.outline? t) : Framed derived r r'' :=
  fun t ht hsettled => (hsame t ht).trans (h t ht hsettled)

theorem Framed.updateType (h : Framed derived r r') (hd : derived type)
    (f : TypeEntry → TypeEntry) : Framed derived r (updateType r' type f) :=
  h.of_outline? fun t ht => outline?_updateType (fun (heq : t = type) => ht (heq ▸ hd)) f

theorem Framed.updateField (h : Framed derived r r') (hd : derived type) (field : String)
    (f : FieldLine → FieldLine) : Framed derived r (updateField r' type field f) :=
  h.updateType hd _

theorem Framed.startWhereInput (h : Framed derived r r') (hd : derived type) :
    Framed derived r (startWhereInput r' type) := by
  unfold Registry.startWhereInput connectives
  rw [List.foldl_cons, List.foldl_cons, List.foldl_nil]
  exact (Framed.updateField (h.updateType hd _) hd _ _).updateField hd _ _

/-- Operators come in where there are none. -/
theorem Framed.ensureOperatorInput (h : Framed derived r r') {kind : String}
    (hkind : kind ∈ filterableTypes) : Framed derived r (ensureOperatorInput r' kind) := by
  intro t ht hsettled
  have hsame := h t ht hsettled
  rw [← hsame]
  by_cases hname : t = operatorInputName kind
  · have hthere : Table.has r' t = true := by
      rw [has_of_outline? hsame]
      exact hsettled.resolve_right fun hfree => hfree kind hkind hname
    rw [ensureOperatorInput_of_has (hname ▸ hthere)]
  · rw [outline?, get?_ensureOperatorInput_of_ne hname, outline?]

theorem Framed.dropEmptyOrder (h : Framed derived r r') (hd : derived (orderEnumName type field)) :
    Framed derived r (dropEmptyOrder r' type field (orderEnumName type field)) :=
  h.of_outline? fun t ht =>
    outline?_dropEmptyOrder (fun (heq : t = orderEnumName type field) => ht (heq ▸ hd)) r' type field

/-- **Writing the filters of a field keeps the outlines of all other types.** -/
theorem keptByFilters_framed (r : Registry) (hd : ∀ n ∈ derivedNames type field, derived n)
    (returned : String) (lines : String → String → Prop) :
    KeptByFilters (Framed derived r) type field returned lines := by
  have hw : derived (whereInputName type field) := hd _ List.mem_cons_self
  have ho : derived (orderEnumName type field) := hd _ (List.mem_cons_of_mem _ List.mem_cons_self)
  exact {
    start := fun r' h => h.startWhereInput hw
    enum := fun r' h => h.updateType ho _
    entry := fun r' key _ kind _ hkind h =>
      (h.ensureOperatorInput (mem_filterableTypes hkind)).updateField hw key _
    delete := fun r' key _ _ _ h => h.of_outline? fun t ht =>
      outline?_modify (fun (heq : t = whereInputName type field) => ht (heq ▸ hw)) _
    values := fun r' key _ _ _ => addOrderValues_of_value (fun r'' d _ h => h.updateField ho _ _) r'
    drop := fun r' h => h.dropEmptyOrder ho }

/-! ### What stands under the derived names -/

/-- Under the derived names of a field stand no more than connectives, these keys, and the
order values of these keys. -/
structure Bounded (type field : String) (keys sorted : String → Prop) (r : Registry) : Prop where
  /-- What the condition input has. -/
  wheres : ∀ l ∈ (r.entry (whereInputName type field)).lines,
    Condition.isConnective l.1 = true ∨ keys l.1
  /-- What the order enum has. -/
  orders : ∀ l ∈ (r.entry (orderEnumName type field)).lines,
    ∃ key descending, l.1 = OrderTerm.value key descending ∧ sorted key

variable {keys sorted : String → Prop}

theorem Bounded.mono {keys' sorted' : String → Prop} (h : Bounded type field keys sorted r)
    (hkeys : ∀ k, keys k → keys' k) (hsorted : ∀ k, sorted k → sorted' k) :
    Bounded type field keys' sorted' r where
  wheres l hl := (h.wheres l hl).imp id (hkeys l.1)
  orders l hl := by
    obtain ⟨key, descending, hname, hkey⟩ := h.orders l hl
    exact ⟨key, descending, hname, hsorted key hkey⟩

/-- Only the names of the lines matter. -/
theorem Bounded.of_keys (h : Bounded type field keys sorted r)
    (hw : ∀ l ∈ (r'.entry (whereInputName type field)).lines,
      (∃ l' ∈ (r.entry (whereInputName type field)).lines, l'.1 = l.1)
        ∨ Condition.isConnective l.1 = true ∨ keys l.1)
    (ho : ∀ l ∈ (r'.entry (orderEnumName type field)).lines,
      (∃ l' ∈ (r.entry (orderEnumName type field)).lines, l'.1 = l.1)
        ∨ ∃ key descending, l.1 = OrderTerm.value key descending ∧ sorted key) :
    Bounded type field keys sorted r' where
  wheres l hl := by
    obtain ⟨l', hl', hname⟩ | hnew := hw l hl
    · exact hname ▸ h.wheres l' hl'
    · exact hnew
  orders l hl := by
    obtain ⟨l', hl', hname⟩ | hnew := ho l hl
    · exact hname ▸ h.orders l' hl'
    · exact hnew

/-- A change of the condition input by one line. -/
theorem Bounded.updateWhere (h : Bounded type field keys sorted r) {key : String}
    (hkey : Condition.isConnective key = true ∨ keys key) (f : FieldLine → FieldLine) :
    Bounded type field keys sorted (updateField r (whereInputName type field) key f) := by
  refine h.of_keys (fun l hl => ?_) fun l hl => ?_
  · rw [updateField, entry_updateType, if_pos rfl] at hl
    rcases mem_update hl with hl | ⟨line, -, rfl⟩
    · exact .inl ⟨l, hl, rfl⟩
    · exact .inr hkey
  · rw [updateField, entry_updateType, if_neg (whereInputName_ne_orderEnumName type field).symm]
      at hl
    exact .inl ⟨l, hl, rfl⟩

/-- A change of the order enum by one line. -/
theorem Bounded.updateOrder (h : Bounded type field keys sorted r) {key value : String}
    (hkey : ∃ descending, value = OrderTerm.value key descending) (hsorted : sorted key)
    (f : FieldLine → FieldLine) :
    Bounded type field keys sorted (updateField r (orderEnumName type field) value f) := by
  refine h.of_keys (fun l hl => ?_) fun l hl => ?_
  · rw [updateField, entry_updateType, if_neg (whereInputName_ne_orderEnumName type field)] at hl
    exact .inl ⟨l, hl, rfl⟩
  · rw [updateField, entry_updateType, if_pos rfl] at hl
    rcases mem_update hl with hl | ⟨line, -, rfl⟩
    · exact .inl ⟨l, hl, rfl⟩
    · obtain ⟨descending, hvalue⟩ := hkey
      exact .inr ⟨key, descending, hvalue, hsorted⟩

/-- A change that takes lines away. -/
theorem Bounded.of_fewer (h : Bounded type field keys sorted r)
    (hlines : ∀ name ∈ derivedNames type field, ∀ l ∈ (r'.entry name).lines,
      ∃ l' ∈ (r.entry name).lines, l'.1 = l.1) : Bounded type field keys sorted r' :=
  h.of_keys (fun l hl => .inl (hlines _ List.mem_cons_self l hl))
    fun l hl => .inl (hlines _ (List.mem_cons_of_mem _ List.mem_cons_self) l hl)

theorem Bounded.setKind (h : Bounded type field keys sorted r) (name : String)
    (kind : Language.TypeKind) : Bounded type field keys sorted (setKind r name kind) := by
  refine h.of_fewer fun n _ l hl => ⟨l, ?_, rfl⟩
  rw [Registry.setKind, entry_updateType] at hl
  split at hl
  · rename_i heq
    exact heq ▸ hl
  · exact hl

theorem Bounded.ensureOperatorInput (h : Bounded type field keys sorted r) {kind : String}
    (hkind : kind ∈ filterableTypes) :
    Bounded type field keys sorted (ensureOperatorInput r kind) := by
  refine h.of_fewer fun n hn l hl => ⟨l, ?_, rfl⟩
  have hne : n ≠ operatorInputName kind := by
    rintro rfl
    exact not_isFilterName hkind (isFilterName_of_mem_derivedNames hn)
  rwa [entry_ensureOperatorInput_of_ne hne] at hl

theorem Bounded.deleteField (h : Bounded type field keys sorted r) (name key : String) :
    Bounded type field keys sorted (deleteField r name key) := by
  refine h.of_fewer fun n _ l hl => ⟨l, ?_, rfl⟩
  rw [Registry.deleteField, entry_modify (r := r) name n (fun entry =>
    { entry with lines := entry.lines.erase key }) rfl] at hl
  split at hl
  · exact (List.mem_filter.mp hl).1
  · exact hl

theorem Bounded.dropEmptyOrder (h : Bounded type field keys sorted r) :
    Bounded type field keys sorted (dropEmptyOrder r type field (orderEnumName type field)) := by
  unfold Registry.dropEmptyOrder
  split
  · exact h
  · refine h.of_fewer fun n _ l hl => ?_
    have hkeys : l.1 ∈ Table.keys (entry (Table.erase r (orderEnumName type field)) n).lines := by
      rw [← keys_of_outline? (outline?_modifyArguments type field (·.erase "order") n)]
      exact List.mem_map_of_mem hl
    obtain ⟨l', hl', hname⟩ := List.mem_map.mp hkeys
    refine ⟨l', ?_, hname⟩
    rw [entry, Table.get?_erase] at hl'
    split at hl'
    · cases hl'
    · exact hl'

/-- **Writing the filters of a field writes no lines under its derived names but connectives,
those of the returned type, and the values of those that can be sorted by.** -/
theorem keptByFilters_bounded {lines : String → String → Prop} {returned : String}
    {I : Registry → Prop} (hI : KeptByFilters I type field returned lines)
    (hkeys : ∀ key s, lines key s → keys key)
    (hsorted : ∀ r key s, I r → lines key s → r.Sorts returned key → sorted key) :
    KeptByFilters (fun r => I r ∧ Bounded type field keys sorted r) type field returned lines where
  start r h := by
    refine ⟨hI.start r h.1, ?_⟩
    unfold startWhereInput connectives
    rw [List.foldl_cons, List.foldl_cons, List.foldl_nil]
    exact ((h.2.setKind _ _).updateWhere (.inl rfl) _).updateWhere (.inl rfl) _
  enum r h := ⟨hI.enum r h.1, h.2.setKind _ _⟩
  entry r key s kind hline hkind h := ⟨hI.entry r key s kind hline hkind h.1,
    (h.2.ensureOperatorInput (mem_filterableTypes hkind)).updateWhere (.inr (hkeys key s hline)) _⟩
  delete r key s hline hnone h := ⟨hI.delete r key s hline hnone h.1, h.2.deleteField _ key⟩
  values r key s hline hsorts h := by
    refine ⟨hI.values r key s hline hsorts h.1, ?_⟩
    exact addOrderValues_of_value (fun r' d hd h' => h'.updateOrder
      (OrderTerm.exists_value_eq key hd) (hsorted r key s h.1 hline hsorts) _) r h.2
  drop r h := ⟨hI.drop r h.1, h.2.dropEmptyOrder⟩

end Registry
end SchemaForge
