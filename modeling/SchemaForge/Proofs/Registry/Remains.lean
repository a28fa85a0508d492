import SchemaForge.Proofs.Registry.Sealing

/-!
# What remains of derived types

A condition input starts with the connectives, and a connective only goes where the returned type
has a line of its name. An order enum goes where it has no values, and the order argument of the
field with it. So after the filters of a list are written, **`ordered_addFilters`**, there is an
order enum or nothing that is sorted by it.
-/
namespace SchemaForge
namespace Registry

variable {I : Registry → Prop} {r r' : Registry} {type field returned name key c : String}
  {lines : String → String → Prop}

/-! ### Lines that stay -/

/-- A type has a line of a name. -/
def Shows (r : Registry) (type key : String) : Prop := key ∈ Table.keys (r.entry type).lines

theorem isPopulated_iff : r.isPopulated type = true ↔ ∃ key, r.Shows type key := by
  unfold isPopulated Shows entry
  cases hget : Table.get? r type with
  | none => simp [Table.keys]
  | some e =>
    cases hlines : e.lines with
    | nil => simp [hlines, Table.keys]
    | cons l ls => simp [hlines, Table.keys]

/-- A change of a type that keeps the names of its lines. -/
theorem Shows.updateType (h : r.Shows name key) {u : TypeEntry → TypeEntry}
    (hu : ∀ e, key ∈ Table.keys e.lines → key ∈ Table.keys (u e).lines) :
    (updateType r type u).Shows name key := by
  rw [Shows, entry_updateType]
  split
  · rename_i heq
    exact hu _ (heq ▸ h)
  · exact h

theorem Shows.setKind (h : r.Shows name key) (kind : Language.TypeKind) :
    (setKind r type kind).Shows name key := h.updateType fun _ => id

theorem Shows.updateField (h : r.Shows name key) (u : FieldLine → FieldLine) :
    (updateField r type field u).Shows name key := by
  refine h.updateType fun e he => ?_
  rw [TypeEntry.updateLine, Table.update, Table.keys_modify, Table.keys_ensure]
  split
  · exact he
  · exact List.mem_append_left _ he

/-- A line that is changed is there. -/
theorem shows_updateField (u : FieldLine → FieldLine) :
    (updateField r type field u).Shows type field := by
  rw [Shows, Registry.updateField, entry_updateType, if_pos rfl, TypeEntry.updateLine,
    Table.update, Table.keys_modify, Table.keys_ensure]
  split
  · rename_i hhas
    exact (Table.mem_keys_iff _ _).mpr hhas
  · exact List.mem_append_right _ (List.mem_singleton_self _)

theorem Shows.ensureOperatorInput (h : r.Shows name key) (kind : String) :
    (ensureOperatorInput r kind).Shows name key := by
  by_cases hname : name = operatorInputName kind
  · obtain ⟨l, hl, -⟩ := List.mem_map.mp h
    rwa [ensureOperatorInput_of_has (hname ▸ has_of_mem_lines hl)]
  · rwa [Shows, entry_ensureOperatorInput_of_ne hname]

theorem Shows.deleteField (h : r.Shows name key) (hne : name = type → key ≠ field) :
    (deleteField r type field).Shows name key := by
  rw [Shows, Registry.deleteField, entry_modify type name (fun entry =>
    { entry with lines := entry.lines.erase field }) rfl]
  split
  · rename_i heq
    obtain ⟨l, hl, rfl⟩ := List.mem_map.mp h
    exact List.mem_map_of_mem (List.mem_filter.mpr ⟨hl, by simpa using hne heq⟩)
  · exact h

theorem Shows.dropEmptyOrder (h : r.Shows name key) :
    (dropEmptyOrder r type field (orderEnumName type field)).Shows name key := by
  unfold Registry.dropEmptyOrder
  split
  · exact h
  · rename_i hempty
    have hne : name ≠ orderEnumName type field := by
      rintro rfl
      exact hempty (isPopulated_iff.mpr ⟨key, h⟩)
    rw [Shows, keys_of_outline? (outline?_modifyArguments type field (·.erase "order") name), entry,
      Table.get?_erase, if_neg (by simpa using hne)]
    exact h

/-- **A line of a type stays while filters are written**, unless it is one of the condition input
that the returned type has as well. -/
theorem keptByFilters_shows
    (h : name = whereInputName type field → ∀ k s, lines k s → key ≠ k) :
    KeptByFilters (·.Shows name key) type field returned lines where
  start r hr := by
    unfold startWhereInput connectives
    rw [List.foldl_cons, List.foldl_cons, List.foldl_nil]
    exact ((hr.setKind .input).updateField _).updateField _
  enum r hr := hr.setKind .enum
  entry r k _ kind _ _ hr := (hr.ensureOperatorInput kind).updateField _
  delete r k s hline _ hr := hr.deleteField fun hname => h hname k s hline
  values r k _ _ _ := addOrderValues_of_value (I := (·.Shows name key))
    (fun _ _ _ hr' => hr'.updateField id) r
  drop r hr := hr.dropEmptyOrder

/-! ### Connectives -/

theorem shows_startWhereInput (hc : c ∈ connectives) : (startWhereInput r name).Shows name c := by
  unfold startWhereInput connectives
  rw [List.foldl_cons, List.foldl_cons, List.foldl_nil]
  simp only [connectives, List.mem_cons, List.not_mem_nil, or_false] at hc
  rcases hc with rfl | rfl
  · exact (shows_updateField _).updateField _
  · exact shows_updateField _

/-- A condition input that has a connective, if it has anything, has it when both derived types are
begun. -/
theorem shows_opened (hc : c ∈ connectives)
    (h : r.isPopulated (whereInputName type field) = true → r.Shows (whereInputName type field) c)
    (isList : Bool) : (r.opened type field isList).Shows (whereInputName type field) c := by
  have hbegun : (r.begun type field).Shows (whereInputName type field) c := by
    unfold begun
    split
    · rename_i hpopulated
      exact h hpopulated
    · exact shows_startWhereInput hc
  unfold opened
  split
  · exact hbegun.setKind .enum
  · exact hbegun

/-- **Writing the filters of a field leaves a connective in its condition input** that the returned
type has no line for. -/
theorem shows_of_addFilters (hI : KeptByFilters I type field returned lines)
    (hlines : ∀ r, I r → ∀ l ∈ (r.entry returned).lines, lines l.1 l.2.type)
    (hc : c ∈ connectives) (hfree : ∀ k s, lines k s → c ≠ k)
    (h : r.isPopulated (whereInputName type field) = true → r.Shows (whereInputName type field) c)
    (hr : I r) {isList : Bool} {x : Unit}
    (hrun : addFilters type field returned isList r = (.ok x, r')) :
    r'.Shows (whereInputName type field) c := by
  rw [addFilters_apply] at hrun
  split at hrun
  · rename_i hboth
    cases hrun
    exact h (Bool.and_eq_true_iff.mp hboth).1
  · have hopened : I (r.opened type field isList) :=
      opened_induction hr (fun _ => hI.start r hr) fun _ _ => hI.enum
    exact (keeps_fillOpened (hI.and (keptByFilters_shows fun _ => hfree))
      (fun r' hr' => hlines r' hr'.1) isList _ x r' hrun
      ⟨hopened, shows_opened hc h isList⟩).2

/-! ### Order enums -/

/-- The order enum of a field has values, or the field has no order argument. -/
def Ordered (r : Registry) (type field : String) : Prop :=
  r.isPopulated (orderEnumName type field) = true
    ∨ ∀ l ∈ (r.entry type).lines, l.1 = field → Table.has l.2.arguments "order" = false

/-- A change that keeps values and brings no arguments. -/
theorem Ordered.mono (h : r.Ordered type field) (harguments : Shrinks r r')
    (hvalues : ∀ key, r.Shows (orderEnumName type field) key →
      r'.Shows (orderEnumName type field) key) : r'.Ordered type field := by
  refine h.imp (fun hpopulated => ?_) fun hnone l hl hfield => ?_
  · obtain ⟨key, hkey⟩ := isPopulated_iff.mp hpopulated
    exact isPopulated_iff.mpr ⟨key, hvalues key hkey⟩
  · cases horder : Table.has l.2.arguments "order" with
    | false => rfl
    | true =>
      rw [← Table.mem_keys_iff] at horder
      obtain ⟨a, ha, hname⟩ := List.mem_map.mp horder
      obtain ⟨l', hl', hsame, ha'⟩ := harguments type l hl a ha
      have hhas : "order" ∈ Table.keys l'.2.arguments := hname ▸ List.mem_map_of_mem ha'
      rw [Table.mem_keys_iff, hnone l' hl' (hsame.trans hfield)] at hhas
      cases hhas

theorem ordered_dropEmptyOrder (r : Registry) (type field : String) :
    (dropEmptyOrder r type field (orderEnumName type field)).Ordered type field := by
  unfold dropEmptyOrder
  split
  · rename_i hpopulated
    exact .inl hpopulated
  · refine .inr fun l hl hfield => ?_
    obtain ⟨-, -, -, -, hnone⟩ := mem_dropped hl
    exact hnone rfl hfield

/-- **While filters are written, an order enum and the order argument go together.** -/
theorem keptByFilters_ordered :
    KeptByFilters (·.Ordered type field) type field returned lines := by
  have hlists : ∀ key, KeptByFilters (·.Shows (orderEnumName type field) key) type field returned
      lines := fun key => keptByFilters_shows fun hname =>
    absurd hname.symm (whereInputName_ne_orderEnumName type field)
  have hshrinks : ∀ r, KeptByFilters (Shrinks r) type field returned lines :=
    fun r => keptByFilters_shrinks r type field returned lines
  exact {
    start := fun r h => h.mono ((hshrinks r).start r (.refl r)) fun key => (hlists key).start r
    enum := fun r h => h.mono ((hshrinks r).enum r (.refl r)) fun key => (hlists key).enum r
    entry := fun r k s kind hline hkind h => h.mono
      ((hshrinks r).entry r k s kind hline hkind (.refl r))
      fun key => (hlists key).entry r k s kind hline hkind
    delete := fun r k s hline hnone h => h.mono ((hshrinks r).delete r k s hline hnone (.refl r))
      fun key => (hlists key).delete r k s hline hnone
    values := fun r k s hline hsorts h => h.mono
      ((hshrinks r).values r k s hline hsorts (.refl r))
      fun key => (hlists key).values r k s hline hsorts
    drop := fun r _ => ordered_dropEmptyOrder r type field }

/-- **After the filters of a list are written there is an order enum or no order argument.** -/
theorem ordered_addFilters {x : Unit}
    (hrun : addFilters type field returned true r = (.ok x, r')) : r'.Ordered type field := by
  rw [addFilters_apply] at hrun
  split at hrun
  · rename_i hboth
    cases hrun
    exact .inl (Bool.and_eq_true_iff.mp hboth).2
  · have hdrops : Run.EndsWith (·.Ordered type field)
        (modify (dropEmptyOrder · type field (orderEnumName type field)) : Edit PUnit) := by
      intro r1 a r2 hdrop
      cases hdrop
      exact ordered_dropEmptyOrder r1 type field
    have hfilled : Run.EndsWith (·.Ordered type field) (fillOpened type field returned true) := by
      unfold fillOpened
      rw [if_pos rfl]
      split
      · refine Run.endsWith_bind fun r1 => ?_
        split
        · exact Run.endsWith_bind fun _ => hdrops
        · exact Run.endsWith_bind fun _ => hdrops
      · exact hdrops
    exact hfilled _ x r' hrun

end Registry
end SchemaForge
