import SchemaForge.Proofs.Registry.Edits

/-!
# Registries that list nothing twice

Names and texts come into a registry one by one, each only if it is not there, so that no type,
no line, no argument, no signature of one and no directive is listed twice. The arguments that
choose a page have a default in each of their signatures, because they get one where it is left
out. All changes of a registry keep this, among them those that write filters.
-/
namespace SchemaForge

open Language

/-- A line lists nothing twice, and the arguments that choose a page have a default in each of
their signatures. -/
structure FieldLine.Tidy (l : FieldLine) : Prop where
  /-- Its directives are different. -/
  directives : l.directives.Nodup
  /-- Its arguments are different. -/
  names : l.arguments.keys.Nodup
  /-- The signatures of an argument are different. -/
  declared : ∀ a ∈ l.arguments, a.2.Nodup
  /-- The arguments that choose a page have defaults. -/
  defaults : ∀ a ∈ l.arguments, a.1 = "page" ∨ a.1 = "perPage" → ∀ c ∈ a.2, '=' ∈ c.toList

/-- A type lists nothing twice, and so do its lines. -/
structure TypeEntry.Tidy (e : TypeEntry) : Prop where
  /-- Its directives are different. -/
  directives : e.directives.Nodup
  /-- Its lines are different. -/
  names : e.lines.keys.Nodup
  /-- Its lines list nothing twice. -/
  lines : ∀ l ∈ e.lines, l.2.Tidy

/-- A registry lists nothing twice, and so do its types. -/
structure Registry.Tidy (r : Registry) : Prop where
  /-- Its types are different. -/
  names : (Table.keys r).Nodup
  /-- Its types list nothing twice. -/
  entries : ∀ e ∈ r, e.2.Tidy

namespace FieldLine

variable {l : FieldLine}

/-- A line without arguments and directives. -/
theorem tidy_plain (type : String) : ({ type } : FieldLine).Tidy :=
  ⟨List.nodup_nil, List.nodup_nil, fun _ ha => (List.not_mem_nil ha).elim,
    fun _ ha => (List.not_mem_nil ha).elim⟩

theorem Tidy.addDirective (h : l.Tidy) (use : String) : (l.addDirective use).Tidy :=
  ⟨nodup_addOnce h.directives use, h.names, h.declared, h.defaults⟩

/-- A signature of an argument that chooses a page gets a default. -/
theorem mem_withPageDefault {argument : String} (h : argument = "page" ∨ argument = "perPage")
    (signature : String) : '=' ∈ (withPageDefault argument signature).toList := by
  obtain ⟨d, hd⟩ : ∃ d, pageDefaults.get? argument = some d := by
    rcases h with rfl | rfl
    · exact ⟨"1", by decide⟩
    · exact ⟨"10", by decide⟩
  rw [withPageDefault, hd]
  dsimp only
  split
  · rename_i hdefault
    simpa [Signature.hasDefault] using hdefault
  · simp

/-- The arguments of a line after one is declared. -/
theorem mem_addArgument {argument signature : String} {a : String × List String}
    (h : a ∈ (l.addArgument argument signature).arguments) : a ∈ l.arguments
      ∨ ∃ declared, ((argument, declared) ∈ l.arguments ∨ declared = [])
        ∧ a = (argument, addOnce declared (withPageDefault argument signature)) := by
  rw [FieldLine.addArgument] at h
  exact Registry.mem_update h

theorem Tidy.addArgument (h : l.Tidy) (argument signature : String) :
    (l.addArgument argument signature).Tidy where
  directives := h.directives
  names := Table.nodup_keys_update h.names argument []
    (addOnce · (withPageDefault argument signature))
  declared a ha := by
    rcases mem_addArgument ha with ha | ⟨declared, hdeclared, rfl⟩
    · exact h.declared a ha
    · refine nodup_addOnce ?_ _
      rcases hdeclared with hdeclared | rfl
      · exact h.declared _ hdeclared
      · exact List.nodup_nil
  defaults a ha hpage := by
    rcases mem_addArgument ha with ha | ⟨declared, hdeclared, rfl⟩
    · exact h.defaults a ha hpage
    · intro c hc
      rcases mem_addOnce.mp hc with hc | rfl
      · rcases hdeclared with hdeclared | rfl
        · exact h.defaults _ hdeclared hpage c hc
        · cases hc
      · exact mem_withPageDefault hpage signature

theorem Tidy.addFetchArguments (h : l.Tidy) (owner name : String) (isList : Bool) :
    (Registry.addFetchArguments l owner name isList).Tidy := by
  rw [Registry.addFetchArguments]
  induction Registry.fetchArguments owner name isList generalizing l with
  | nil => exact h
  | cons a args ih => exact ih (h.addArgument a.1 a.2)

theorem Tidy.eraseArgument (h : l.Tidy) (argument : String) :
    ({ l with arguments := l.arguments.erase argument } : FieldLine).Tidy where
  directives := h.directives
  names := Table.nodup_keys_erase h.names argument
  declared a ha := h.declared a (List.mem_filter.mp ha).1
  defaults a ha := h.defaults a (List.mem_filter.mp ha).1

end FieldLine

namespace TypeEntry

variable {e : TypeEntry} {field : String}

theorem tidy_empty : ({} : TypeEntry).Tidy :=
  ⟨List.nodup_nil, List.nodup_nil, fun _ hl => (List.not_mem_nil hl).elim⟩

theorem Tidy.setKind (h : e.Tidy) (kind : TypeKind) : ({ e with kind } : TypeEntry).Tidy :=
  ⟨h.directives, h.names, h.lines⟩

theorem Tidy.addDirective (h : e.Tidy) (use : String) : (e.addDirective use).Tidy :=
  ⟨nodup_addOnce h.directives use, h.names, h.lines⟩

theorem Tidy.updateLine (h : e.Tidy) {f : FieldLine → FieldLine}
    (hf : ∀ l : FieldLine, l.Tidy → (f l).Tidy) : (e.updateLine field f).Tidy where
  directives := h.directives
  names := Table.nodup_keys_update h.names ..
  lines l hl := by
    rcases Registry.mem_update hl with hl | ⟨line, hline, rfl⟩
    · exact h.lines l hl
    · refine hf line ?_
      rcases hline with hline | rfl
      · exact h.lines _ hline
      · exact FieldLine.tidy_plain ""

theorem Tidy.modifyLine (h : e.Tidy) {f : FieldLine → FieldLine}
    (hf : ∀ l : FieldLine, l.Tidy → (f l).Tidy) :
    ({ e with lines := e.lines.modify field f } : TypeEntry).Tidy where
  directives := h.directives
  names := Table.nodup_keys_modify h.names ..
  lines l hl := by
    rcases Registry.mem_modify hl with ⟨hl, -⟩ | ⟨line, hline, rfl⟩
    · exact h.lines l hl
    · exact hf line (h.lines _ hline)

theorem Tidy.eraseLine (h : e.Tidy) (field : String) :
    ({ e with lines := e.lines.erase field } : TypeEntry).Tidy where
  directives := h.directives
  names := Table.nodup_keys_erase h.names field
  lines l hl := h.lines l (List.mem_filter.mp hl).1

/-- The operators on a kind of value are different. -/
theorem tidy_operators (kind : String) :
    ({ kind := .input, lines := Registry.operatorLines kind } : TypeEntry).Tidy where
  directives := List.nodup_nil
  names := by
    rw [Table.keys, Registry.operatorLines, List.map_map, Registry.operatorTypes]
    split
    · simp
    · split <;> simp
  lines l hl := by
    obtain ⟨operator, -, rfl⟩ := List.mem_map.mp hl
    exact FieldLine.tidy_plain operator.2

end TypeEntry

namespace Registry

variable {r : Registry} {type field : String}

theorem tidy_nil : Tidy [] := ⟨List.nodup_nil, fun _ he => (List.not_mem_nil he).elim⟩

theorem Tidy.entry (h : r.Tidy) (type : String) : (r.entry type).Tidy := by
  rw [Registry.entry]
  cases hget : Table.get? r type with
  | none => exact TypeEntry.tidy_empty
  | some e => exact h.entries _ (Table.mem_of_get? hget)

theorem Tidy.ensure (h : r.Tidy) {e : TypeEntry} (he : e.Tidy) (type : String) :
    Tidy (Table.ensure r type e) where
  names := Table.nodup_keys_ensure h.names type e
  entries x hx := by
    rw [Table.ensure] at hx
    split at hx
    · exact h.entries x hx
    · rcases List.mem_append.mp hx with hx | hx
      · exact h.entries x hx
      · exact List.mem_singleton.mp hx ▸ he

theorem Tidy.updateType (h : r.Tidy) {f : TypeEntry → TypeEntry}
    (hf : ∀ e : TypeEntry, e.Tidy → (f e).Tidy) : (updateType r type f).Tidy where
  names := Table.nodup_keys_update h.names ..
  entries x hx := by
    rcases mem_update hx with hx | ⟨e, he, rfl⟩
    · exact h.entries x hx
    · refine hf e ?_
      rcases he with he | rfl
      · exact h.entries _ he
      · exact TypeEntry.tidy_empty

theorem Tidy.modify (h : r.Tidy) {f : TypeEntry → TypeEntry}
    (hf : ∀ e : TypeEntry, e.Tidy → (f e).Tidy) : Tidy (Table.modify r type f) where
  names := Table.nodup_keys_modify h.names ..
  entries x hx := by
    rcases mem_modify hx with ⟨hx, -⟩ | ⟨e, he, rfl⟩
    · exact h.entries x hx
    · exact hf e (h.entries _ he)

theorem Tidy.updateField (h : r.Tidy) {f : FieldLine → FieldLine}
    (hf : ∀ l : FieldLine, l.Tidy → (f l).Tidy) : (updateField r type field f).Tidy :=
  h.updateType fun _ he => he.updateLine hf

theorem Tidy.setKind (h : r.Tidy) (type : String) (kind : TypeKind) :
    (setKind r type kind).Tidy := h.updateType fun _ he => he.setKind kind

theorem Tidy.setFieldType (h : r.Tidy) (type field signature : String) :
    (setFieldType r type field signature).Tidy :=
  h.updateField fun _ hl => ⟨hl.directives, hl.names, hl.declared, hl.defaults⟩

theorem Tidy.dropEmptyOrder (h : r.Tidy) (type field orderEnum : String) :
    (dropEmptyOrder r type field orderEnum).Tidy := by
  have herase : Registry.Tidy (Table.erase r orderEnum) :=
    ⟨Table.nodup_keys_erase h.names orderEnum, fun e he => h.entries e (List.mem_filter.mp he).1⟩
  rw [Registry.dropEmptyOrder]
  split
  · exact h
  · exact Tidy.modify herase fun _ he => he.modifyLine fun _ hl => hl.eraseArgument "order"

/-- **The filters of a field list nothing twice.** -/
theorem keptByFilters_tidy (type field returned : String) :
    KeptByFilters Tidy type field returned fun _ _ => True where
  start r h := by
    rw [startWhereInput, connectives, List.foldl_cons, List.foldl_cons, List.foldl_nil]
    exact ((h.setKind _ .input).setFieldType ..).setFieldType ..
  enum r h := h.setKind _ .enum
  entry r key _ kind _ _ h :=
    Tidy.setFieldType (h.ensure (TypeEntry.tidy_operators kind) (operatorInputName kind)) ..
  delete r key _ _ _ h := h.modify fun _ he => he.eraseLine key
  values r key _ _ _ h := addOrderValues_of_value
    (fun r d _ h => h.updateField fun _ => id) r h
  drop r h := h.dropEmptyOrder ..

end Registry
end SchemaForge
