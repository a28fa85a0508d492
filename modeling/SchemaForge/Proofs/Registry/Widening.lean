import SchemaForge.Proofs.Registry.Outlines

/-!
# What filters read

Filters are decided by what signatures name: a kind of value, a single object with an identifier,
or a type that can be sorted by. Apart from the derived types themselves, writing filters changes
none of this but by bringing in inputs for operators, and these have no identifier and cannot be
sorted by. So what can be filtered stays so, by the same kind of value, and nothing becomes
sortable.
-/
namespace SchemaForge

/-- A signature names a type by the name at its bottom, or by its text without the marks at its
end, by which a single object is looked up. -/
def Signature.Names (signature name : String) : Prop :=
  Signature.baseName signature = .ok name ∨ Signature.withoutEndMarks signature = name

instance (signature name : String) : Decidable (Signature.Names signature name) :=
  decidable_of_iff ((Signature.baseName signature).toOption = some name
    ∨ Signature.withoutEndMarks signature = name) <| by
      unfold Signature.Names
      cases Signature.baseName signature <;> simp [Except.toOption]

namespace Registry

/-- The entry of the input for the operators on a kind of value. -/
def operatorEntry (kind : String) : TypeEntry := { kind := .input, lines := operatorLines kind }

/-- The names of the inputs for operators. -/
def operatorNames : List String := filterableTypes.map operatorInputName

/-- Types keep their outlines, but for some of their own and for inputs of operators that come
in. -/
def Widens (own : String → Prop) (r r' : Registry) : Prop :=
  ∀ n, ¬own n → r'.outline? n = r.outline? n
    ∨ r.outline? n = none ∧ ∃ kind ∈ filterableTypes, n = operatorInputName kind
      ∧ r'.outline? n = some (operatorEntry kind).outline

/-- No line of a type names any of some types. -/
def Avoids (r : Registry) (type : String) (own : String → Prop) : Prop :=
  ∀ l ∈ (r.entry type).lines, ∀ n, own n → ¬Signature.Names l.2.type n

instance (r : Registry) (type : String) (names : List String) :
    Decidable (r.Avoids type (· ∈ names)) :=
  inferInstanceAs (Decidable (∀ l ∈ (r.entry type).lines, ∀ n ∈ names, ¬Signature.Names l.2.type n))

variable {own : String → Prop} {r r' r'' : Registry} {signature type name : String}

theorem Widens.refl (own : String → Prop) (r : Registry) : Widens own r r := fun _ _ => .inl rfl

theorem widens_of_outline? (h : ∀ n, r'.outline? n = r.outline? n) :
    Widens (fun _ => False) r r' := fun n _ => .inl (h n)

theorem Widens.trans (h : Widens own r r') (h' : Widens own r' r'') : Widens own r r'' := by
  intro n hn
  rcases h n hn with hsame | ⟨hnone, kind, hkind, hname, hsome⟩
  · rcases h' n hn with hsame' | ⟨hnone, hcame⟩
    · exact .inl (hsame'.trans hsame)
    · exact .inr ⟨hsame ▸ hnone, hcame⟩
  · rcases h' n hn with hsame' | ⟨hnone', -⟩
    · exact .inr ⟨hnone, kind, hkind, hname, hsame'.trans hsome⟩
    · rw [hsome] at hnone'
      cases hnone'

theorem Widens.mono {own' : String → Prop} (h : Widens own r r') (hown : ∀ n, own n → own' n) :
    Widens own' r r' := fun n hn => h n fun ho => hn (hown n ho)

theorem has_eq_isSome_outline? (r : Registry) (n : String) :
    Table.has r n = (r.outline? n).isSome := by
  rw [outline?, Option.isSome_map, Table.has_eq_isSome]

/-- A type that is there keeps its outline. -/
theorem Widens.outline?_eq (h : Widens own r r') (hn : ¬own name) (hhas : Table.has r name = true) :
    r'.outline? name = r.outline? name := by
  refine (h name hn).resolve_right fun ⟨hnone, _⟩ => ?_
  rw [has_eq_isSome_outline?, hnone] at hhas
  cases hhas

/-- So does one that is no input for operators, even if it is not there. -/
theorem Widens.outline?_of_ne (h : Widens own r r') (hn : ¬own name)
    (hne : ∀ kind ∈ filterableTypes, name ≠ operatorInputName kind) :
    r'.outline? name = r.outline? name :=
  (h name hn).resolve_right fun ⟨_, kind, hkind, hname, _⟩ => hne kind hkind hname

/-! ### Identifiers -/

theorem line?_eq (r : Registry) (type field : String) :
    r.line? type field = Table.get? (r.entry type).lines field := by
  rw [line?, entry]
  cases Table.get? r type <;> rfl

/-- A type with a line is there. -/
theorem has_of_line? {field : String} {line : FieldLine} (h : r.line? type field = some line) :
    Table.has r type = true := by
  rw [Table.has_eq_isSome]
  cases hget : Table.get? r type with
  | some e => rfl
  | none =>
    rw [line?, hget] at h
    cases h

/-- Inputs for operators have no identifier. -/
theorem Widens.idType (h : Widens own r r') (hn : ¬own name) :
    (r'.line? name "id").map (·.type) = (r.line? name "id").map (·.type) := by
  rcases h name hn with hsame | ⟨hnone, kind, hkind, -, hsome⟩
  · exact type_of_outline? hsame "id"
  · have hplain : ∀ kind ∈ filterableTypes, Table.get? (operatorLines kind) "id" = none := by
      intro kind hkind
      rw [Table.get?_eq_none_iff]
      revert kind
      decide
    have hentry : Table.get? [(name, operatorEntry kind)] name = some (operatorEntry kind) := by
      rw [Table.get?_cons, if_pos (beq_self_eq_true name)]
    have hthere : r'.outline? name = outline? [(name, operatorEntry kind)] name := by
      rw [hsome, outline?, hentry]
      rfl
    rw [type_of_outline? hthere "id", line?, hentry, line?, Option.map_eq_none_iff.mp hnone]
    exact congrArg _ (hplain kind hkind)

theorem filterKind?_congr
    (h : (r'.line? (Signature.withoutEndMarks signature) "id").map (·.type)
      = (r.line? (Signature.withoutEndMarks signature) "id").map (·.type)) :
    filterKind? r' signature = filterKind? r signature := by
  unfold filterKind?
  cases hl : r.line? (Signature.withoutEndMarks signature) "id" with
  | none =>
    rw [hl] at h
    rw [Option.map_eq_none_iff.mp h]
  | some line =>
    rw [hl] at h
    obtain ⟨line', hl', htype⟩ := Option.map_eq_some_iff.mp h
    rw [hl']
    dsimp only
    rw [htype]

/-- **What a line is filtered by stays the same.** -/
theorem Widens.filterKind?_eq (h : Widens own r r') (hs : ∀ n, own n → ¬Signature.Names signature n) :
    filterKind? r' signature = filterKind? r signature :=
  filterKind?_congr (h.idType fun hn => hs _ hn (.inr rfl))

/-! ### Sorting -/

theorem isOk_isSortable (r r' : Registry) (signature : String) :
    (isSortable r signature).isOk = (isSortable r' signature).isOk := by
  unfold isSortable
  split <;> simp

/-- Rows are sorted by values of a signature that is no list, and names an enum, a scalar or a type
that is not there. -/
def Sortable (r : Registry) (signature : String) : Prop :=
  ∃ t, Language.TypeRef.ofText? signature = .ok t ∧ t.isList = false
    ∧ ∀ e, Table.get? r t.baseName = some e → e.kind = .enum ∨ e.kind = .scalar

theorem isSortable_eq_ok_true_iff : isSortable r signature = .ok true ↔ r.Sortable signature := by
  unfold isSortable Sortable
  split
  · rename_i hempty
    rw [beq_iff_eq.mp hempty, show Language.TypeRef.ofText? "" = .error .badSyntax from rfl]
    simp
  · cases Language.TypeRef.ofText? signature with
    | error e => simp [Except.map]
    | ok t => cases hget : Table.get? r t.baseName <;> simp [Except.map, hget]

instance (r : Registry) (signature : String) : Decidable (r.Sortable signature) :=
  decidable_of_iff ((isSortable r signature).toOption = some true) <| by
    rw [← isSortable_eq_ok_true_iff]
    cases isSortable r signature <;> simp [Except.toOption]

theorem sortable_of_kind {t : Language.TypeRef}
    (hkind : (Table.get? r' t.baseName).map (·.kind) = (Table.get? r t.baseName).map (·.kind))
    (h : ∀ e, Table.get? r' t.baseName = some e → e.kind = .enum ∨ e.kind = .scalar) :
    ∀ e, Table.get? r t.baseName = some e → e.kind = .enum ∨ e.kind = .scalar := by
  intro e he
  rw [he] at hkind
  obtain ⟨e', he', hsame⟩ := Option.map_eq_some_iff.mp hkind
  have hsame : e'.kind = e.kind := hsame
  exact hsame ▸ h e' he'

/-- **Nothing becomes sortable.** -/
theorem Widens.isSortable (h : Widens own r r') (hs : ∀ n, own n → ¬Signature.Names signature n)
    (hsorts : Registry.isSortable r' signature = .ok true) :
    Registry.isSortable r signature = .ok true := by
  obtain ⟨t, ht, hlist, hkinds⟩ := isSortable_eq_ok_true_iff.mp hsorts
  have hn : ¬own t.baseName := fun hn => hs _ hn (.inl (by rw [Signature.baseName, ht]; rfl))
  refine isSortable_eq_ok_true_iff.mpr ⟨t, ht, hlist, ?_⟩
  rcases h _ hn with hsame | ⟨hnone, -⟩
  · exact sortable_of_kind (kind_of_outline? hsame) hkinds
  · rw [Option.map_eq_none_iff.mp hnone]
    simp

/-- What names no input for operators stays sortable. -/
theorem Widens.isSortable_eq (h : Widens own r r')
    (hs : ∀ n, own n → ¬Signature.Names signature n)
    (hplain : ∀ kind ∈ filterableTypes, ¬Signature.Names signature (operatorInputName kind)) :
    Registry.isSortable r' signature = .ok true ↔ Registry.isSortable r signature = .ok true := by
  refine ⟨h.isSortable hs, fun hsorts => ?_⟩
  obtain ⟨t, ht, hlist, hkinds⟩ := isSortable_eq_ok_true_iff.mp hsorts
  have hnames : ∀ n, n = t.baseName → Signature.Names signature n := by
    rintro n rfl
    exact .inl (by rw [Signature.baseName, ht]; rfl)
  have hsame := h.outline?_of_ne (fun hn => hs _ hn (hnames _ rfl))
    fun kind hkind heq => hplain kind hkind (hnames _ heq.symm)
  exact isSortable_eq_ok_true_iff.mpr
    ⟨t, ht, hlist, sortable_of_kind (kind_of_outline? hsame).symm hkinds⟩

end Registry
end SchemaForge
