import SchemaForge.Proofs.Registry.Reconciling
import SchemaForge.Proofs.Registry.Inputs
import SchemaForge.Proofs.Registry.Outlines

/-!
# What filters refer to

Filters bring in references of three sorts: a connective refers to its own condition input, a
condition to the operators on a kind of value, and an operator to the kind itself. `Sealed` says
that nothing else comes in, that the operators are there and that each kind has been referred to
before; every change that filters are made of keeps it. Apart from that, a condition input keeps
a connective that no line of the returned type takes away (`Connects`), and an order enum without
values leaves no argument behind (`Ordered`).
-/
namespace SchemaForge

open Language

/-! ### Names of derived types -/

/-- The upper-case form of a character that a name starts with is one, too. -/
theorem upper_of_isNameStart {c : Char} (h : isNameStart c = true) :
    ∃ a, Text.upper c = [a] ∧ isNameStart a = true := by
  have hname : isNameChar c = true := by rw [isNameChar, h, Bool.true_or]
  have hsmall : ∀ n < 128, 97 ≤ n ∧ n ≤ 122 → isNameStart (Char.ofNat (n - 32)) = true := by
    decide +kernel
  have hc := (toNat_of_isNameChar hname).1
  refine ⟨_, Text.upper_ascii hc, ?_⟩
  split
  · exact hsmall _ hc ‹_›
  · exact h

theorem isName_iff {s : String} : isName s = true ↔ ∃ c cs, s.toList = c :: cs
    ∧ isNameStart c = true ∧ cs.all isNameChar = true := by
  unfold isName
  cases s.toList with
  | nil => simp
  | cons c cs => simp

theorem all_isNameChar {s : String} (h : isName s = true) : s.toList.all isNameChar = true := by
  obtain ⟨c, cs, hs, hstart, hrest⟩ := isName_iff.mp h
  rw [hs, List.all_cons, isNameChar, hstart, hrest]
  rfl

/-- A name with its first character in upper case is a name. -/
theorem isName_capitalized {s : String} (h : isName s = true) : isName (capitalized s) = true := by
  obtain ⟨c, cs, hs, hstart, hrest⟩ := isName_iff.mp h
  obtain ⟨a, hupper, ha⟩ := upper_of_isNameStart hstart
  refine isName_iff.mpr ⟨a, cs, ?_, ha, hrest⟩
  rw [capitalized, hs]
  dsimp only
  rw [String.toList_ofList, hupper, List.singleton_append]

theorem isName_append {s w : String} (h : isName s = true) (hw : w.toList.all isNameChar = true) :
    isName (s ++ w) = true := by
  obtain ⟨c, cs, hs, hstart, hrest⟩ := isName_iff.mp h
  refine isName_iff.mpr ⟨c, cs ++ w.toList, ?_, hstart, ?_⟩
  · rw [String.toList_append, hs, List.cons_append]
  · rw [List.all_append, hrest, hw]
    rfl

/-- The derived names of a field with a name, of a type with one, are names. -/
theorem isName_of_mem_derivedNames {type field name : String} (ht : isName type = true)
    (hf : isName field = true) (h : name ∈ derivedNames type field) : isName name = true := by
  have hderived : ∀ word, (capitalized word).toList.all isNameChar = true →
      isName (derivedName type field word) = true := fun word hword =>
    isName_append (isName_append (isName_capitalized ht) hword)
      (all_isNameChar (isName_capitalized hf))
  rcases List.mem_cons.mp h with rfl | h
  · exact hderived whereWord (by decide)
  · rw [List.mem_singleton.mp h]
    exact hderived orderWord (by decide)

namespace Registry

variable {derived ok : String → Prop} {r r' r1 : Registry} {type field returned name : String}
  {lines : String → String → Prop}

/-! ### Arguments -/

/-- No line has an argument with signatures that it did not have before. -/
def Shrinks (r r' : Registry) : Prop :=
  ∀ t, ∀ l ∈ (r'.entry t).lines, ∀ a ∈ l.2.arguments,
    ∃ l' ∈ (r.entry t).lines, l'.1 = l.1 ∧ a ∈ l'.2.arguments

theorem Shrinks.refl (r : Registry) : Shrinks r r := fun _ l hl _ ha => ⟨l, hl, rfl, ha⟩

theorem Shrinks.trans {r'' : Registry} (h : Shrinks r r') (h' : Shrinks r' r'') :
    Shrinks r r'' := by
  intro t l hl a ha
  obtain ⟨l', hl', hname, ha'⟩ := h' t l hl a ha
  obtain ⟨l'', hl'', hname', ha''⟩ := h t l' hl' a ha'
  exact ⟨l'', hl'', hname'.trans hname, ha''⟩

/-- A change of a type that leaves the arguments of its lines. -/
theorem shrinks_updateType {u : TypeEntry → TypeEntry} (hu : ∀ e, ∀ l ∈ (u e).lines,
      l.2.arguments = [] ∨ ∃ l' ∈ e.lines, l'.1 = l.1 ∧ l'.2.arguments = l.2.arguments) :
    Shrinks r (updateType r type u) := by
  intro t l hl a ha
  rw [entry_updateType] at hl
  split at hl
  · rename_i ht
    subst ht
    rcases hu _ l hl with hnone | ⟨l', hl', hname, hsame⟩
    · rw [hnone] at ha
      cases ha
    · exact ⟨l', hl', hname, hsame ▸ ha⟩
  · exact ⟨l, hl, rfl, ha⟩

theorem shrinks_updateField {u : FieldLine → FieldLine}
    (hu : ∀ line, (u line).arguments = line.arguments) :
    Shrinks r (updateField r type field u) := by
  refine shrinks_updateType fun e l hl => ?_
  rcases mem_update hl with hl | ⟨line, hline, rfl⟩
  · exact .inr ⟨l, hl, rfl, rfl⟩
  · rcases hline with hline | rfl
    · exact .inr ⟨_, hline, rfl, (hu line).symm⟩
    · exact .inl (hu {})

theorem shrinks_ensureOperatorInput (kind : String) : Shrinks r (ensureOperatorInput r kind) := by
  intro t l hl a ha
  cases hhas : Table.has r (operatorInputName kind) with
  | true => exact ⟨l, ensureOperatorInput_of_has hhas ▸ hl, rfl, ha⟩
  | false =>
    by_cases hname : t = operatorInputName kind
    · subst hname
      rw [entry_ensureOperatorInput_self hhas] at hl
      obtain ⟨e, -, rfl⟩ := List.mem_map.mp hl
      cases ha
    · exact ⟨l, entry_ensureOperatorInput_of_ne hname ▸ hl, rfl, ha⟩

theorem shrinks_deleteField (key : String) : Shrinks r (deleteField r type key) := by
  intro t l hl a ha
  rw [deleteField, entry_modify type t (fun entry => { entry with lines := entry.lines.erase key })
    rfl] at hl
  split at hl
  · exact ⟨l, (List.mem_filter.mp hl).1, rfl, ha⟩
  · exact ⟨l, hl, rfl, ha⟩

/-- The lines of a registry in which an order enum without values is dropped. -/
theorem mem_dropped {orderEnum t : String} {l : String × FieldLine}
    (hl : l ∈ (entry (Table.modify (Table.erase r orderEnum) type fun entry =>
      { entry with lines := entry.lines.modify field fun line =>
          { line with arguments := line.arguments.erase "order" } }) t).lines) :
    ∃ line, (l.1, line) ∈ (r.entry t).lines ∧ line.type = l.2.type
      ∧ (∀ a ∈ l.2.arguments, a ∈ line.arguments)
      ∧ (t = type → l.1 = field → Table.has l.2.arguments "order" = false) := by
  have herased : ∀ l ∈ (entry (Table.erase r orderEnum) t).lines, l ∈ (r.entry t).lines := by
    intro l hl
    rw [entry, Table.get?_erase] at hl
    split at hl
    · cases hl
    · exact hl
  rw [entry_modify (r := Table.erase r orderEnum) type t (fun entry =>
    { entry with lines := entry.lines.modify field fun line =>
      { line with arguments := line.arguments.erase "order" } }) rfl] at hl
  split at hl
  · have hl : l ∈ Table.modify (entry (Table.erase r orderEnum) t).lines field fun line =>
        { line with arguments := line.arguments.erase "order" } := hl
    rcases mem_modify hl with ⟨hl, hne⟩ | ⟨line, hline, rfl⟩
    · exact ⟨l.2, herased l hl, rfl, fun _ ha => ha, fun _ hfield => absurd hfield hne⟩
    · refine ⟨line, herased _ hline, rfl, fun a ha => (List.mem_filter.mp ha).1, fun _ _ => ?_⟩
      rw [Table.has_eq_isSome, Table.get?_erase]
      rfl
  · rename_i hne
    exact ⟨l.2, herased l hl, rfl, fun _ ha => ha, fun ht => absurd ht hne⟩

theorem shrinks_dropEmptyOrder (orderEnum : String) :
    Shrinks r (dropEmptyOrder r type field orderEnum) := by
  unfold dropEmptyOrder
  split
  · exact .refl r
  · intro t l hl a ha
    obtain ⟨line, hline, -, harguments, -⟩ := mem_dropped hl
    exact ⟨_, hline, rfl, harguments a ha⟩

theorem shrinks_setKind (r : Registry) (type : String) (kind : TypeKind) :
    Shrinks r (setKind r type kind) :=
  shrinks_updateType (u := fun e => { e with kind }) fun _ l hl => .inr ⟨l, hl, rfl, rfl⟩

theorem shrinks_setFieldType (r : Registry) (type field signature : String) :
    Shrinks r (setFieldType r type field signature) :=
  shrinks_updateField (u := fun line => { line with type := signature }) fun _ => rfl

theorem shrinks_startWhereInput (r : Registry) (w : String) : Shrinks r (startWhereInput r w) := by
  unfold startWhereInput connectives
  rw [List.foldl_cons, List.foldl_cons, List.foldl_nil]
  exact (shrinks_setKind r w .input).trans
    ((shrinks_setFieldType _ w _ _).trans (shrinks_setFieldType _ w _ _))

/-- **Writing filters brings no arguments.** -/
theorem keptByFilters_shrinks (r : Registry) (type field returned : String)
    (lines : String → String → Prop) : KeptByFilters (Shrinks r) type field returned lines where
  start _ h := h.trans (shrinks_startWhereInput _ _)
  enum _ h := h.trans (shrinks_setKind _ _ .enum)
  entry _ _ _ kind _ _ h := h.trans ((shrinks_ensureOperatorInput kind).trans
    (shrinks_setFieldType _ _ _ _))
  delete _ key _ _ _ h := h.trans (shrinks_deleteField key)
  values r' _ _ _ _ := addOrderValues_of_value
    (fun _ _ _ h => h.trans (shrinks_updateField (u := id) fun _ => rfl)) r'
  drop _ h := h.trans (shrinks_dropEmptyOrder _)

/-! ### References -/

/-- What the signature of a line of a derived type refers to, if anything. -/
inductive Refers (r : Registry) (name signature : String) : Prop
  | bare (h : signature = "")
  | connective (h : signature = "[" ++ name ++ "!]")
  | operators (kind : String) (h : kind ∈ filterableTypes)
      (hsignature : signature = operatorInputName kind)
      (hhas : Table.has r (operatorInputName kind) = true)

theorem Refers.mono {signature : String} (h : Refers r name signature)
    (hhas : ∀ kind ∈ filterableTypes, Table.has r (operatorInputName kind) = true →
      Table.has r' (operatorInputName kind) = true) : Refers r' name signature := by
  cases h with
  | bare h => exact .bare h
  | connective h => exact .connective h
  | operators kind h hsignature hkind => exact .operators kind h hsignature (hhas kind h hkind)

/-- Filters were written into a registry, under derived names, where only kinds of values count
that are fine. -/
structure Sealed (derived ok : String → Prop) (r1 r : Registry) : Prop where
  /-- Other types are kept. -/
  framed : Framed derived r1 r
  /-- No arguments came in. -/
  arguments : Shrinks r1 r
  /-- Every kind that a line is of is fine. -/
  kinds : ∀ t, ∀ l ∈ (r.entry t).lines, ∀ kind ∈ filterableTypes,
    Signature.baseName l.2.type = .ok kind → ok kind
  /-- The operators on a kind are all there where there are any. -/
  operators : ∀ kind ∈ filterableTypes, Table.has r (operatorInputName kind) = true →
    (r.entry (operatorInputName kind)).lines.map (fun l => (l.1, l.2.type)) = operatorTypes kind
  /-- What derived types refer to. -/
  lines : ∀ name, derived name → ∀ l ∈ (r.entry name).lines, Refers r name l.2.type

/-- No kind of value is at the bottom of what derived types refer to. -/
theorem Refers.baseName_ne {signature kind : String} (h : Refers r name signature)
    (hname : isName name = true) (hlong : 11 ≤ name.length) (hkind : kind ∈ filterableTypes) :
    Signature.baseName signature ≠ .ok kind := by
  have hshort : ∀ k ∈ filterableTypes, k.length < 11 ∧ isName (operatorInputName k) = true := by
    decide +kernel
  have hbottom : ∀ t : TypeRef, 11 ≤ t.baseName.length →
      (Except.ok t : Except Failure TypeRef).map TypeRef.baseName ≠ .ok kind := by
    intro t hlong heq
    cases heq
    exact absurd (hshort _ hkind).1 (by omega)
  rw [Signature.baseName]
  cases h with
  | bare h =>
    rw [h, show TypeRef.ofText? "" = .error .badSyntax from rfl]
    exact fun heq => by cases heq
  | connective h =>
    rw [h, TypeRef.ofText?_list hname]
    exact hbottom _ hlong
  | operators k hk hsignature hhas =>
    rw [hsignature, TypeRef.ofText?_name (hshort k hk).2]
    exact hbottom _ (length_of_isDerived (isDerived_operatorInputName k))

namespace Sealed

variable (hderived : ∀ n, derived n → IsFilterName n ∧ isName n = true)
include hderived

/-- A change of derived types, and perhaps of arguments, whose lines are of the signature that
they had or refer to something. -/
theorem of_outline? (h : Sealed derived ok r1 r)
    (hsame : ∀ t, ¬derived t → r'.outline? t = r.outline? t) (harguments : Shrinks r r')
    (hlines : ∀ t, ∀ l ∈ (r'.entry t).lines,
      (∃ line, (l.1, line) ∈ (r.entry t).lines ∧ line.type = l.2.type)
        ∨ derived t ∧ Refers r t l.2.type) : Sealed derived ok r1 r' := by
  have hoperators : ∀ kind ∈ filterableTypes,
      r'.outline? (operatorInputName kind) = r.outline? (operatorInputName kind) :=
    fun kind hkind => hsame _ fun hd => not_isFilterName hkind (hderived _ hd).1
  have hhas : ∀ kind ∈ filterableTypes, Table.has r' (operatorInputName kind)
      = Table.has r (operatorInputName kind) := fun kind hkind =>
    has_of_outline? (hoperators kind hkind)
  refine ⟨h.framed.of_outline? hsame, h.arguments.trans harguments, fun t l hl kind hkind hbase => ?_,
    fun kind hkind hthere => ?_, fun name hd l hl => ?_⟩
  · rcases hlines t l hl with ⟨line, hline, htype⟩ | ⟨hd, hrefers⟩
    · exact h.kinds t _ hline kind hkind (htype ▸ hbase)
    · exact absurd hbase (hrefers.baseName_ne (hderived t hd).2
        (length_of_isDerived (isDerived_of_isFilterName (hderived t hd).1)) hkind)
  · rw [hhas kind hkind] at hthere
    rw [← h.operators kind hkind hthere]
    have hmap := congrArg (List.map fun l : String × String × List String => (l.1, l.2.1))
      (lines_of_outline? (hoperators kind hkind))
    simpa only [List.map_map, Function.comp_def] using hmap
  · refine Refers.mono (r := r) ?_ fun kind hkind => (hhas kind hkind).symm ▸ id
    rcases hlines name l hl with ⟨line, hline, htype⟩ | ⟨-, hrefers⟩
    · exact htype ▸ h.lines name hd _ hline
    · exact hrefers

/-- A change of one line of a derived type to something that refers. -/
theorem updateField (h : Sealed derived ok r1 r) (hd : derived name) {key : String}
    {u : FieldLine → FieldLine} (harguments : ∀ line, (u line).arguments = line.arguments)
    (htype : ∀ line : FieldLine, Refers r name line.type → Refers r name (u line).type) :
    Sealed derived ok r1 (updateField r name key u) := by
  refine h.of_outline? hderived (fun t ht => outline?_updateType
    (fun (heq : t = name) => ht (heq ▸ hd)) _) (shrinks_updateField harguments) fun t l hl => ?_
  rw [Registry.updateField, entry_updateType] at hl
  split at hl
  · rename_i ht
    subst ht
    rcases mem_update hl with hl | ⟨line, hline, rfl⟩
    · exact .inl ⟨l.2, hl, rfl⟩
    · refine .inr ⟨hd, htype line ?_⟩
      rcases hline with hline | rfl
      · exact h.lines t hd _ hline
      · exact .bare rfl
  · exact .inl ⟨l.2, hl, rfl⟩

theorem setFieldType (h : Sealed derived ok r1 r) (hd : derived name) {key signature : String}
    (hrefers : Refers r name signature) :
    Sealed derived ok r1 (setFieldType r name key signature) :=
  h.updateField hderived (u := fun line => { line with type := signature }) hd (fun _ => rfl)
    fun _ _ => hrefers

theorem setKind (h : Sealed derived ok r1 r) (hd : derived name) (kind : TypeKind) :
    Sealed derived ok r1 (setKind r name kind) := by
  refine h.of_outline? hderived (fun t ht => outline?_updateType
    (fun (heq : t = name) => ht (heq ▸ hd)) _) (shrinks_setKind r name kind) fun t l hl => ?_
  rw [Registry.setKind, entry_updateType] at hl
  refine .inl ⟨l.2, ?_, rfl⟩
  split at hl
  · rename_i ht
    exact ht ▸ hl
  · exact hl

theorem startWhereInput (h : Sealed derived ok r1 r) (hd : derived name) :
    Sealed derived ok r1 (startWhereInput r name) := by
  unfold Registry.startWhereInput connectives
  rw [List.foldl_cons, List.foldl_cons, List.foldl_nil]
  exact ((h.setKind hderived hd .input).setFieldType hderived hd (.connective rfl)).setFieldType
    hderived hd (.connective rfl)

theorem deleteField (h : Sealed derived ok r1 r) (hd : derived name) (key : String) :
    Sealed derived ok r1 (deleteField r name key) := by
  refine h.of_outline? hderived (fun t ht => outline?_modify
    (fun (heq : t = name) => ht (heq ▸ hd)) _) (shrinks_deleteField key) fun t l hl => ?_
  refine .inl ⟨l.2, ?_, rfl⟩
  rw [Registry.deleteField, entry_modify name t (fun entry =>
    { entry with lines := entry.lines.erase key }) rfl] at hl
  split at hl
  · exact (List.mem_filter.mp hl).1
  · exact hl

theorem dropEmptyOrder (h : Sealed derived ok r1 r) (hd : derived (orderEnumName type field)) :
    Sealed derived ok r1 (dropEmptyOrder r type field (orderEnumName type field)) := by
  refine h.of_outline? hderived (fun t ht => outline?_dropEmptyOrder
    (fun (heq : t = orderEnumName type field) => ht (heq ▸ hd)) r type field)
    (shrinks_dropEmptyOrder _) fun t l hl => ?_
  unfold Registry.dropEmptyOrder at hl
  split at hl
  · exact .inl ⟨l.2, hl, rfl⟩
  · obtain ⟨line, hline, htype, -, -⟩ := mem_dropped hl
    exact .inl ⟨line, hline, htype⟩

omit hderived in
/-- The operators on a kind that is fine come in. -/
theorem ensureOperatorInput (h : Sealed derived ok r1 r)
    (hfilter : ∀ n, derived n → IsFilterName n) (hboolean : ok "Boolean") {kind : String}
    (hkind : kind ∈ filterableTypes) (hok : ok kind) :
    Sealed derived ok r1 (ensureOperatorInput r kind) := by
  have hbottom : ∀ kind ∈ filterableTypes, ∀ e ∈ operatorTypes kind, ∀ k ∈ filterableTypes,
      (Signature.baseName e.2).toOption = some k → k = kind ∨ k = "Boolean" := by decide +kernel
  cases hhas : Table.has r (operatorInputName kind) with
  | true => rwa [ensureOperatorInput_of_has hhas]
  | false =>
    refine ⟨h.framed.ensureOperatorInput hkind,
      h.arguments.trans (shrinks_ensureOperatorInput kind), fun t l hl k hk hbase => ?_,
      fun k hk hthere => ?_, fun name hd l hl => ?_⟩
    · by_cases hname : t = operatorInputName kind
      · subst hname
        rw [entry_ensureOperatorInput_self hhas] at hl
        obtain ⟨e, he, rfl⟩ := List.mem_map.mp hl
        rcases hbottom kind hkind e he k hk (by rw [hbase]; rfl) with rfl | rfl
        · exact hok
        · exact hboolean
      · rw [entry_ensureOperatorInput_of_ne hname] at hl
        exact h.kinds t l hl k hk hbase
    · by_cases heq : operatorInputName k = operatorInputName kind
      · obtain rfl := operatorInputName_injOn k hk kind hkind heq
        rw [entry_ensureOperatorInput_self hhas]
        simp [operatorLines, Function.comp_def]
      · rw [entry_ensureOperatorInput_of_ne heq]
        rw [has_ensureOperatorInput, beq_false_of_ne heq, Bool.or_false] at hthere
        exact h.operators k hk hthere
    · have hne : name ≠ operatorInputName kind := by
        rintro rfl
        exact not_isFilterName hkind (hfilter _ hd)
      rw [entry_ensureOperatorInput_of_ne hne] at hl
      refine (h.lines name hd l hl).mono fun k _ hk => ?_
      rw [has_ensureOperatorInput, hk, Bool.true_or]

end Sealed

/-- A line is filtered by a kind of value at the bottom of its signature or of another line. -/
theorem ok_of_filterKind? {signature kind : String}
    (hkinds : ∀ t, ∀ l ∈ (r.entry t).lines, ∀ kind ∈ filterableTypes,
      Signature.baseName l.2.type = .ok kind → ok kind)
    (hsignature : ∀ kind ∈ filterableTypes, Signature.baseName signature = .ok kind → ok kind)
    (h : filterKind? r signature = .ok (some kind)) : ok kind := by
  have hok : ∀ {s : String}, (∀ kind ∈ filterableTypes, Signature.baseName s = .ok kind → ok kind) →
      filterable? s = .ok (some kind) → ok kind := by
    intro s hs hfilter
    unfold filterable? at hfilter
    split at hfilter
    · cases hfilter
    · obtain ⟨name, hname, hsome⟩ := Outcome.map_eq_ok.mp hfilter
      split at hsome
      · rename_i hmem
        cases hsome
        exact hs _ (List.contains_iff_mem.mp hmem) hname
      · cases hsome
  obtain ⟨found, hfound, h⟩ := Outcome.bind_eq_ok.mp h
  cases found with
  | some k =>
    cases h
    exact hok hsignature hfound
  | none =>
    dsimp only at h
    split at h
    · rename_i line hline
      obtain ⟨e, he, hget⟩ := Option.bind_eq_some_iff.mp hline
      refine hok (fun kind hkind hbase =>
        hkinds (Signature.withoutEndMarks signature) ("id", line) ?_ kind hkind hbase) h
      rw [entry, he]
      exact Table.mem_of_get? hget
    · cases h

/-- **Every change that filters are made of keeps that they refer to nothing else**, where the
lines that they are written for are of fine kinds. -/
theorem keptByFilters_sealed (hderived : ∀ n, derived n → IsFilterName n ∧ isName n = true)
    (hown : ∀ n ∈ derivedNames type field, derived n) (hboolean : ok "Boolean")
    (hlines : ∀ key signature, lines key signature → ∀ kind ∈ filterableTypes,
      Signature.baseName signature = .ok kind → ok kind) :
    KeptByFilters (Sealed derived ok r1) type field returned lines := by
  have hw : derived (whereInputName type field) := hown _ List.mem_cons_self
  have ho : derived (orderEnumName type field) := hown _ (List.mem_cons_of_mem _ List.mem_cons_self)
  refine ⟨⟨fun r key signature kind hline hfilter h => ?_,
    fun r key _ _ _ h => h.deleteField hderived hw key,
    fun r key _ _ _ => addOrderValues_of_value (fun r' d _ h =>
      h.updateField hderived (u := id) ho (fun _ => rfl) fun _ => id) r⟩,
    fun r h => h.startWhereInput hderived hw, fun r h => h.setKind hderived ho .enum,
    fun r h => h.dropEmptyOrder hderived ho⟩
  have hkind := mem_filterableTypes hfilter
  have hsealed := h.ensureOperatorInput (fun n hn => (hderived n hn).1) hboolean hkind
    (ok_of_filterKind? h.kinds (hlines key signature hline) hfilter)
  exact hsealed.setFieldType hderived hw
    (.operators kind hkind rfl (by simp [has_ensureOperatorInput]))

end Registry
end SchemaForge
