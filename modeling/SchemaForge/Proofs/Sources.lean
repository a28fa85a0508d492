import SchemaForge.Proofs.Registry.Inputs
import SchemaForge.Proofs.Registry.Outlines
import SchemaForge.Proofs.Shapes
import SchemaForge.Proofs.Synthesis.Names

/-!
# Where the filters of a generated schema come from

Where nothing is declared under the names that filters are written under, everything that
stands under them in a generated schema was written for the fields of a type that is returned
where the filters are asked for. If a model describes this type, these are members of the model.
-/
namespace SchemaForge

open Language

/-- The names that filters are written under are free at the start. -/
structure Blueprint.Apart (b : Blueprint) (d : Draft) : Prop where
  /-- No type of the draft has one. -/
  drafted : ∀ t, Table.has d.registry t = true → ¬IsDerived t
  /-- No filters are asked for under one. -/
  requested : ∀ q ∈ d.requests, ¬IsDerived q.type
  /-- Nothing is declared under one. -/
  declared : ∀ t ∈ (b.declarations none).names d.extensions.fields, ¬IsDerived t
  /-- No type of the schema to start from has one. -/
  known : ∀ s, b.base.schema? = .ok (some s) → ∀ t, Table.has s.types t = true → ¬IsDerived t

/-- Short names are no names of filters. -/
theorem Blueprint.apart_of_short {b : Blueprint} {x : Extensions} (hbase : b.base = .absent)
    (h : ∀ t ∈ (b.declarations none).names x.fields, t.length < 11) :
    b.Apart { extensions := x } := by
  refine ⟨fun t hhas => ?_, fun q hq => ?_, fun t hmem ht => ?_, fun s hs => ?_⟩
  · cases hhas
  · cases hq
  · exact absurd (length_of_isDerived ht) (Nat.not_le.mpr (h t hmem))
  · rw [hbase] at hs
    cases hs

/-- The fields that a type has in a draft or gets by declarations. -/
def Blueprint.fieldsOf (b : Blueprint) (d : Draft) (type : String) : List String :=
  (((b.declarations none).fields d.extensions.fields).filter (·.1 == type)).map Prod.snd
    ++ Table.keys (d.registry.entry type).lines ++ Table.keys ((d.configs.get? type).getD [])

/-- What the filters of a field are written for: fields of a type that it returns, where they are
asked for. -/
def Blueprint.Sources (b : Blueprint) (d : Draft) (tasks : List FilterTask)
    (type field key : String) : Prop :=
  ∃ a ∈ tasks, a.type = type ∧ a.field = field
    ∧ (¬IsDerived a.returned → key ∈ b.fieldsOf d a.returned)

/-- A type has a name of its own, and no fields but members of a model. -/
structure Blueprint.Describes (b : Blueprint) (d : Draft) (type : String) (m : Model) : Prop where
  /-- Its name is its own. -/
  plain : ¬IsDerived type
  /-- Its fields are members. -/
  members : ∀ field ∈ b.fieldsOf d type, field ∈ m.memberNames
  /-- Members have names. -/
  named : "" ∉ m.memberNames

namespace Generate

variable {b : Blueprint} {d d' : Draft} {g : Generated}

/-- What is generated has the given implementations of scalars. -/
theorem leaves_generated (h : generate b d = (.ok g, d')) : g.leaves = b.leaves := by
  obtain ⟨base, _, -, h⟩ := Run.bind_eq_ok.mp h
  obtain ⟨_, _, -, h⟩ := Run.bind_eq_ok.mp h
  obtain ⟨_, _, -, h⟩ := Run.bind_eq_ok.mp h
  obtain ⟨_, _, -, h⟩ := Run.bind_eq_ok.mp h
  obtain ⟨_, _, -, h⟩ := Run.bind_eq_ok.mp h
  obtain ⟨_, _, -, h⟩ := Run.bind_eq_ok.mp h
  obtain ⟨_, _, -, h⟩ := Run.bind_eq_ok.mp h
  cases h
  rfl

/-- Implementations are set on scalars alone. -/
theorem isKind_of_foldlM {s : Schema} {is : Table Implementation} {hs hs' : Handlers}
    (h : is.foldlM (implement s) hs = .ok hs') {name : String} {l : Leaf}
    (hl : (name, .leaf l) ∈ is) : s.isKind name .scalar = true := by
  induction is generalizing hs with
  | nil => cases hl
  | cons i is ih =>
    rw [List.foldlM_cons] at h
    obtain ⟨hs1, h1, h2⟩ := Outcome.bind_eq_ok.mp h
    rcases List.mem_cons.mp hl with rfl | hl
    · unfold implement at h1
      dsimp only at h1
      split at h1
      · rename_i hscalar
        exact (Bool.and_eq_true_iff.mp hscalar).2
      · cases h1
    · exact ih h2 hl

theorem implementsScalars_generated (h : generate b d = (.ok g, d')) :
    Registry.ImplementsScalars g.schema g.leaves := by
  obtain ⟨_, _, -, -, -, -, ⟨hs, himplement, -⟩, -⟩ := generate_eq_ok h
  intro name l hl
  rw [leaves_generated h] at hl
  obtain ⟨i, hi, hleaf⟩ := List.mem_filterMap.mp (Table.mem_of_get? hl)
  obtain ⟨type, given⟩ := i
  cases given with
  | leaf l' =>
    cases hleaf
    exact isKind_of_foldlM himplement hi
  | resolvers fields => cases hleaf

/-- After the first pass nothing stands under the names of filters, and no fields but those that
are declared stand anywhere. -/
theorem under_generated (hapart : b.Apart d) {base : Option Schema} {d1 : Draft}
    (h : Synthesis.firstPass (b.declarations base) d = (.ok ⟨⟩, d1)) :
    Draft.Under (fun _ => False) (¬IsDerived ·) (fun t f => f ∈ b.fieldsOf d t)
      d.extensions.fields d1 := by
  refine Synthesis.under_firstPass (b := b.declarations base) (x := d.extensions.fields)
    hapart.declared (fun c hc f hf => ?_) d _ d1 h ⟨fun _ ht => ht.elim, hapart.drafted,
      fun t l hl => ?_, fun t fs hfs e he => ?_, hapart.requested, rfl⟩
  · have he := Declarations.mem_fields_of_contribution hc hf
    exact List.mem_append_left _ (List.mem_append_left _ (List.mem_map.mpr
      ⟨(c.type, f), List.mem_filter.mpr ⟨he, beq_self_eq_true c.type⟩, rfl⟩))
  · exact List.mem_append_left _ (List.mem_append_right _ (List.mem_map_of_mem hl))
  · refine List.mem_append_right _ ?_
    rw [hfs]
    exact List.mem_map_of_mem he

/-- Which filters are asked for does not change while they are written: their types are not
derived, so the signatures of their lines stay. -/
theorem filterTasks_filtered (hapart : b.Apart d) {base : Option Schema} {d1 d2 : Draft}
    (h : Synthesis.firstPass (b.declarations base) d = (.ok ⟨⟩, d1)) (h2 : d1.Filtered d2) :
    d2.filterTasks = d1.filterTasks := by
  have hunder := under_generated hapart h
  rw [Draft.filterTasks, Draft.filterTasks, h2.filterRequests_eq]
  refine List.flatMap_congr fun q hq => h2.1.filterTasks_eq ?_
  rcases List.mem_append.mp hq with hq | hq
  · obtain ⟨e, he, rfl⟩ := List.mem_map.mp hq
    rw [hunder.extended] at he
    exact hapart.declared e.1 (List.mem_append_right _ (List.mem_map_of_mem he))
  · exact hunder.requests q hq

/-- What is generated comes from a draft where nothing stands under derived names, and where lines
are of declared fields. From there on filters are written, which frame everything else. -/
theorem passes_generated (ht : d.Tidy) (hapart : b.Apart d) (h : generate b d = (.ok g, d')) :
    ∃ r1 : Registry, (∀ name, IsDerived name → Table.has r1 name = false)
      ∧ (∀ t, ∀ l ∈ (r1.entry t).lines, l.1 ∈ b.fieldsOf d t)
      ∧ ∀ (I : Registry → Prop) (lines : FilterTask → String → String → Prop),
        (∀ a ∈ d'.filterTasks, Registry.KeptByFilters I a.type a.field a.returned (lines a)) →
        (∀ a ∈ d'.filterTasks, ∀ r, r1.Framed IsDerived r →
          ∀ l ∈ (r.entry a.returned).lines, lines a l.1 l.2.type) →
        I r1 → r1.Framed IsDerived d'.registry ∧ I d'.registry := by
  obtain ⟨base, d2, -, hsynth, -, -, -, hd⟩ := generate_eq_ok h
  obtain ⟨d1, hfirst, hpasses⟩ := Synthesis.synthesize_passes ht hsynth
  have hunder := under_generated hapart hfirst
  have htasks : ∀ d3, d1.Filtered d3 → d3.filterTasks = d'.filterTasks := by
    intro d3 h3
    obtain ⟨_, hfirst', hfiltered⟩ := Synthesis.synthesize_eq_ok ht hsynth
    obtain ⟨-, rfl⟩ := Prod.mk.inj (hfirst.symm.trans hfirst')
    have hsame : d'.filterTasks = d2.filterTasks := by
      rw [hd]
      rfl
    rw [hsame, filterTasks_filtered hapart hfirst h3, filterTasks_filtered hapart hfirst hfiltered]
  refine ⟨d1.registry, fun name hname => Bool.eq_false_iff.mpr fun hhas =>
    hunder.types name hhas hname, hunder.lines, fun I lines hkept hlines hstart => ?_⟩
  have hstep : Synthesis.KeptByRequests fun d3 =>
      d1.Filtered d3 ∧ d1.registry.Framed IsDerived d3.registry ∧ I d3.registry := by
    intro d3 h3 a ha isList x d4 hrun
    rw [htasks d3 h3.1] at ha
    obtain ⟨r, hr, rfl⟩ := Synthesis.edit_eq_ok hrun
    have hown : ∀ n ∈ derivedNames a.type a.field, IsDerived n := fun n hn =>
      Registry.isDerived_of_isFilterName (Registry.isFilterName_of_mem_derivedNames hn)
    have hframed := Registry.keptByFilters_framed d1.registry hown a.returned (lines a)
    refine ⟨h3.1.trans ⟨Registry.writesFilters_addFilters _ _ _ _ _ _ _ hr, rfl⟩, ?_⟩
    exact Registry.keeps_addFilters (hframed.and (hkept a ha))
      (fun r hr => hlines a ha r hr.1) isList d3.registry x r hr h3.2
  have hend := hpasses _ hstep (fun d3 h3 => h3.1) ⟨.refl d1, fun _ _ _ => rfl, hstart⟩
  rw [hd]
  exact hend.2

/-- The lines that the filters of a field are written for are those of the type that it returns,
if this is not derived itself. -/
def Reads (b : Blueprint) (d d' : Draft) (a : FilterTask) (key signature : String) : Prop :=
  ¬IsDerived a.returned → key ∈ b.fieldsOf d a.returned
    ∧ ∃ l ∈ (d'.registry.entry a.returned).lines, l.1 = key ∧ l.2.type = signature

/-- **What the filters that are asked for keep holds of what is generated**, if it holds where
nothing stands under derived names. -/
theorem kept_generated (ht : d.Tidy) (hapart : b.Apart d) (h : generate b d = (.ok g, d'))
    {I : Registry → Prop}
    (hstart : ∀ r : Registry, (∀ name, IsDerived name → Table.has r name = false) → I r)
    (hkept : ∀ a ∈ d'.filterTasks,
      Registry.KeptByFilters I a.type a.field a.returned (Reads b d d' a)) :
    I d'.registry := by
  obtain ⟨r1, hfree, hfields, hpasses⟩ := passes_generated ht hapart h
  obtain ⟨hframed, -⟩ := hpasses (fun _ => True) (fun _ _ _ => True)
    (fun _ _ => ⟨⟨fun _ _ _ _ _ _ => id, fun _ _ _ _ _ => id, fun _ _ _ _ _ => id⟩,
      fun _ => id, fun _ => id, fun _ => id⟩) (fun _ _ _ _ _ _ => trivial) trivial
  refine (hpasses I (Reads b d d') hkept (fun a _ r hr l hl hplain => ?_) (hstart r1 hfree)).2
  have hsettled : r1.IsSettled a.returned := .inr fun kind _ heq =>
    hplain (heq ▸ isDerived_operatorInputName kind)
  have hfirst := Registry.lines_of_outline? (hr _ hplain hsettled)
  have hlast := Registry.lines_of_outline? (hframed _ hplain hsettled)
  refine ⟨?_, ?_⟩
  · obtain ⟨l', hl', hsame⟩ := List.mem_map.mp (hfirst ▸ List.mem_map_of_mem hl)
    exact (Prod.mk.inj hsame).1 ▸ hfields a.returned l' hl'
  · obtain ⟨l', hl', hsame⟩ := List.mem_map.mp ((hfirst.trans hlast.symm) ▸ List.mem_map_of_mem hl)
    exact ⟨l', hl', (Prod.mk.inj hsame).1, (Prod.mk.inj (Prod.mk.inj hsame).2).1⟩

/-- **Under the names of filters stands nothing but filters**, and they are written for fields of
the types that are returned where filters are asked for. -/
theorem filled_generated (ht : d.Tidy) (hapart : b.Apart d) (h : generate b d = (.ok g, d')) :
    d'.registry.Filled (b.Sources d d'.filterTasks) := by
  refine kept_generated ht hapart h (fun r hfree => ⟨fun name hname l hl => ?_,
    fun kind hkind hhas => ?_⟩) fun a ha => (Registry.keptByFilters_filled ..).mono
      fun key signature hreads => ⟨a, ha, rfl, rfl, fun hplain => (hreads hplain).1⟩
  · rw [Registry.entry, (Table.get?_eq_none_iff _ _).mpr
      (hfree name (Registry.isDerived_of_isFilterName hname))] at hl
    cases hl
  · rw [hfree _ (isDerived_operatorInputName kind)] at hhas
    cases hhas

theorem typesAfter_nil (base : Option Schema) :
    Schema.typesAfter ⟨base, []⟩ = (base.map (·.types)).getD [] := by
  unfold Schema.typesAfter Schema.withExtensions
  simp [Addition.definitions, Addition.extensions, Addition.typeNodes]

/-- The types of what is built come from the document of the registry. -/
theorem builds_generated (ht : d.Tidy) (h : generate b d = (.ok g, d'))
    (hr : d'.registry.Readable) (hrecords : d'.directives.Readable) :
    ∃ base, b.base.schema? = .ok base ∧ d'.registry.Builds base g.schema := by
  obtain ⟨base, doc, s, hbase, hdocument, hbuilt, htypes⟩ := exists_document h hr hrecords
  refine ⟨base, hbase, (tidy_generated ht h).types, hr, d'.directives,
    (base.map fun s => s.allDirectives.map (·.name)).getD [], doc, hdocument, ?_⟩
  rw [htypes]
  rcases hbuilt with ⟨rfl, rfl⟩ | hadded
  · rw [typesAfter_nil]
    cases base <;> rfl
  · obtain ⟨-, rfl⟩ := Schema.ofAddition_eq_ok hadded
    rfl

/-- Derived names are new. -/
theorem isNew_of_isDerived (hapart : b.Apart d) {base : Option Schema}
    (hbase : b.base.schema? = .ok base) {name : String} (hname : IsDerived name) :
    Registry.IsNew base name := by
  refine ⟨Registry.isStandardType_of_isDerived hname, fun s hs => ?_⟩
  obtain rfl : base = some s := hs
  exact Bool.eq_false_iff.mpr fun hhas => hapart.known s hbase name hhas hname

end Generate
end SchemaForge
