import SchemaForge.Proofs.Registry.Lines
import SchemaForge.Proofs.Synthesis.SecondPass

/-!
# The names that declarations write under

The first pass writes to no types but those that are declared: under the names of scalars and
types, under alternate names, and under the names of types that policies and extensions bring
along. There it writes no lines but those of declared fields, and it asks for filters for no
other types. So a name that is not declared is free until filters are written, and a type has
the fields of the model that it is declared by.
-/
namespace SchemaForge

/-! ### Declared names -/

/-- The words or the fields that a mapping declares. -/
def FieldMap.names (m : FieldMap) : List String :=
  match TypeDeclaration.words? m, m with
  | some words, _ => words
  | none, .value _ => []
  | none, .fields entries => (fieldEntries entries).map Prod.fst

/-- The types that a policy brings along. -/
def PolicyOption.brought : PolicyOption → List (String × FieldMap)
  | .policy p => p.types
  | .value _ => []

/-- The names of the members of a model. -/
def Model.memberNames (m : Model) : List String :=
  m.columns.map (·.key) ++ m.virtuals.map (·.key) ++ m.associations.map (·.key)

namespace Declarations

variable (d : Declarations)

/-- The names of the members that a plugin describes of a declared type. -/
def membersOf (plugin : Plugin) (t : TypeDeclaration) : List String :=
  match plugin, t with
  | .classes, t => (Synthesis.attributesOf d t).map Prod.fst
  | .store .., .mapped name => ((d.models.get? name).getD default).memberNames
  | _, _ => []

/-- The names that a declared type is written under, with those that its policies bring along. -/
def namesOf (named : String × TypeDeclaration) : List String :=
  named.1 :: (Deed.ownPolicy d named.2).brought.map Prod.fst
    ++ (Deed.otherNames d named.2).flatMap fun a => a.1 :: a.2.brought.map Prod.fst

/-- The names that everything that is declared is written under, with these extensions. -/
def names (x : Table (List (String × FieldEntry))) : List String :=
  d.scalars ++ d.types.flatMap d.namesOf ++ Table.keys x

/-- The types and fields that a declared type gives, with those that its policies bring along. -/
def fieldsOf (named : String × TypeDeclaration) : List (String × String) :=
  let brought (p : PolicyOption) := p.brought.flatMap fun e => e.2.names.map (e.1, ·)
  match findPlugin named.2.model d.plugins with
  | .ok (some plugin) =>
    let members := d.membersOf plugin named.2
    members.map (named.1, ·) ++ brought (Deed.ownPolicy d named.2)
      ++ (Deed.otherNames d named.2).flatMap fun a => members.map (a.1, ·) ++ brought a.2
  | .ok none =>
    match named.2 with
    | .inline m => m.names.map (named.1, ·)
    | _ => []
  | .error _ => []

/-- The types and fields that everything that is declared gives, with these extensions. -/
def fields (x : Table (List (String × FieldEntry))) : List (String × String) :=
  d.types.flatMap d.fieldsOf ++ x.flatMap fun e => (FieldMap.fields e.2).names.map (e.1, ·)

/-- The members of a mapped model that a schema can have as fields: columns that hold more than
an association and have a field type, virtual fields, and associations that lead to a type. -/
def fieldsOfModel (own : Table String) (m : Model) : List String :=
  (m.columns.filter fun c => !Synthesis.holdsAssociation c
      && (ColumnType.fieldType (Synthesis.columnTable d own) c.type).isSome).map (·.key)
    ++ m.virtuals.map (·.key)
    ++ (m.associations.filter fun a => (d.typeOf? a.target).isSome).map (·.key)

/-- The fields that a plugin describes of a declared type under a policy. -/
def exposedOf (plugin : Plugin) (t : TypeDeclaration) (p : PolicyOption) : List String :=
  match plugin, t with
  | .classes, t => ((Synthesis.attributesOf d t).filterMap (fieldOfAttribute? p)).map (·.1)
  | .store own _, .mapped name =>
    (d.fieldsOfModel own ((d.models.get? name).getD default)).filter
      fun f => (p.exposes f matches .ok true)
  | _, _ => []

end Declarations

/-- A declaration that gives fields to a type. -/
inductive Contribution where
  /-- A model that a plugin describes under a name, where a policy says what is exposed. -/
  | members (plugin : Plugin) (type : String) (model : TypeDeclaration) (policy : PolicyOption)
  /-- A mapping of fields. -/
  | mapping (type : String) (fields : FieldMap)

namespace Contribution

/-- The type that gets the fields. -/
def type : Contribution → String
  | members _ type _ _ | mapping type _ => type

/-- The fields. -/
def fields (d : Declarations) : Contribution → List String
  | members plugin _ model p => d.exposedOf plugin model p
  | mapping _ m => m.names

end Contribution

namespace Declarations

variable (d : Declarations)

/-- What a declared type contributes, with what its policies bring along. -/
def contributionsOf (named : String × TypeDeclaration) : List Contribution :=
  let brought (p : PolicyOption) := p.brought.map fun e => Contribution.mapping e.1 e.2
  match findPlugin named.2.model d.plugins with
  | .ok (some plugin) =>
    .members plugin named.1 named.2 (Deed.ownPolicy d named.2)
      :: brought (Deed.ownPolicy d named.2)
      ++ (Deed.otherNames d named.2).flatMap fun a =>
          .members plugin a.1 named.2 a.2 :: brought a.2
  | .ok none =>
    match named.2 with
    | .inline m => [.mapping named.1 m]
    | _ => []
  | .error _ => []

/-- What everything that is declared contributes, with these extensions. -/
def contributions (x : Table (List (String × FieldEntry))) : List Contribution :=
  d.types.flatMap d.contributionsOf ++ x.map fun e => .mapping e.1 (.fields e.2)

variable {d}

/-- A policy leaves out what it does not expose. -/
theorem exposes_of_mem_exposedOf {plugin : Plugin} {t : TypeDeclaration} {p : PolicyOption}
    {f : String} (h : f ∈ d.exposedOf plugin t p) : p.exposes f = .ok true := by
  unfold exposedOf at h
  split at h
  · obtain ⟨a, ha, rfl⟩ := List.mem_map.mp h
    obtain ⟨named, -, hfield⟩ := List.mem_filterMap.mp ha
    exact (fieldOfAttribute?_eq_some hfield).2
  · have hexposed := (List.mem_filter.mp h).2
    split at hexposed
    · assumption
    · cases hexposed
  · cases h

/-- What is exposed of a model are members of it. -/
theorem mem_membersOf_of_exposed {plugin : Plugin} {t : TypeDeclaration} {p : PolicyOption}
    {f : String} (h : f ∈ d.exposedOf plugin t p) : f ∈ d.membersOf plugin t := by
  unfold exposedOf at h
  split at h
  · obtain ⟨a, ha, rfl⟩ := List.mem_map.mp h
    obtain ⟨named, hnamed, hfield⟩ := List.mem_filterMap.mp ha
    exact List.mem_map.mpr ⟨named, hnamed, (fieldOfAttribute?_eq_some hfield).1.symm⟩
  · simp only [List.mem_filter, fieldsOfModel, List.mem_append] at h
    simp only [membersOf, Model.memberNames, List.mem_append]
    refine h.1.imp (Or.imp (fun hcolumn => ?_) id) fun hassociation => ?_
    · obtain ⟨c, hc, rfl⟩ := List.mem_map.mp hcolumn
      exact List.mem_map_of_mem (List.mem_filter.mp hc).1
    · obtain ⟨a, ha, rfl⟩ := List.mem_map.mp hassociation
      exact List.mem_map_of_mem (List.mem_filter.mp ha).1
  · cases h

/-- What is contributed is declared. -/
theorem mem_fieldsOf_of_contribution {named : String × TypeDeclaration} {c : Contribution}
    (hc : c ∈ d.contributionsOf named) {f : String} (hf : f ∈ c.fields d) :
    (c.type, f) ∈ d.fieldsOf named := by
  have hmapping : ∀ {p : PolicyOption}, c ∈ p.brought.map (fun e => Contribution.mapping e.1 e.2) →
      (c.type, f) ∈ p.brought.flatMap fun e => e.2.names.map (e.1, ·) := by
    intro p hmem
    obtain ⟨e, he, rfl⟩ := List.mem_map.mp hmem
    exact List.mem_flatMap.mpr ⟨e, he, List.mem_map_of_mem hf⟩
  unfold contributionsOf at hc
  unfold fieldsOf
  dsimp only at hc ⊢
  split at hc
  · simp only [List.cons_append, List.mem_cons, List.mem_append, List.mem_flatMap] at hc
    simp only [List.mem_append, List.mem_flatMap]
    rcases hc with rfl | hc | ⟨a, ha, rfl | hc⟩
    · exact .inl (.inl (List.mem_map_of_mem (mem_membersOf_of_exposed hf)))
    · exact .inl (.inr (List.mem_flatMap.mp (hmapping hc)))
    · exact .inr ⟨a, ha, .inl (List.mem_map_of_mem (mem_membersOf_of_exposed hf))⟩
    · exact .inr ⟨a, ha, .inr (List.mem_flatMap.mp (hmapping hc))⟩
  · split at hc
    · obtain rfl := List.mem_singleton.mp hc
      exact List.mem_map_of_mem hf
    · cases hc
  · cases hc

theorem mem_fields_of_contribution {x : Table (List (String × FieldEntry))} {c : Contribution}
    (hc : c ∈ d.contributions x) {f : String} (hf : f ∈ c.fields d) :
    (c.type, f) ∈ d.fields x := by
  rcases List.mem_append.mp hc with hc | hc
  · obtain ⟨named, hnamed, hc⟩ := List.mem_flatMap.mp hc
    exact List.mem_append_left _ (List.mem_flatMap.mpr
      ⟨named, hnamed, mem_fieldsOf_of_contribution hc hf⟩)
  · obtain ⟨e, he, rfl⟩ := List.mem_map.mp hc
    exact List.mem_append_right _ (List.mem_flatMap.mpr ⟨e, he, List.mem_map_of_mem hf⟩)

end Declarations

/-- The types of a draft, with their lines and the configurations of their fields, have these
names, some are there in any case, filters are asked for under the names, and these fields are to
be added to it. -/
structure Draft.Under (base names : String → Prop) (fields : String → String → Prop)
    (x : Table (List (String × FieldEntry))) (d : Draft) : Prop where
  /-- The types that are there. -/
  there : ∀ t, base t → Table.has d.registry t = true
  /-- Its types. -/
  types : ∀ t, Table.has d.registry t = true → names t
  /-- Their lines. -/
  lines : ∀ t, ∀ l ∈ (d.registry.entry t).lines, fields t l.1
  /-- The configurations of their fields. -/
  configs : ∀ t fs, d.configs.get? t = some fs → ∀ e ∈ fs, fields t e.1
  /-- Its requests. -/
  requests : ∀ q ∈ d.requests, names q.type
  /-- The fields of its extensions. -/
  extended : d.extensions.fields = x

namespace Synthesis

open Run

variable {α β : Type} {base names : String → Prop} {fields : String → String → Prop}
  {x : Table (List (String × FieldEntry))} {t f : String}

/-! ### Steps -/

theorem under_change {u : Registry → Registry}
    (hgrows : ∀ r o, Table.has r o = true → Table.has (u r) o = true)
    (h : ∀ r o, Table.has (u r) o = true → Table.has r o = true ∨ names o)
    (hl : ∀ r o, ∀ l ∈ ((u r).entry o).lines,
      (∃ l' ∈ (r.entry o).lines, l'.1 = l.1) ∨ fields o l.1) :
    Keeps (Draft.Under base names fields x) (change u) := by
  refine keeps_modify fun d hd => ⟨fun o ho => hgrows d.registry o (hd.there o ho),
    fun o ho => (h d.registry o ho).elim (hd.types o) id, fun o l hline => ?_, hd.configs,
    hd.requests, hd.extended⟩
  obtain ⟨l', hl', hname⟩ | hfield := hl d.registry o l hline
  · exact hname ▸ hd.lines o l' hl'
  · exact hfield

/-- A change of a type writes under its name. -/
theorem under_updateType (ht : names t) {u : TypeEntry → TypeEntry}
    (hu : ∀ e, ∀ l ∈ (u e).lines, (∃ l' ∈ e.lines, l'.1 = l.1) ∨ fields t l.1) :
    Keeps (Draft.Under base names fields x) (change (·.updateType t u)) := by
  refine under_change (fun r o => Registry.has_updateType t o u) (fun r o ho => ?_) fun r o l hl => ?_
  · rw [Registry.updateType, Table.has_eq_isSome, Table.get?_update] at ho
    split at ho
    · rename_i h
      exact .inr (beq_iff_eq.mp h ▸ ht)
    · exact .inl (Table.has_eq_isSome r o ▸ ho)
  · rw [Registry.entry_updateType] at hl
    split at hl
    · rename_i h
      exact h ▸ hu _ l hl
    · exact .inl ⟨l, hl, rfl⟩

/-- So does one that leaves its lines. -/
theorem under_updateType_lines (ht : names t) {u : TypeEntry → TypeEntry}
    (hu : ∀ e, (u e).lines = e.lines) :
    Keeps (Draft.Under base names fields x) (change (·.updateType t u)) :=
  under_updateType ht fun e l hl => .inl ⟨l, hu e ▸ hl, rfl⟩

theorem under_setKind (ht : names t) (kind : Language.TypeKind) :
    Keeps (Draft.Under base names fields x) (change (·.setKind t kind)) :=
  under_updateType_lines ht (u := fun e => { e with kind }) fun _ => rfl

/-- A change of a line writes this line alone. -/
theorem under_updateField (ht : names t) (hf : fields t f) (u : FieldLine → FieldLine) :
    Keeps (Draft.Under base names fields x) (change (·.updateField t f u)) := by
  refine under_updateType ht fun e l hl => ?_
  rcases Registry.mem_update hl with hl | ⟨line, -, rfl⟩
  · exact .inl ⟨l, hl, rfl⟩
  · exact .inr hf

theorem under_ensureField (ht : names t) (hf : fields t f) :
    Keeps (Draft.Under base names fields x) (change (·.ensureField t f)) := under_updateField ht hf id

theorem under_setFieldType (ht : names t) (hf : fields t f) (signature : String) :
    Keeps (Draft.Under base names fields x) (change (·.setFieldType t f signature)) :=
  under_updateField ht hf fun line => { line with type := signature }

theorem under_ensureType (ht : names t) :
    Keeps (Draft.Under base names fields x) (change (·.ensureType t)) := by
  refine under_change (fun r o ho => ?_) (fun r o ho => ?_) fun r o l hl => ?_
  · rw [Table.has_eq_isSome] at ho ⊢
    rw [Registry.ensureType, Table.get?_ensure, Option.isSome_or, ho, Bool.true_or]
  · rw [Registry.ensureType, Table.has_eq_isSome, Table.get?_ensure] at ho
    by_cases h : o = t
    · exact .inr (h ▸ ht)
    · rw [if_neg (by simpa using h), Option.or_none] at ho
      exact .inl (Table.has_eq_isSome r o ▸ ho)
  · rw [Registry.entry_ensureType] at hl
    exact .inl ⟨l, hl, rfl⟩

theorem under_put (ht : names t) {e : TypeEntry} (he : ∀ l ∈ e.lines, fields t l.1) :
    Keeps (Draft.Under base names fields x) (change fun r => Table.put r t e) := by
  refine under_change (fun r o ho => ?_) (fun r o ho => ?_) fun r o l hl => ?_
  · rw [Table.has_eq_isSome] at ho ⊢
    rw [Table.get?_put]
    split
    · rfl
    · exact ho
  · rw [Table.has_eq_isSome, Table.get?_put] at ho
    split at ho
    · rename_i h
      exact .inr (beq_iff_eq.mp h ▸ ht)
    · exact .inl (Table.has_eq_isSome r o ▸ ho)
  · rw [Registry.entry_put] at hl
    split at hl
    · rename_i h
      exact .inr (h ▸ he l hl)
    · exact .inl ⟨l, hl, rfl⟩

/-- What leaves the registry, the configurations, the requests and the extensions writes under
no name. -/
theorem under_modify {u : Draft → Draft} (hr : ∀ d, (u d).registry = d.registry)
    (hc : ∀ d, (u d).configs = d.configs) (hq : ∀ d, (u d).requests = d.requests)
    (hx : ∀ d, (u d).extensions.fields = d.extensions.fields) :
    Keeps (Draft.Under base names fields x) (modify u : Synthesis PUnit) :=
  keeps_modify fun d hd => ⟨fun o => hr d ▸ hd.there o, fun o => hr d ▸ hd.types o, fun o => hr d ▸ hd.lines o,
    fun o => hc d ▸ hd.configs o, hq d ▸ hd.requests, (hx d).trans hd.extended⟩

theorem under_setPolicy (p : PolicyOption) (primary : Option String) :
    Keeps (Draft.Under base names fields x)
      (modify fun d =>
        { d with extensions := d.extensions.setPolicy t p primary } : Synthesis PUnit) :=
  under_modify (fun _ => rfl) (fun _ => rfl) (fun _ => rfl) fun _ => Extensions.fields_setPolicy ..

theorem under_resolve (o : DirectiveOption) : Keeps (Draft.Under base names fields x) (resolve o) := by
  intro d a d' h hd
  obtain ⟨s, -, rfl⟩ := resolve_eq_ok h
  exact ⟨hd.there, hd.types, hd.lines, hd.configs, hd.requests, hd.extended⟩

theorem under_record (c : Directive) : Keeps (Draft.Under base names fields x) (record c) := by
  intro d a d' h hd
  have hd' : d' = { d with directives := (d.directives.register ⟨c.name, c.arguments⟩).2 } :=
    (congrArg Prod.snd h).symm
  rw [hd']
  exact ⟨hd.there, hd.types, hd.lines, hd.configs, hd.requests, hd.extended⟩

theorem under_warn (text : String) : Keeps (Draft.Under base names fields x) (warn text) :=
  under_modify (fun _ => rfl) (fun _ => rfl) (fun _ => rfl) fun _ => rfl

theorem under_request {q : FilterRequest} (hq : names q.type) :
    Keeps (Draft.Under base names fields x) (request q) := by
  refine keeps_modify fun d hd => ⟨hd.there, hd.types, hd.lines, hd.configs, fun p hp => ?_, hd.extended⟩
  rcases List.mem_append.mp hp with hp | hp
  · exact hd.requests p hp
  · rw [List.mem_singleton.mp hp]
    exact hq

theorem under_configure (hf : fields t f) (c : FieldConfig) :
    Keeps (Draft.Under base names fields x) (configure t f c) :=
  keeps_modify fun _ hd => ⟨hd.there, hd.types, hd.lines, Table.forall_update_put hd.configs hf,
    hd.requests, hd.extended⟩

theorem under_ensureConfigs : Keeps (Draft.Under base names fields x)
    (modify fun d => { d with configs := d.configs.ensure t [] } : Synthesis PUnit) :=
  keeps_modify fun _ hd => ⟨hd.there, hd.types, hd.lines,
    Table.forall_ensure hd.configs fun _ he => (by cases he), hd.requests, hd.extended⟩

theorem under_lift_bind {o : Except Failure α} {g : α → Synthesis β}
    (h : ∀ a, Keeps (Draft.Under base names fields x) (g a)) :
    Keeps (Draft.Under base names fields x) (lift o >>= g) :=
  keeps_synthesisLift_bind fun a _ => h a

theorem under_directType (ht : names t) (ds : List Directive) :
    Keeps (Draft.Under base names fields x) (directType t ds) :=
  keeps_forM fun c _ => (under_record c).bind fun _ => under_updateType_lines ht fun _ => rfl

/-! ### Declared fields -/

theorem under_addInputs (ht : names t) (hf : fields t f) (c : FieldConfig) :
    Keeps (Draft.Under base names fields x) (addInputs t f c) := by
  have hstore : ∀ (isList : Bool), Keeps (Draft.Under base names fields x)
      (change (·.updateField t f (Registry.addFetchArguments · t f isList))) :=
    fun isList => under_updateField ht hf _
  unfold addInputs
  refine keeps_ite (fun _ => keeps_get_bind fun d _ => ?_) fun _ => ?_
  · exact keeps_ite (fun _ => (keeps_throw _).bind fun _ => under_lift_bind hstore)
      fun _ => under_lift_bind hstore
  · split
    · refine keeps_forM fun a _ => ?_
      obtain ⟨name, signature⟩ := a
      cases signature with
      | text s => exact under_updateField ht hf (·.addArgument name s)
      | _ => exact keeps_pure _
    · exact keeps_pure _

theorem under_describe (ht : names t) (hf : fields t f) (c : FieldConfig) :
    Keeps (Draft.Under base names fields x) (describe t f c) := by
  have huses : ∀ (d : Directive) (u : PUnit), Keeps (Draft.Under base names fields x) (do
      let use ← record d
      change (·.addFieldDirective t f use)
      pure (ForInStep.yield u)) := fun d u =>
    (under_record d).bind fun use => (under_updateField ht hf (·.addDirective use)).bind
      fun _ => keeps_pure _
  refine (under_ensureField ht hf).bind fun _ => (under_addInputs ht hf c).bind fun _ => ?_
  exact (under_resolve c.directives).bind fun ds => (keeps_forIn (fun d _ => huses d) _).bind
    fun _ => keeps_pure _

theorem under_noteConfig (hf : fields t f) (owner : Option ModelRef) (c : FieldConfig) :
    Keeps (Draft.Under base names fields x) (noteConfig t f owner c) := by
  have hmerged : ∀ known, Keeps (Draft.Under base names fields x) (merged known owner c) := by
    intro known
    unfold merged
    refine keeps_ite (fun _ => keeps_pure _) fun _ => ?_
    split
    · exact keeps_pure _
    · exact keeps_ite (fun _ => (under_resolve _).bind fun _ => (under_resolve _).bind fun _ =>
        keeps_pure _) fun _ => keeps_pure _
  unfold noteConfig
  exact keeps_ite (fun _ => keeps_get_bind fun d _ => (hmerged _).bind fun _ =>
    under_configure hf _) fun _ => keeps_pure _

theorem under_declareField (ht : names t) (hf : fields t f) (owner : Option ModelRef)
    (e : FieldDeclaration) : Keeps (Draft.Under base names fields x) (declareField t owner f e) := by
  have hrest : ∀ c, Keeps (Draft.Under base names fields x) (do
      describe t f c; noteConfig t f owner c) :=
    fun c => (under_describe ht hf c).bind fun _ => under_noteConfig hf owner c
  unfold declareField
  refine keeps_get_bind fun d _ => keeps_ite (fun _ => under_ensureField ht hf) fun _ => ?_
  refine under_lift_bind fun c => (under_ensureField ht hf).bind fun _ => ?_
  exact keeps_ite (fun _ => (under_setFieldType ht hf _).bind fun _ => hrest c) fun _ => hrest c

theorem under_declarePolicy (ht : names t) (p : Policy) :
    Keeps (Draft.Under base names fields x) (declarePolicy t p) := by
  have hrest : Keeps (Draft.Under base names fields x) (do
      modify fun d => { d with extensions := d.extensions.setPolicy t (.policy p) none }
      directType t (← resolve p.directives)) :=
    (under_setPolicy _ _).bind fun _ => (under_resolve _).bind fun ds => under_directType ht ds
  unfold declarePolicy
  refine keeps_ite (fun _ => ?_) fun _ => hrest
  intro d a d' hrun hd
  -- The registry that is written is made from the one that is there, so the two are one change.
  obtain ⟨_, _, hget, hrun⟩ := Run.bind_eq_ok.mp hrun
  cases hget
  obtain ⟨r, _, hr, hrun⟩ := Run.bind_eq_ok.mp hrun
  obtain ⟨_, d1, hchange, hrun⟩ := Run.bind_eq_ok.mp hrun
  cases hcreate : d.registry.create p.kind.plain t with
  | error e =>
    rw [hcreate] at hr
    cases hr
  | ok r' =>
    rw [hcreate] at hr
    cases hr
    unfold Registry.create at hcreate
    split at hcreate
    · rename_i kind _
      cases hcreate
      cases hchange
      exact hrest _ a d' hrun (under_setKind ht kind d _ _ rfl hd)
    · cases hcreate

theorem under_declare (ht : names t) {m : FieldMap} (hm : ∀ f ∈ m.names, fields t f)
    (owner : Option ModelRef) : Keeps (Draft.Under base names fields x) (declare t m owner) := by
  refine (under_ensureType ht).bind fun _ => ?_
  split
  · rename_i m _ _ words hwords
    have hnames : m.names = words := by
      unfold FieldMap.names
      rw [hwords]
    exact (under_setKind ht .enum).bind fun _ => keeps_forM fun w hw =>
      under_ensureField ht (hm w (hnames ▸ hw))
  · exact keeps_throw _
  · rename_i entries hwords
    have hnames : FieldMap.names (.fields entries) = (fieldEntries entries).map Prod.fst := by
      unfold FieldMap.names
      rw [hwords]
    have hfield : ∀ e ∈ fieldEntries entries, Keeps (Draft.Under base names fields x)
        (declareField t owner e.1 e.2) := fun e he =>
      under_declareField ht (hm e.1 (hnames ▸ List.mem_map_of_mem he)) owner e.2
    split
    · exact (under_declarePolicy ht _).bind fun _ => keeps_forM fun e he => hfield e he
    · exact keeps_forM fun e he => hfield e he

/-! ### Models -/

/-- What is noted of an attribute of a class is noted of a field. -/
theorem fieldOfAttribute?_of_exposed {p : PolicyOption} {f : String} {e : FieldDeclaration}
    {c : FieldConfig} {active : Bool} (hc : attributeConfig? e = some (c, active))
    (hpublic : ¬"_".isPrefixOf f = true) (hexposed : p.exposes f = .ok true)
    (htype : c.returnType.truthy = true) : fieldOfAttribute? p (f, e) = some (f, c, active) := by
  simp [fieldOfAttribute?, hc, hpublic, hexposed, htype]

/-- The lines that the attributes of a class bring. -/
structure ClassLines (fields : String → String → Prop) (t : String) (lines : Table FieldLine) :
    Prop where
  /-- They are of some fields, and without directives. -/
  given : ∀ l ∈ lines, fields t l.1 ∧ l.2.directives = []
  /-- They are different. -/
  names : (Table.keys lines).Nodup

theorem classLines_nil : ClassLines fields t [] :=
  ⟨fun _ hl => (List.not_mem_nil hl).elim, List.nodup_nil⟩

theorem ClassLines.put {lines : Table FieldLine} (h : ClassLines fields t lines) (hf : fields t f)
    (signature : String) : ClassLines fields t (Table.put lines f { type := signature }) where
  given l hl := by
    rcases Table.mem_put hl with hl | rfl
    · exact h.given l hl
    · exact ⟨hf, rfl⟩
  names := Table.nodup_keys_put h.names ..

/-- An attribute of a class brings no line but its own, without directives. -/
theorem yields_addAttribute (p : PolicyOption) (lines : Table FieldLine)
    (named : String × FieldDeclaration) (hlines : ClassLines fields t lines)
    (hf : ∀ a, fieldOfAttribute? p named = some a → fields t a.1) :
    Yields (ClassLines fields t) (addAttribute t p lines named) := by
  obtain ⟨f, e⟩ := named
  unfold addAttribute
  dsimp only
  split
  · exact yields_pure hlines
  · rename_i c active hc
    split
    · exact yields_pure hlines
    · rename_i hpublic
      refine yields_synthesisLift_bind fun exposed hexposed => ?_
      cases exposed with
      | false => exact yields_pure hlines
      | true =>
        rw [if_neg (by simp)]
        split
        · exact yields_pure hlines
        · rename_i htype
          have hf := hf _ (fieldOfAttribute?_of_exposed hc hpublic hexposed (by simpa using htype))
          split
          · exact (yields_true _).bind fun _ _ => yields_pure (hlines.put hf _)
          · exact yields_pure (hlines.put hf _)

theorem under_addClass (ht : names t) (b : Declarations) (c : TypeDeclaration) (p : PolicyOption)
    (hf : ∀ a ∈ (attributesOf b c).filterMap (fieldOfAttribute? p), fields t a.1) :
    Keeps (Draft.Under base names fields x) (addClass b t c p) := by
  have hfield : ∀ a ∈ attributesOf b c, ∀ a', fieldOfAttribute? p a = some a' → fields t a'.1 :=
    fun a ha a' ha' => hf a' (List.mem_filterMap.mpr ⟨a, ha, ha'⟩)
  have hyields : Yields (ClassLines fields t) ((attributesOf b c).foldlM (addAttribute t p) []) :=
    yields_foldlM (fun lines a ha hlines =>
      yields_addAttribute p lines a hlines (hfield a ha)) classLines_nil
  refine (keeps_foldlM (fun lines a ha => ?_) _).bind_of_yields hyields fun lines hlines =>
    under_put ht fun l hl => (hlines.given l hl).1
  have hf := hfield a ha
  obtain ⟨f, e⟩ := a
  unfold addAttribute
  dsimp only
  split
  · exact keeps_pure _
  · rename_i c active hc
    refine keeps_ite (fun _ => keeps_pure _) fun hpublic =>
      keeps_synthesisLift_bind fun exposed hexposed => ?_
    cases exposed with
    | false => exact keeps_pure _
    | true =>
      rw [if_neg (by simp)]
      refine keeps_ite (fun _ => keeps_pure _) fun htype => ?_
      have hf := hf _ (fieldOfAttribute?_of_exposed hc hpublic hexposed (by simpa using htype))
      exact keeps_ite (fun _ => (under_configure hf _).bind fun _ => keeps_pure _)
        fun _ => keeps_pure _

/-- The filters that a model needs are those of fields of its type. -/
theorem yields_associationRequests (b : Declarations) (m : Model) (p : PolicyOption) :
    Yields (fun qs => ∀ q ∈ qs, q.type = t) (associationRequests b m t p) := by
  refine yields_filterMapM fun a _ => (yields_true _).bind fun exposed _ => ?_
  split
  · refine yields_pure fun q hq => ?_
    obtain ⟨target, -, rfl⟩ := Option.map_eq_some_iff.mp hq
    rfl
  · exact yields_pure fun q hq => by cases hq

theorem under_addModel (ht : names t) (b : Declarations) (own : Table String) (m : Model)
    (p : PolicyOption) (hf : ∀ f ∈ b.fieldsOfModel own m, p.exposes f = .ok true → fields t f) :
    Keeps (Draft.Under base names fields x) (addModel b own t m p) := by
  have hcolumn : ∀ c ∈ m.columns, Keeps (Draft.Under base names fields x)
      (addColumn b (columnTable b own) t p c) := by
    intro c hc
    refine keeps_synthesisLift_bind fun exposed hexposed => keeps_ite (fun hkept => ?_)
      fun _ => keeps_pure _
    obtain ⟨rfl, hkept⟩ := Bool.and_eq_true_iff.mp hkept
    split
    · rename_i name hname
      refine under_setFieldType ht (hf c.key ?_ hexposed) _
      refine List.mem_append_left _ (List.mem_append_left _ (List.mem_map_of_mem ?_))
      exact List.mem_filter.mpr ⟨hc, Bool.and_eq_true_iff.mpr ⟨hkept, by rw [hname]; rfl⟩⟩
    · exact under_warn _
  have hvirtual : ∀ v ∈ m.virtuals, Keeps (Draft.Under base names fields x) (addVirtual b t p v) := by
    intro v hv
    refine keeps_synthesisLift_bind fun exposed hexposed => keeps_ite (fun hkept => ?_)
      fun _ => keeps_pure _
    obtain rfl : exposed = true := hkept
    refine under_lift_bind fun _ => under_setFieldType ht (hf v.key ?_ hexposed) _
    exact List.mem_append_left _ (List.mem_append_right _ (List.mem_map_of_mem hv))
  have hassociation : ∀ a ∈ m.associations, Keeps (Draft.Under base names fields x)
      (addAssociation b m t p a) := by
    intro a ha
    refine keeps_synthesisLift_bind fun exposed hexposed => keeps_ite (fun hkept => ?_)
      fun _ => keeps_pure _
    obtain rfl : exposed = true := hkept
    split
    · exact keeps_pure _
    · rename_i target htarget
      have hkey : fields t a.key := by
        refine hf a.key (List.mem_append_right _ (List.mem_map_of_mem ?_)) hexposed
        exact List.mem_filter.mpr ⟨ha, by rw [htarget]; rfl⟩
      exact keeps_ite (fun _ => (under_setFieldType ht hkey _).bind fun _ =>
        (under_updateField ht hkey _).bind fun _ => under_configure hkey _)
        fun _ => under_setFieldType ht hkey _
  have hrequests : Keeps (Draft.Under base names fields x) (associationRequests b m t p) :=
    keeps_filterMapM (fun a => under_lift_bind fun exposed =>
      keeps_ite (fun _ => keeps_pure _) fun _ => keeps_pure _) _
  exact (under_ensureType ht).bind fun _ => (keeps_forM fun c hc => hcolumn c hc).bind fun _ =>
    (keeps_forM fun v hv => hvirtual v hv).bind fun _ =>
      (keeps_forM fun a ha => hassociation a ha).bind fun _ => hrequests

theorem under_addMembers (ht : names t) (b : Declarations) (plugin : Plugin) (c : TypeDeclaration)
    (p : PolicyOption) (hf : ∀ f ∈ b.exposedOf plugin c p, fields t f) :
    Keeps (Draft.Under base names fields x) (addMembers b plugin t c p) := by
  unfold addMembers
  split
  · exact (under_addClass ht b _ p fun a ha => hf a.1 (List.mem_map_of_mem ha)).bind
      fun _ => keeps_pure _
  · refine under_addModel ht b _ _ p fun f hmem hexposed => hf f ?_
    exact List.mem_filter.mpr ⟨hmem, by rw [hexposed]⟩
  · exact keeps_throw _
  · exact keeps_throw _

theorem yields_addMembers (b : Declarations) (plugin : Plugin) (c : TypeDeclaration)
    (p : PolicyOption) :
    Yields (fun qs => ∀ q ∈ qs, q.type = t) (addMembers b plugin t c p) := by
  unfold addMembers
  split
  · exact (yields_true _).bind fun _ _ => yields_pure fun q hq => by cases hq
  · exact (yields_true _).bind fun _ _ => (yields_true _).bind fun _ _ =>
      (yields_true _).bind fun _ _ => (yields_true _).bind fun _ _ =>
        yields_associationRequests b _ p
  · exact yields_throw _
  · exact yields_throw _

theorem under_policyDirectives (p : PolicyOption) :
    Keeps (Draft.Under base names fields x) (policyDirectives p) := by
  unfold policyDirectives
  split
  · exact under_resolve _
  · exact keeps_pure _
  · exact keeps_throw _

theorem under_populate (ht : names t) (b : Declarations) (plugin : Plugin) (c : TypeDeclaration)
    (p : PolicyOption) (primary : Option String) (first : PolicyOption)
    (hf : ∀ f ∈ b.exposedOf plugin c p, fields t f) :
    Keeps (Draft.Under base names fields x) (populate b plugin t c p primary first) := by
  have hend : Keeps (Draft.Under base names fields x) (do
      change (·.ensureType t)
      let before ← policyDirectives first
      let own ← policyDirectives p
      directType t (before ++ own)) :=
    (under_ensureType ht).bind fun _ => (under_policyDirectives first).bind fun before =>
      (under_policyDirectives p).bind fun own => under_directType ht _
  have hstart : Keeps (Draft.Under base names fields x) (modify fun s => { s with
      extensions := s.extensions.setPolicy t p primary
      configs := s.configs.ensure t [] } : Synthesis PUnit) := fun d a d' hrun hd => by
    have hgoverned := under_setPolicy (t := t) p primary d ⟨⟩ _ rfl hd
    cases hrun
    exact under_ensureConfigs _ ⟨⟩ _ rfl hgoverned
  unfold populate
  refine hstart.bind fun _ => (under_addMembers ht b plugin c p hf).bind_of_yields
    (yields_addMembers b plugin c p) fun requests hrequests => ?_
  refine (keeps_forM fun q hq => under_request (by rw [hrequests q hq]; exact ht)).bind fun _ =>
    keeps_get_bind fun d hd => ?_
  have hconfigs : ∀ e ∈ (d.configs.get? t).getD [], fields t e.1 := by
    intro e he
    cases hget : d.configs.get? t with
    | none =>
      rw [hget] at he
      cases he
    | some fs =>
      rw [hget] at he
      exact hd.configs t fs hget e he
  refine (keeps_forM fun e he => under_describe ht (hconfigs e he) e.2).bind fun _ => ?_
  exact keeps_ite (fun _ => (under_request ht).bind fun _ => hend) fun _ => hend

theorem under_addPolicyTypes (c : TypeDeclaration) {p : PolicyOption}
    (hp : ∀ e ∈ p.brought, names e.1 ∧ ∀ f ∈ e.2.names, fields e.1 f) :
    Keeps (Draft.Under base names fields x) (addPolicyTypes c p) := by
  unfold addPolicyTypes
  split
  · exact keeps_forM fun e he => (under_declare (hp e he).1 (hp e he).2 _).bind
      fun _ => under_request (hp e he).1
  · exact keeps_pure _
  · exact keeps_throw _

/-! ### Everything that is declared -/

theorem under_expose (t key : String) (c : TypeDeclaration) (plugin : Plugin) :
    Keeps (Draft.Under base names fields x) (expose t key c plugin) :=
  under_modify (fun _ => rfl) (fun _ => rfl) (fun _ => rfl) fun _ => rfl

theorem under_addAllNames (b : Declarations) (plugin : Plugin) (named : String × TypeDeclaration)
    (hplugin : findPlugin named.2.model b.plugins = .ok (some plugin))
    (h : ∀ t ∈ b.namesOf named, names t)
    (hf : ∀ c ∈ b.contributionsOf named, ∀ f ∈ c.fields b, fields c.type f) :
    Keeps (Draft.Under base names fields x) (addAllNames b plugin named.1 named.2) := by
  have hown : ∀ t ∈ named.1 :: (Deed.ownPolicy b named.2).brought.map Prod.fst, names t :=
    fun t ht => h t (List.mem_append_left _ ht)
  have hother : ∀ a ∈ Deed.otherNames b named.2, ∀ t ∈ a.1 :: a.2.brought.map Prod.fst, names t :=
    fun a ha t ht => h t (List.mem_append_right _ (List.mem_flatMap.mpr ⟨a, ha, ht⟩))
  unfold Declarations.contributionsOf at hf
  rw [hplugin] at hf
  dsimp only at hf
  have hownFields : ∀ c ∈ Contribution.members plugin named.1 named.2 (Deed.ownPolicy b named.2)
      :: (Deed.ownPolicy b named.2).brought.map (fun e => Contribution.mapping e.1 e.2),
      ∀ f ∈ c.fields b, fields c.type f := fun c hc => hf c (List.mem_append_left _ hc)
  have hotherFields : ∀ a ∈ Deed.otherNames b named.2, ∀ c ∈ Contribution.members plugin a.1 named.2 a.2
      :: a.2.brought.map (fun e => Contribution.mapping e.1 e.2),
      ∀ f ∈ c.fields b, fields c.type f := fun a ha c hc =>
    hf c (List.mem_append_right _ (List.mem_flatMap.mpr ⟨a, ha, hc⟩))
  refine (under_expose _ _ _ _).bind fun _ => ?_
  refine (under_populate (hown _ List.mem_cons_self) b plugin named.2 _ none _
    (hownFields _ List.mem_cons_self)).bind fun _ => ?_
  refine (under_addPolicyTypes _ fun e he => ⟨hown _ (List.mem_cons_of_mem _
    (List.mem_map_of_mem he)), hownFields _ (List.mem_cons_of_mem _
      (List.mem_map_of_mem he))⟩).bind fun _ => ?_
  refine keeps_forM fun a ha => (under_expose _ _ _ _).bind fun _ => ?_
  refine (under_populate (hother a ha _ List.mem_cons_self) b plugin named.2 _ _ _
    (hotherFields a ha _ List.mem_cons_self)).bind fun _ => ?_
  exact under_addPolicyTypes _ fun e he => ⟨hother a ha _ (List.mem_cons_of_mem _
    (List.mem_map_of_mem he)), hotherFields a ha _ (List.mem_cons_of_mem _
      (List.mem_map_of_mem he))⟩

theorem under_addType (b : Declarations) (named : String × TypeDeclaration)
    (h : ∀ t ∈ b.namesOf named, names t)
    (hf : ∀ c ∈ b.contributionsOf named, ∀ f ∈ c.fields b, fields c.type f) :
    Keeps (Draft.Under base names fields x) (addType b named) := by
  have hname : names named.1 := h _ (List.mem_append_left _ List.mem_cons_self)
  refine keeps_synthesisLift_bind fun found hfound => ?_
  cases found with
  | some plugin => exact under_addAllNames b plugin named hfound h hf
  | none =>
    obtain ⟨name, c⟩ := named
    cases c with
    | plain id attributes p => exact under_warn _
    | mapped model => exact under_warn _
    | inline m =>
      have hm : ∀ f ∈ m.names, fields name f := hf (.mapping name m) (by
        unfold Declarations.contributionsOf
        rw [show findPlugin (TypeDeclaration.inline m).model b.plugins = .ok none from hfound]
        exact List.mem_singleton_self _)
      refine keeps_ite (fun _ => under_declare hname hm none) fun _ => ?_
      exact keeps_ite (fun _ => (under_declare hname hm none).bind fun _ => under_request hname)
        fun _ => under_warn _

/-- **The first pass writes no types but those that are declared, and no fields but those that
declarations contribute.** -/
theorem under_firstPass {b : Declarations} (h : ∀ t ∈ b.names x, names t)
    (hf : ∀ c ∈ b.contributions x, ∀ f ∈ c.fields b, fields c.type f) :
    Keeps (Draft.Under base names fields x) (firstPass b) := by
  have hscalars : Keeps (Draft.Under base names fields x) (addScalars b) := by
    refine keeps_forM fun t ht => keeps_ite (fun _ => under_setKind ?_ .scalar)
      fun _ => keeps_pure _
    exact h t (List.mem_append_left _ (List.mem_append_left _ ht))
  have htypes : Keeps (Draft.Under base names fields x) (b.types.forM (addType b)) := by
    refine keeps_forM fun named hnamed => under_addType b named (fun t ht => ?_) fun c hc => ?_
    · exact h t (List.mem_append_left _
        (List.mem_append_right _ (List.mem_flatMap.mpr ⟨named, hnamed, ht⟩)))
    · exact hf c (List.mem_append_left _ (List.mem_flatMap.mpr ⟨named, hnamed, hc⟩))
  refine hscalars.bind fun _ => htypes.bind fun _ => keeps_get_bind fun d hd => ?_
  rw [hd.extended]
  refine keeps_forM fun e he => under_declare (h e.1 ?_) (fun f hmem => ?_) none
  · exact List.mem_append_right _ (List.mem_map_of_mem he)
  · exact hf (.mapping e.1 (.fields e.2))
      (List.mem_append_right _ (List.mem_map.mpr ⟨e, he, rfl⟩)) f hmem

/-! ### Types that are there -/

/-- What writes under names removes no types. -/
theorem keeps_has {m : Synthesis α} (h : ∀ x, Keeps (Draft.Under (· = t) (fun _ => True)
    (fun _ _ => True) x) m) : Keeps (fun d => Table.has d.registry t = true) m := by
  intro d a d' hrun hd
  refine (h d.extensions.fields d a d' hrun ⟨?_, ?_, ?_, ?_, ?_, rfl⟩).there t rfl
  · rintro _ rfl
    exact hd
  all_goals intros; trivial

/-- A model that is described has its type. -/
theorem has_populate (b : Declarations) (plugin : Plugin) (t : String) (c : TypeDeclaration)
    (p : PolicyOption) (primary : Option String) (first : PolicyOption) :
    EndsWith (fun d => Table.has d.registry t = true)
      (populate b plugin t c p primary first) := by
  have hensure : EndsWith (fun d : Draft => Table.has d.registry t = true)
      (change (·.ensureType t)) := by
    intro d a d' hrun
    cases hrun
    change Table.has (Table.ensure d.registry t {}) t = true
    rw [Table.has_eq_isSome, Table.get?_ensure]
    simp
  have hend : EndsWith (fun d : Draft => Table.has d.registry t = true) (do
      change (·.ensureType t)
      let before ← policyDirectives first
      let own ← policyDirectives p
      directType t (before ++ own)) :=
    hensure.bind fun _ => keeps_has fun x => (under_policyDirectives first).bind fun before =>
      (under_policyDirectives p).bind fun own => under_directType trivial _
  refine endsWith_bind fun _ => endsWith_bind fun requests => endsWith_bind fun _ =>
    endsWith_bind fun d => endsWith_bind fun _ => ?_
  split
  · exact endsWith_bind fun _ => hend
  · exact hend

theorem has_addType {b : Declarations} {plugin : Plugin} {named : String × TypeDeclaration}
    {c : TypeDeclaration} {p : PolicyOption}
    (h : Contribution.members plugin t c p ∈ b.contributionsOf named) :
    EndsWith (fun d => Table.has d.registry t = true) (addType b named) := by
  have hbrought : ∀ p' : PolicyOption, Contribution.members plugin t c p ∉
      p'.brought.map fun e => Contribution.mapping e.1 e.2 := by
    intro p' hmem
    obtain ⟨e, -, he⟩ := List.mem_map.mp hmem
    cases he
  have hpolicyTypes : ∀ p, Keeps (fun d => Table.has d.registry t = true)
      (addPolicyTypes named.2 p) := fun p =>
    keeps_has fun x => under_addPolicyTypes _ fun _ _ => ⟨trivial, fun _ _ => trivial⟩
  have hkeeps : ∀ plugin key policy primary first, Keeps (fun d => Table.has d.registry t = true)
      (populate b plugin key named.2 policy primary first) :=
    fun plugin key policy primary first => keeps_has fun x =>
      under_populate trivial b plugin named.2 policy primary first fun _ _ => trivial
  have hexpose : ∀ key plugin, Keeps (fun d => Table.has d.registry t = true)
      (expose key named.1 named.2 plugin) := fun key plugin => keeps_has fun x =>
    under_expose _ _ _ _
  refine endsWith_lift_bind fun found hfound => ?_
  unfold Declarations.contributionsOf at h
  rw [hfound] at h
  cases found with
  | none =>
    dsimp only at h
    split at h
    · cases List.mem_singleton.mp h
    · cases h
  | some served =>
    simp only [List.cons_append, List.mem_cons, List.mem_append, List.mem_flatMap] at h
    refine endsWith_bind fun _ => ?_
    rcases h with h | h | ⟨a, ha, h | h⟩
    · cases h
      refine (has_populate b plugin named.1 named.2 _ none _).bind fun _ =>
        (hpolicyTypes _).bind fun _ => keeps_forM fun a _ => (hexpose _ _).bind fun _ =>
          (hkeeps _ _ _ _ _).bind fun _ => hpolicyTypes _
    · exact absurd h (hbrought _)
    · cases h
      refine endsWith_bind fun _ => endsWith_bind fun _ => endsWith_forM ha ?_ fun a _ => ?_
      · exact endsWith_bind fun _ => (has_populate b plugin a.1 named.2 a.2 _ _).bind fun _ =>
          hpolicyTypes _
      · exact (hexpose _ _).bind fun _ => (hkeeps _ _ _ _ _).bind fun _ => hpolicyTypes _
    · exact absurd h (hbrought _)

/-- **After the first pass the type of every model is there, under each of its names.** -/
theorem has_firstPass {b : Declarations} {plugin : Plugin} {c : TypeDeclaration} {p : PolicyOption}
    (h : Contribution.members plugin t c p ∈ b.contributions x) :
    EndsWith (fun d => Table.has d.registry t = true) (firstPass b) := by
  rcases List.mem_append.mp h with h | h
  · obtain ⟨named, hnamed, h⟩ := List.mem_flatMap.mp h
    refine endsWith_bind fun _ => (endsWith_forM hnamed (has_addType h) fun y _ => ?_).bind
      fun _ => ?_
    · exact keeps_has fun x => under_addType b y (fun _ _ => trivial) fun _ _ _ _ => trivial
    · exact keeps_has fun x => keeps_get_bind fun d _ => keeps_forM fun e _ =>
        under_declare trivial (fun _ _ => trivial) none
  · obtain ⟨e, -, he⟩ := List.mem_map.mp h
    cases he

end Synthesis
end SchemaForge
