import SchemaForge.Proofs.Synthesis.Given
import SchemaForge.Proofs.Synthesis.Lockstep

/-!
# Where lines, arguments and requests come from

Every signature that the first pass writes is given by a deed of something that is contributed,
and so is every argument, unless it is one of those that the store takes. Arguments of the store
stand only on fields whose filters are asked for: in the requests that are left, or in those that
a step is still to leave. **`sourced_firstPass`** says so of the whole pass.
-/
namespace SchemaForge

variable {b : Declarations} {x : Table (List (String × FieldEntry))}
  {asked asked' : String × String → Prop} {pending pending' : List (String × String)}
  {t f argument signature : String} {line : FieldLine}

namespace Synthesis

open Run

variable {α : Type}

/-! ### Steps -/

/-- A change of the registry whose lines are old ones, or come from what is contributed. -/
theorem sourced_change {u : Registry → Registry}
    (h : ∀ (asked : String × String → Prop) r, (∀ a ∈ pending, asked a) →
      (∀ t, ∀ l ∈ (r.entry t).lines, l.2.Sourced b x asked t l.1) →
      ∀ t, ∀ l ∈ ((u r).entry t).lines, l.2.Sourced b x asked t l.1) :
    Keeps (Draft.Sourced b x pending) (change u) :=
  keeps_modify fun d hd => { hd with
    lines := h _ d.registry (fun _ ha => List.mem_append_right _ ha) hd.lines }

/-- A change of a line that keeps that it comes from what is contributed. -/
theorem sourced_updateField {u : FieldLine → FieldLine}
    (hu : ∀ (asked : String × String → Prop) line, (∀ a ∈ pending, asked a) →
      line.Sourced b x asked t f → (u line).Sourced b x asked t f) :
    Keeps (Draft.Sourced b x pending) (change (·.updateField t f u)) := by
  refine sourced_change fun asked r hasked hr o l hl => ?_
  rw [Registry.updateField, Registry.entry_updateType] at hl
  split at hl
  · rename_i ho
    subst ho
    rcases Registry.mem_update hl with hl | ⟨line, hline, rfl⟩
    · exact hr o l hl
    · rcases hline with hline | rfl
      · exact hu asked line hasked (hr o _ hline)
      · exact hu asked {} hasked .empty
  · exact hr o l hl

/-- A change of a type that leaves its lines. -/
theorem sourced_updateType {u : TypeEntry → TypeEntry} (hu : ∀ e, (u e).lines = e.lines) :
    Keeps (Draft.Sourced b x pending) (change (·.updateType t u)) := by
  refine sourced_change fun asked r _ hr o l hl => ?_
  rw [Registry.entry_updateType] at hl
  split at hl
  · rename_i ho
    rw [hu] at hl
    exact ho ▸ hr t l hl
  · exact hr o l hl

theorem sourced_setKind (kind : Language.TypeKind) :
    Keeps (Draft.Sourced b x pending) (change (·.setKind t kind)) :=
  sourced_updateType (u := fun e => { e with kind }) fun _ => rfl

theorem sourced_ensureType : Keeps (Draft.Sourced b x pending) (change (·.ensureType t)) := by
  refine sourced_change fun asked r _ hr o l hl => hr o l ?_
  rwa [Registry.entry_ensureType] at hl

theorem sourced_ensureField : Keeps (Draft.Sourced b x pending) (change (·.ensureField t f)) :=
  sourced_updateField (u := id) fun _ _ _ h => h

theorem sourced_setFieldType (hgiven : (t, f, signature) ∈ b.given x) :
    Keeps (Draft.Sourced b x pending) (change (·.setFieldType t f signature)) :=
  sourced_updateField (u := fun line => { line with type := signature })
    fun _ _ _ h => h.setType hgiven

theorem sourced_put {lines : Table FieldLine}
    (h : ∀ l ∈ lines, (t, l.1, l.2.type) ∈ b.given x ∧ l.2.arguments = []) :
    Keeps (Draft.Sourced b x pending) (change fun r => Table.put r t { lines }) := by
  refine sourced_change fun asked r _ hr o l hl => ?_
  rw [Registry.entry_put] at hl
  split at hl
  · rename_i ho
    obtain ⟨hgiven, harguments⟩ := h l hl
    refine ⟨.inr (ho ▸ hgiven), fun a ha => ?_⟩
    rw [harguments] at ha
    cases ha
  · exact hr o l hl

/-- What leaves the registry, the configurations, the requests and the extended fields. -/
theorem sourced_of_same {m : Synthesis α}
    (h : ∀ d a d', m d = (.ok a, d') → d'.registry = d.registry ∧ d'.configs = d.configs
      ∧ d'.requests = d.requests ∧ d'.extensions.fields = d.extensions.fields) :
    Keeps (Draft.Sourced b x pending) m := by
  intro d a d' hrun hd
  obtain ⟨hregistry, hconfigs, hrequests, hextended⟩ := h d a d' hrun
  refine ⟨?_, ?_, ?_, hextended.trans hd.extended⟩
  · rw [hregistry, hrequests]
    exact hd.lines
  · rw [hconfigs]
    exact hd.configs
  · rw [hrequests]
    exact hd.requests

theorem sourced_modify {u : Draft → Draft}
    (h : ∀ d, (u d).registry = d.registry ∧ (u d).configs = d.configs
      ∧ (u d).requests = d.requests ∧ (u d).extensions.fields = d.extensions.fields) :
    Keeps (Draft.Sourced b x pending) (modify u : Synthesis PUnit) :=
  sourced_of_same fun d _ _ hrun => by
    cases hrun
    exact h d

theorem sourced_setPolicy (p : PolicyOption) (primary : Option String) :
    Keeps (Draft.Sourced b x pending)
      (modify fun d =>
        { d with extensions := d.extensions.setPolicy t p primary } : Synthesis PUnit) :=
  sourced_modify fun _ => ⟨rfl, rfl, rfl, Extensions.fields_setPolicy ..⟩

theorem sourced_resolve (o : DirectiveOption) :
    Keeps (Draft.Sourced b x pending) (resolve o) :=
  sourced_of_same fun d a d' hrun => by
    obtain ⟨s, -, rfl⟩ := resolve_eq_ok hrun
    exact ⟨rfl, rfl, rfl, rfl⟩

theorem sourced_record (c : Directive) : Keeps (Draft.Sourced b x pending) (record c) :=
  sourced_of_same fun d a d' hrun => by
    obtain rfl : d' = { d with directives := (d.directives.register ⟨c.name, c.arguments⟩).2 } :=
      (congrArg Prod.snd hrun).symm
    exact ⟨rfl, rfl, rfl, rfl⟩

theorem sourced_warn (text : String) : Keeps (Draft.Sourced b x pending) (warn text) :=
  sourced_modify fun _ => ⟨rfl, rfl, rfl, rfl⟩

theorem sourced_expose (t key : String) (c : TypeDeclaration) (plugin : Plugin) :
    Keeps (Draft.Sourced b x pending) (expose t key c plugin) :=
  sourced_modify fun _ => ⟨rfl, rfl, rfl, rfl⟩

theorem sourced_configure {c : FieldConfig} (hc : b.Configures x t f c) :
    Keeps (Draft.Sourced b x pending) (configure t f c) :=
  keeps_modify fun _ hd => { hd with configs := Table.forall_update_put hd.configs hc }

theorem sourced_ensureConfigs : Keeps (Draft.Sourced b x pending)
    (modify fun d => { d with configs := d.configs.ensure t [] } : Synthesis PUnit) :=
  keeps_modify fun _ hd =>
    { hd with configs := Table.forall_ensure hd.configs fun _ he => (by cases he) }

/-- A request that is left is no longer to be left. -/
theorem sourced_request {q : FilterRequest} (hq : q.Sourced b x) {d d' : Draft} {u : PUnit}
    (hd : d.Sourced b x (q.fetched ++ pending)) (hrun : request q d = (.ok u, d')) :
    d'.Sourced b x pending := by
  cases hrun
  refine ⟨fun o l hl => ?_, hd.configs, fun p hp => ?_, hd.extended⟩
  · refine (hd.lines o l hl).mono fun a ha => ?_
    simpa only [List.flatMap_append, List.flatMap_cons, List.flatMap_nil, List.append_nil,
      List.append_assoc] using ha
  · rcases List.mem_append.mp hp with hp | hp
    · exact hd.requests p hp
    · rw [List.mem_singleton.mp hp]
      exact hq

/-- Requests that are left are no longer to be left. -/
theorem sourced_requests {qs : List FilterRequest} (hqs : ∀ q ∈ qs, q.Sourced b x) {d d' : Draft}
    {u : PUnit} (hd : d.Sourced b x (qs.flatMap FilterRequest.fetched ++ pending))
    (hrun : qs.forM request d = (.ok u, d')) : d'.Sourced b x pending := by
  induction qs generalizing d with
  | nil =>
    cases hrun
    exact hd
  | cons q qs ih =>
    obtain ⟨_, d1, hrequest, hrest⟩ := Run.bind_eq_ok.mp hrun
    rw [List.flatMap_cons, List.append_assoc] at hd
    exact ih (fun p hp => hqs p (List.mem_cons_of_mem q hp))
      (sourced_request (hqs q List.mem_cons_self) hd hrequest) hrest

/-- A step may count on a request that is left right after it. -/
theorem sourced_then_request {m : Synthesis PUnit} {q : FilterRequest} (hq : q.Sourced b x)
    (hm : Keeps (Draft.Sourced b x (q.fetched ++ pending)) m) :
    Keeps (Draft.Sourced b x pending) (m >>= fun _ => request q) := by
  intro d u d2 hrun hd
  obtain ⟨_, d1, hstep, hrequest⟩ := Run.bind_eq_ok.mp hrun
  have hstart : d.Sourced b x (q.fetched ++ pending) :=
    hd.mono fun a ha => List.mem_append_right _ (List.mem_append_right _ ha)
  exact sourced_request hq (hm d _ d1 hstep hstart) hrequest

theorem sourced_directType (ds : List Directive) :
    Keeps (Draft.Sourced b x pending) (directType t ds) :=
  keeps_forM fun c _ => (sourced_record c).bind fun _ => sourced_updateType fun _ => rfl

/-! ### Declared fields -/

/-- The arguments that a configuration declares, or those of the store where filters are asked
for. -/
theorem sourced_addInputs {c : FieldConfig} (hc : b.Configures x t f c)
    (hasked : c.hasFetchArguments = true → (t, f) ∈ pending) :
    Keeps (Draft.Sourced b x pending) (addInputs t f c) := by
  unfold addInputs
  refine keeps_ite (fun hfetch => keeps_get_bind fun d hd => ?_) fun hfetch => ?_
  · dsimp only
    refine keeps_ite (fun _ => keeps_throw_bind _ _) fun htype =>
      keeps_synthesisLift_bind fun isList hlist => sourced_updateField fun asked line hpending h => ?_
    have hgiven : (t, f, ((d.registry.line? t f).getD {}).type) ∈ b.given x := by
      cases hline : d.registry.line? t f with
      | none => simp [hline] at htype
      | some known =>
        obtain ⟨e, he, hget⟩ := Option.bind_eq_some_iff.mp hline
        have hmem : (f, known) ∈ (d.registry.entry t).lines := by
          rw [Registry.entry, he]
          exact Table.mem_of_get? hget
        exact (hd.lines t _ hmem).type.resolve_left (by simpa [hline] using htype)
    exact h.addFetchArguments hgiven hlist (hpending _ (hasked hfetch))
  · split
    · rename_i fs harguments
      refine keeps_forM fun a ha => ?_
      obtain ⟨name, s⟩ := a
      cases s with
      | text s =>
        refine sourced_updateField (u := (·.addArgument name s)) fun asked line _ h =>
          h.addArgument (.stated (hc.inputs (name, FieldLine.withPageDefault name s) ?_))
        rw [FieldConfig.inputs, if_neg hfetch, harguments]
        exact List.mem_filterMap.mpr ⟨_, ha, rfl⟩
      | _ => exact keeps_pure _
    · exact keeps_pure _

theorem sourced_describe {c : FieldConfig} (hc : b.Configures x t f c)
    (hasked : c.hasFetchArguments = true → (t, f) ∈ pending) :
    Keeps (Draft.Sourced b x pending) (describe t f c) := by
  have huses : ∀ (d : Directive) (u : PUnit), Keeps (Draft.Sourced b x pending) (do
      let use ← record d
      change (·.addFieldDirective t f use)
      pure (ForInStep.yield u)) := fun d u =>
    (sourced_record d).bind fun use => (sourced_updateField (u := (·.addDirective use))
      fun _ _ _ h => ⟨h.type, h.arguments⟩).bind fun _ => keeps_pure _
  refine sourced_ensureField.bind fun _ => (sourced_addInputs hc hasked).bind fun _ => ?_
  exact (sourced_resolve c.directives).bind fun ds => (keeps_forIn (fun d _ => huses d) _).bind
    fun _ => keeps_pure _

/-- Merged configurations are stated like those that are merged. -/
theorem yields_merged {known : Option FieldConfig} (hknown : ∀ old ∈ known, b.Configures x t f old)
    (owner : Option ModelRef) {c : FieldConfig} (hc : b.Configures x t f c) :
    Yields (b.Configures x t f) (merged known owner c) := by
  unfold merged
  split
  · exact yields_pure (hc.congr rfl rfl rfl)
  · split
    · exact yields_pure hc
    · rename_i old
      split
      · exact (yields_true _).bind fun _ _ => (yields_true _).bind fun _ _ =>
          yields_pure ((hknown old rfl).congr rfl rfl rfl)
      · exact yields_pure hc

theorem sourced_noteConfig (owner : Option ModelRef) {c : FieldConfig}
    (hc : b.Configures x t f c) :
    Keeps (Draft.Sourced b x pending) (noteConfig t f owner c) := by
  have hmerged : ∀ known, Keeps (Draft.Sourced b x pending) (merged known owner c) := by
    intro known
    unfold merged
    refine keeps_ite (fun _ => keeps_pure _) fun _ => ?_
    split
    · exact keeps_pure _
    · exact keeps_ite (fun _ => (sourced_resolve _).bind fun _ => (sourced_resolve _).bind
        fun _ => keeps_pure _) fun _ => keeps_pure _
  unfold noteConfig
  refine keeps_ite (fun _ => keeps_get_bind fun d hd => ?_) fun _ => keeps_pure _
  refine (hmerged _).bind_of_yields (yields_merged (fun old hold => ?_) owner hc)
    fun _ h => sourced_configure h
  obtain ⟨fs, hfs, hget⟩ := Option.bind_eq_some_iff.mp hold
  exact hd.configs t fs hfs _ (Table.mem_of_get? hget)

theorem sourced_declareField (owner : Option ModelRef) {e : FieldDeclaration}
    (he : ∀ c, e.normalize = .ok c → b.Configures x t f c
      ∧ (c.hasFetchArguments = true → (t, f) ∈ pending)) :
    Keeps (Draft.Sourced b x pending) (declareField t owner f e) := by
  unfold declareField
  refine keeps_get_bind fun d _ => keeps_ite (fun _ => sourced_ensureField) fun _ => ?_
  refine keeps_synthesisLift_bind fun c hc => sourced_ensureField.bind fun _ => ?_
  obtain ⟨hconfigures, hasked⟩ := he c hc
  have hrest : Keeps (Draft.Sourced b x pending) (do
      describe t f c; noteConfig t f owner c) :=
    (sourced_describe hconfigures hasked).bind fun _ => sourced_noteConfig owner hconfigures
  exact keeps_ite (fun htype => (sourced_setFieldType
    (List.mem_append_right _ (hconfigures.signature htype))).bind fun _ => hrest) fun _ => hrest

theorem sourced_declarePolicy (p : Policy) :
    Keeps (Draft.Sourced b x pending) (declarePolicy t p) := by
  have hgoverns : Keeps (Draft.Sourced b x pending) (governs t p) :=
    (sourced_setPolicy _ _).bind fun _ => (sourced_resolve _).bind fun ds => sourced_directType ds
  have hkind : Keeps (Draft.Sourced b x pending) (stateKind t p.kind.plain) := by
    intro d a d' hrun
    rw [stateKind_apply] at hrun
    cases hword : Language.Parser.kindOf? p.kind.plain with
    | none =>
      rw [hword] at hrun
      cases hrun
    | some kind =>
      rw [hword] at hrun
      exact sourced_setKind kind d a d' hrun
  rw [declarePolicy_eq]
  exact keeps_ite (fun _ => hkind.bind fun _ => hgoverns) fun _ => hgoverns

/-- The fields of a mapping that is contributed are configured as it states. -/
theorem configures_of_mapping {entries : List (String × FieldEntry)}
    (h : .mapping t (.fields entries) ∈ b.contributions x) {e : String × FieldDeclaration}
    (he : e ∈ fieldEntries entries) {c : FieldConfig} (hc : e.2.normalize = .ok c) :
    b.Configures x t e.1 c := by
  have hdeed : Deed.declared t e.1 none c ∈ Deed.ofMap t (.fields entries) none := by
    have hwords : TypeDeclaration.words? (.fields entries) = none := rfl
    unfold Deed.ofMap
    rw [hwords]
    refine List.mem_append_right _ (List.mem_flatMap.mpr ⟨e, he, ?_⟩)
    rw [Deed.ofField, hc]
    exact List.mem_singleton_self _
  exact Declarations.configures_of_declared h hdeed

/-- A request for the fields of a mapping that is contributed. -/
theorem sourced_declaredRequest {m : FieldMap} (h : .mapping t m ∈ b.contributions x) :
    (FilterRequest.declared t m).Sourced b x := by
  cases m with
  | value v => trivial
  | fields entries => exact fun e he c hc => configures_of_mapping h he hc

/-- Declaring a mapping, where filters are asked for its fields. -/
theorem sourced_declare {m : FieldMap} (h : .mapping t m ∈ b.contributions x)
    (owner : Option ModelRef) (hasked : (FilterRequest.declared t m).fetched ⊆ pending) :
    Keeps (Draft.Sourced b x pending) (declare t m owner) := by
  refine sourced_ensureType.bind fun _ => ?_
  split
  · exact (sourced_setKind .enum).bind fun _ => keeps_forM fun w _ => sourced_ensureField
  · exact keeps_throw _
  · rename_i entries _
    have hfield : ∀ e ∈ fieldEntries entries, Keeps (Draft.Sourced b x pending)
        (declareField t owner e.1 e.2) := fun e he => sourced_declareField owner fun c hc => by
      refine ⟨configures_of_mapping h he hc, fun hfetch => hasked ?_⟩
      refine List.mem_filterMap.mpr ⟨e, he, ?_⟩
      rw [hc]
      exact if_pos hfetch
    cases (policyIn? entries).bind PolicyOption.policy? with
    | none => exact keeps_forM fun e he => hfield e he
    | some p => exact (sourced_declarePolicy p).bind fun _ => keeps_forM fun e he => hfield e he

/-! ### Models -/

/-- An attribute of a class brings the line that its signature says. -/
theorem yields_attributeLine (p : PolicyOption) (signatures : Table String)
    (named : String × FieldDeclaration) :
    Yields (· = Registry.plainLines (classSignatures p [named] signatures))
      (addAttribute t p (Registry.plainLines signatures) named) := by
  obtain ⟨field, e⟩ := named
  have hskip : fieldOfAttribute? p (field, e) = none →
      Yields (· = Registry.plainLines (classSignatures p [(field, e)] signatures))
        (pure (Registry.plainLines signatures) : Synthesis (Table FieldLine)) := by
    intro hn
    refine yields_pure ?_
    rw [classSignatures, List.filterMap_cons, hn]
    rfl
  unfold addAttribute
  dsimp only
  cases hc : attributeConfig? e with
  | none => exact hskip (by simp only [fieldOfAttribute?, hc])
  | some stated =>
    obtain ⟨c, active⟩ := stated
    dsimp only
    split
    · rename_i hpublic
      exact hskip (by simp only [fieldOfAttribute?, hc, hpublic, if_true])
    · rename_i hpublic
      refine yields_synthesisLift_bind fun exposed hexposed => ?_
      cases exposed with
      | false => exact hskip (by simp [fieldOfAttribute?, hc, hpublic, hexposed])
      | true =>
        rw [if_neg (by simp)]
        split
        · rename_i htype
          exact hskip (by simp_all [fieldOfAttribute?])
        · rename_i htype
          have hline : Table.put (Registry.plainLines signatures) field { type := c.signature }
              = Registry.plainLines (classSignatures p [(field, e)] signatures) := by
            rw [classSignatures, List.filterMap_cons,
              fieldOfAttribute?_of_exposed hc hpublic hexposed (by simpa using htype),
              Registry.plainLines_put]
            rfl
          split
          · exact (yields_true _).bind fun _ _ => yields_pure hline
          · exact yields_pure hline

/-- The attributes of a class bring the lines that their signatures say. -/
theorem yields_classLines (p : PolicyOption) (attributes : List (String × FieldDeclaration))
    (signatures : Table String) :
    Yields (· = Registry.plainLines (classSignatures p attributes signatures))
      (attributes.foldlM (addAttribute t p) (Registry.plainLines signatures)) := by
  induction attributes generalizing signatures with
  | nil => exact yields_pure rfl
  | cons named attributes ih =>
    rw [List.foldlM_cons]
    refine (yields_attributeLine p signatures named).bind fun lines hlines => ?_
    have hsplit : classSignatures p (named :: attributes) signatures
        = classSignatures p attributes (classSignatures p [named] signatures) := by
      unfold classSignatures
      rw [← List.foldl_append, ← List.filterMap_append, List.singleton_append]
    rw [hlines, hsplit]
    exact ih _

theorem sourced_addClass {c : TypeDeclaration} {p : PolicyOption} {plugin : Plugin}
    (h : .members plugin t c p ∈ b.contributions x) (hclass : plugin = .classes) :
    Keeps (Draft.Sourced b x pending) (addClass b t c p) := by
  subst hclass
  refine (keeps_foldlM (fun lines a ha => ?_) _).bind_of_yields
    (yields_classLines p (attributesOf b c) []) fun lines hlines => ?_
  · obtain ⟨f, e⟩ := a
    unfold addAttribute
    dsimp only
    split
    · exact keeps_pure _
    · rename_i config active hc
      refine keeps_ite (fun _ => keeps_pure _) fun hpublic =>
        keeps_synthesisLift_bind fun exposed hexposed => ?_
      cases exposed with
      | false => exact keeps_pure _
      | true =>
        rw [if_neg (by simp)]
        refine keeps_ite (fun _ => keeps_pure _) fun htype => keeps_ite (fun hactive => ?_)
          fun _ => keeps_pure _
        have hfield := fieldOfAttribute?_of_exposed hc hpublic hexposed (by simpa using htype)
        obtain rfl : active = true := hactive
        refine (sourced_configure (Declarations.configures_of_configured h ?_)).bind
          fun _ => keeps_pure _
        refine List.mem_append_left _ (List.mem_flatMap.mpr ⟨_, ha, ?_⟩)
        rw [Deed.ofAttribute, hfield]
        exact List.mem_singleton_self _
  · subst hlines
    refine sourced_put fun l hl => ?_
    obtain ⟨e, he, rfl⟩ := List.mem_map.mp hl
    refine ⟨List.mem_append_right _ (Declarations.mem_stated h (d := .replaced t _)
      (List.mem_append_right _ (List.mem_singleton_self _)) (List.mem_map.mpr ⟨e, he, rfl⟩)), rfl⟩

/-- The filters that the associations of a model need. -/
def neededBy (b : Declarations) (t : String) (m : Model) (p : PolicyOption) : List FilterRequest :=
  m.associations.filterMap fun a =>
    if (p.exposes a.key matches .ok true) && b.models.isMany m a then
      (b.typeOf? a.target).map (.association t a.key)
    else none

theorem associationRequests_eq_ok {m : Model} {p : PolicyOption} {d d' : Draft}
    {qs : List FilterRequest} (h : associationRequests b m t p d = (.ok qs, d')) :
    qs = neededBy b t m p ∧ d' = d := by
  refine filterMapM_eq_ok (fun a d y d' h => ?_) h
  obtain ⟨exposed, d1, hexposed, hrest⟩ := Run.bind_eq_ok.mp h
  obtain ⟨hpolicy, rfl⟩ := lift_eq_ok hexposed
  rw [hpolicy]
  cases exposed with
  | false =>
    cases hrest
    exact ⟨rfl, rfl⟩
  | true =>
    dsimp only [Bool.true_and] at hrest ⊢
    split at hrest
    · rename_i hmany
      rw [if_pos hmany]
      cases hrest
      exact ⟨rfl, rfl⟩
    · rename_i hmany
      rw [if_neg hmany]
      cases hrest
      exact ⟨rfl, rfl⟩

/-- The filters that a model needs as a plugin describes it. -/
def neededByMembers (b : Declarations) (plugin : Plugin) (t : String) (c : TypeDeclaration)
    (p : PolicyOption) : List FilterRequest :=
  match plugin, c with
  | .store .., .mapped name => neededBy b t ((b.models.get? name).getD default) p
  | _, _ => []

/-! ### Members of a mapped model -/

section models

variable {own : Table String} {key : Option String} {name : String} {p : PolicyOption}

/-- Describing a column. -/
theorem sourced_addColumn (h : .members (.store own key) t (.mapped name) p ∈ b.contributions x)
    {c : Column} (hc : c ∈ ((b.models.get? name).getD default).columns) :
    Keeps (Draft.Sourced b x pending) (addColumn b (columnTable b own) t p c) := by
  refine keeps_synthesisLift_bind fun exposed hexposed => keeps_ite (fun hkept => ?_)
    fun _ => keeps_pure _
  obtain ⟨rfl, hkept⟩ := Bool.and_eq_true_iff.mp hkept
  split
  · rename_i type htype
    refine sourced_setFieldType (Declarations.mem_given_of_written h
      (d := .typed t c.key _) ?_ (List.mem_singleton_self _))
    refine List.mem_append_left _ (List.mem_append_left _ (List.mem_flatMap.mpr ⟨c, hc, ?_⟩))
    rw [Deed.ofColumn, hexposed, hkept, htype]
    exact List.mem_singleton_self _
  · exact sourced_warn _

/-- Describing a virtual member. -/
theorem sourced_addVirtual (h : .members (.store own key) t (.mapped name) p ∈ b.contributions x)
    {v : Virtual} (hv : v ∈ ((b.models.get? name).getD default).virtuals) :
    Keeps (Draft.Sourced b x pending) (addVirtual b t p v) := by
  refine keeps_synthesisLift_bind fun exposed hexposed => keeps_ite (fun hkept => ?_)
    fun _ => keeps_pure _
  obtain rfl : exposed = true := hkept
  refine keeps_synthesisLift_bind fun s hs => sourced_setFieldType
    (Declarations.mem_given_of_written h (d := .typed t v.key s) ?_ (List.mem_singleton_self _))
  refine List.mem_append_left _ (List.mem_append_right _ (List.mem_flatMap.mpr ⟨v, hv, ?_⟩))
  rw [Deed.ofVirtual, hexposed, hs]
  exact List.mem_singleton_self _

-- A type stands for a list of its values where the signature of an association says so.
variable (hlists : ∀ model target, b.typeOf? model = some target →
  Signature.isList ("[" ++ target ++ "!]") = .ok true)
include hlists

/-- Describing an association, for which filters are asked if it leads to many. -/
theorem sourced_addAssociation
    (h : .members (.store own key) t (.mapped name) p ∈ b.contributions x)
    (hasked : (neededBy b t ((b.models.get? name).getD default) p).flatMap FilterRequest.fetched
      ⊆ pending) {a : Association} (ha : a ∈ ((b.models.get? name).getD default).associations) :
    Keeps (Draft.Sourced b x pending)
      (addAssociation b ((b.models.get? name).getD default) t p a) := by
  refine keeps_synthesisLift_bind fun exposed hexposed => keeps_ite (fun hkept => ?_)
    fun _ => keeps_pure _
  obtain rfl : exposed = true := hkept
  split
  · exact keeps_pure _
  rename_i target htarget
  have hdeeds : ∀ d ∈ Deed.ofAssociation b ((b.models.get? name).getD default) t p a,
      d ∈ (Contribution.members (.store own key) t (.mapped name) p).deeds b := fun d hd =>
    List.mem_append_right _ (List.mem_flatMap.mpr ⟨a, ha, hd⟩)
  rw [Deed.ofAssociation, hexposed, htarget, if_pos rfl] at hdeeds
  dsimp only at hdeeds
  refine keeps_ite (fun hmany => ?_) fun hsingle => ?_
  · rw [if_pos hmany] at hdeeds
    have hgiven : (t, a.key, "[" ++ target ++ "!]") ∈ b.given x :=
      Declarations.mem_given_of_written h (hdeeds _ List.mem_cons_self) (List.mem_singleton_self _)
    have hpending : (t, a.key) ∈ pending := by
      refine hasked (List.mem_flatMap.mpr ⟨.association t a.key target, ?_,
        List.mem_singleton_self _⟩)
      refine List.mem_filterMap.mpr ⟨a, ha, ?_⟩
      rw [hexposed, hmany, htarget]
      rfl
    refine (sourced_setFieldType hgiven).bind fun _ => ?_
    refine (sourced_updateField fun asked line hp hline => hline.addFetchArguments hgiven
      (hlists _ _ htarget) (hp _ hpending)).bind fun _ => ?_
    exact sourced_configure (Declarations.configures_of_configured h
      (hdeeds _ (List.mem_cons_of_mem _ (List.mem_singleton_self _))))
  · rw [if_neg hsingle] at hdeeds
    exact sourced_setFieldType (Declarations.mem_given_of_written h
      (hdeeds _ (List.mem_singleton_self _)) (List.mem_singleton_self _))

/-- Describing a mapped model, where filters are asked for its associations. -/
theorem sourced_addModel {m : Model} (hm : (b.models.get? name).getD default = m)
    (h : .members (.store own key) t (.mapped name) p ∈ b.contributions x)
    (hasked : (neededBy b t m p).flatMap FilterRequest.fetched ⊆ pending) :
    Keeps (Draft.Sourced b x pending) (addModel b own t m p) := by
  subst hm
  have hrequests : Keeps (Draft.Sourced b x pending)
      (associationRequests b ((b.models.get? name).getD default) t p) := fun d qs d' hrun hd => by
    obtain ⟨-, rfl⟩ := associationRequests_eq_ok hrun
    exact hd
  exact sourced_ensureType.bind fun _ => (keeps_forM fun _ => sourced_addColumn h).bind fun _ =>
    (keeps_forM fun _ => sourced_addVirtual h).bind fun _ =>
      (keeps_forM fun _ => sourced_addAssociation hlists h hasked).bind fun _ => hrequests

theorem sourced_addMembers {plugin : Plugin} {c : TypeDeclaration} {p : PolicyOption}
    (h : .members plugin t c p ∈ b.contributions x)
    (hasked : (neededByMembers b plugin t c p).flatMap FilterRequest.fetched ⊆ pending) :
    Keeps (Draft.Sourced b x pending) (addMembers b plugin t c p) := by
  unfold addMembers
  split
  · exact (sourced_addClass h rfl).bind fun _ => keeps_pure _
  · exact sourced_addModel hlists rfl h hasked
  · exact keeps_throw _
  · exact keeps_throw _

omit hlists in
theorem yields_neededByMembers (plugin : Plugin) (c : TypeDeclaration) (p : PolicyOption) :
    Yields (· = neededByMembers b plugin t c p) (addMembers b plugin t c p) := by
  unfold addMembers
  split
  · exact (yields_true _).bind fun _ _ => yields_pure (by rfl)
  · refine (yields_true _).bind fun _ _ => (yields_true _).bind fun _ _ =>
      (yields_true _).bind fun _ _ => (yields_true _).bind fun _ _ => ?_
    exact fun d qs d' hrun => (associationRequests_eq_ok hrun).1
  · exact yields_throw _
  · exact yields_throw _

/-- The requests of a model are for fields that it gives signatures of lists. -/
theorem sourced_neededByMembers {plugin : Plugin} {c : TypeDeclaration} {p : PolicyOption}
    (h : .members plugin t c p ∈ b.contributions x) :
    ∀ q ∈ neededByMembers b plugin t c p, q.Sourced b x := by
  intro q hq
  unfold neededByMembers at hq
  split at hq
  · rename_i own key name
    obtain ⟨a, ha, hneeded⟩ := List.mem_filterMap.mp hq
    obtain ⟨hkept, hneeded⟩ := Option.ite_none_right_eq_some.mp hneeded
    obtain ⟨hkept, hmany⟩ := Bool.and_eq_true_iff.mp hkept
    have hexposed : p.exposes a.key = .ok true := by
      split at hkept
      · assumption
      · cases hkept
    obtain ⟨target, htarget, rfl⟩ := Option.map_eq_some_iff.mp hneeded
    refine ⟨Declarations.mem_given_of_written h (d := .typed t a.key ("[" ++ target ++ "!]"))
      (List.mem_append_right _ (List.mem_flatMap.mpr ⟨a, ha, ?_⟩)) (List.mem_singleton_self _),
      hlists _ _ htarget⟩
    rw [Deed.ofAssociation, hexposed, htarget, if_pos rfl]
    dsimp only
    rw [if_pos hmany]
    exact List.mem_cons_self
  · cases hq

/-- A model is described by its members, and the filters that it needs are asked for. -/
theorem sourced_membersRequested {plugin : Plugin} {c : TypeDeclaration} {p : PolicyOption}
    (h : .members plugin t c p ∈ b.contributions x) :
    Keeps (Draft.Sourced b x pending)
      (addMembers b plugin t c p >>= fun requests => requests.forM request) := by
  intro d u d2 hrun hd
  obtain ⟨qs, d1, hmembers, hrequests⟩ := Run.bind_eq_ok.mp hrun
  obtain rfl := yields_neededByMembers plugin c p d qs d1 hmembers
  refine sourced_requests (sourced_neededByMembers hlists h) ?_ hrequests
  refine sourced_addMembers hlists h (List.subset_append_left _ _) d _ d1 hmembers ?_
  exact hd.mono fun a ha => List.mem_append_right _ (List.mem_append_right _ ha)

omit hlists in
/-- The configured fields of a type are described, and filters are asked for those that have the
arguments of the store. -/
theorem sourced_describeConfigured (t : String) :
    Keeps (Draft.Sourced b x pending) (describeConfigured t) := by
  refine keeps_get_bind fun d hd => ?_
  have hconfigs : ∀ e ∈ (d.configs.get? t).getD [], b.Configures x t e.1 e.2 := by
    intro e he
    cases hget : d.configs.get? t with
    | none =>
      rw [hget] at he
      cases he
    | some fs =>
      rw [hget] at he
      exact hd.configs t fs hget e he
  dsimp only
  generalize (d.configs.get? t).getD [] = configs at hconfigs
  cases hany : configs.any (·.2.hasFetchArguments) with
  | true =>
    rw [if_pos rfl]
    refine sourced_then_request (q := .configured t configs) hconfigs (keeps_forM fun e he =>
      sourced_describe (hconfigs e he) fun hfetch => List.mem_append_left _ ?_)
    exact List.mem_map.mpr ⟨e, List.mem_filter.mpr ⟨he, hfetch⟩, rfl⟩
  | false =>
    rw [if_neg Bool.false_ne_true]
    refine (keeps_forM fun e he => sourced_describe (hconfigs e he) fun hfetch => ?_).bind
      fun _ => keeps_pure _
    exact absurd hfetch (by simpa using List.any_eq_false.mp hany e he)

theorem sourced_populate {plugin : Plugin} {c : TypeDeclaration} {p : PolicyOption}
    (h : .members plugin t c p ∈ b.contributions x) (primary : Option String)
    (first : PolicyOption) :
    Keeps (Draft.Sourced b x pending) (populate b plugin t c p primary first) := by
  have hstart : Keeps (Draft.Sourced b x pending) (modify fun s => { s with
      extensions := s.extensions.setPolicy t p primary
      configs := s.configs.ensure t [] } : Synthesis PUnit) := fun d a d' hrun hd => by
    have hgoverned := sourced_setPolicy (t := t) p primary d ⟨⟩ _ rfl hd
    cases hrun
    exact sourced_ensureConfigs _ ⟨⟩ _ rfl hgoverned
  have hdirectives : ∀ p, Keeps (Draft.Sourced b x pending) (policyDirectives p) := by
    intro p
    unfold policyDirectives
    split
    · exact sourced_resolve _
    · exact keeps_pure _
    · exact keeps_throw _
  rw [populate_eq]
  refine hstart.bind fun _ => ?_
  rw [← bind_assoc]
  exact (sourced_membersRequested hlists h).bind fun _ => (sourced_describeConfigured t).bind
    fun _ => sourced_ensureType.bind fun _ => (hdirectives first).bind fun before =>
      (hdirectives p).bind fun own => sourced_directType _

omit hlists in
/-- Fields that a policy brings along are declared, and filters are asked for them. -/
theorem sourced_addPolicyTypes (c : TypeDeclaration) {p : PolicyOption}
    (h : ∀ e ∈ p.brought, .mapping e.1 e.2 ∈ b.contributions x) :
    Keeps (Draft.Sourced b x pending) (addPolicyTypes c p) := by
  unfold addPolicyTypes
  split
  · exact keeps_forM fun e he => sourced_then_request (sourced_declaredRequest (h e he))
      (sourced_declare (h e he) _ (List.subset_append_left _ _))
  · exact keeps_pure _
  · exact keeps_throw _

/-! ### Everything that is declared -/

theorem sourced_addAllNames {plugin : Plugin} {named : String × TypeDeclaration}
    (hplugin : findPlugin named.2.model b.plugins = .ok (some plugin))
    (h : b.contributionsOf named ⊆ b.contributions x) :
    Keeps (Draft.Sourced b x pending) (addAllNames b plugin named.1 named.2) := by
  unfold Declarations.contributionsOf at h
  rw [hplugin] at h
  dsimp only at h
  have hown : ∀ c ∈ Contribution.members plugin named.1 named.2 (Deed.ownPolicy b named.2)
      :: (Deed.ownPolicy b named.2).brought.map (fun e => Contribution.mapping e.1 e.2),
      c ∈ b.contributions x := fun c hc => h (List.mem_append_left _ hc)
  have hother : ∀ a ∈ Deed.otherNames b named.2, ∀ c ∈ Contribution.members plugin a.1 named.2 a.2
      :: a.2.brought.map (fun e => Contribution.mapping e.1 e.2), c ∈ b.contributions x :=
    fun a ha c hc => h (List.mem_append_right _ (List.mem_flatMap.mpr ⟨a, ha, hc⟩))
  refine (sourced_expose _ _ _ _).bind fun _ => ?_
  refine (sourced_populate hlists (hown _ List.mem_cons_self) none _).bind fun _ => ?_
  refine (sourced_addPolicyTypes _ fun e he => hown _ (List.mem_cons_of_mem _
    (List.mem_map_of_mem he))).bind fun _ => ?_
  refine keeps_forM fun a ha => (sourced_expose _ _ _ _).bind fun _ => ?_
  refine (sourced_populate hlists (hother a ha _ List.mem_cons_self) _ _).bind fun _ => ?_
  exact sourced_addPolicyTypes _ fun e he => hother a ha _ (List.mem_cons_of_mem _
    (List.mem_map_of_mem he))

theorem sourced_addType {named : String × TypeDeclaration}
    (h : b.contributionsOf named ⊆ b.contributions x) :
    Keeps (Draft.Sourced b x pending) (addType b named) := by
  refine keeps_synthesisLift_bind fun found hfound => ?_
  cases found with
  | some plugin => exact sourced_addAllNames hlists hfound h
  | none =>
    obtain ⟨name, c⟩ := named
    cases c with
    | plain id attributes p => exact sourced_warn _
    | mapped model => exact sourced_warn _
    | inline m =>
      have hm : .mapping name m ∈ b.contributions x := h (by
        unfold Declarations.contributionsOf
        rw [show findPlugin (TypeDeclaration.inline m).model b.plugins = .ok none from hfound]
        exact List.mem_singleton_self _)
      refine keeps_ite (fun hwords => ?_) fun _ => keeps_ite (fun _ => ?_) fun _ => sourced_warn _
      · -- No filters are asked for words.
        refine sourced_declare hm none fun a ha => ?_
        cases m with
        | value v => cases ha
        | fields entries => cases hwords
      · exact sourced_then_request (sourced_declaredRequest hm)
          (sourced_declare hm none (List.subset_append_left _ _))

/-- **All that the first pass gathers comes from what is contributed**, where the requests of the
extensions are still to be left. -/
theorem sourced_firstPass (hpending : ∀ e ∈ x,
      (FilterRequest.declared e.1 (.fields e.2)).fetched ⊆ pending) :
    Keeps (Draft.Sourced b x pending) (firstPass b) := by
  have hscalars : Keeps (Draft.Sourced b x pending) (addScalars b) :=
    keeps_forM fun t _ => keeps_ite (fun _ => sourced_setKind .scalar) fun _ => keeps_pure _
  have htypes : Keeps (Draft.Sourced b x pending) (b.types.forM (addType b)) :=
    keeps_forM fun named hnamed => sourced_addType hlists fun c hc =>
      List.mem_append_left _ (List.mem_flatMap.mpr ⟨named, hnamed, hc⟩)
  refine hscalars.bind fun _ => htypes.bind fun _ => keeps_get_bind fun d hd => ?_
  rw [hd.extended]
  exact keeps_forM fun e he => sourced_declare
    (List.mem_append_right _ (List.mem_map.mpr ⟨e, he, rfl⟩)) none (hpending e he)

/-- **After the first pass over nothing, arguments of the store stand only on fields whose filters
are asked for.** -/
theorem sourced_fresh {x : Extensions} {s : ThunkState} {d1 : Draft}
    (h : firstPass b (fresh x s) = (.ok ⟨⟩, d1)) :
    (∀ t, ∀ l ∈ (d1.registry.entry t).lines,
      l.2.Sourced b x.fields (· ∈ d1.fetched) t l.1)
      ∧ ∀ q ∈ d1.filterRequests, q.Sourced b x.fields := by
  let pending := x.fields.flatMap fun e => (FilterRequest.declared e.1 (.fields e.2)).fetched
  have hstart : (fresh x s).Sourced b x.fields pending :=
    ⟨fun _ _ hl => (List.not_mem_nil hl).elim, fun _ _ hfs => (by cases hfs),
      fun _ hq => (List.not_mem_nil hq).elim, rfl⟩
  have hd1 : d1.Sourced b x.fields pending := sourced_firstPass hlists
    (fun e he a ha => List.mem_flatMap.mpr ⟨e, he, ha⟩) _ _ d1 h hstart
  refine ⟨fun t l hl => (hd1.lines t l hl).mono fun a ha => ?_, fun q hq => ?_⟩
  · rw [Draft.fetched, Draft.filterRequests, hd1.extended, List.flatMap_append, List.flatMap_map]
    rcases List.mem_append.mp ha with ha | ha
    · exact List.mem_append_right _ ha
    · exact List.mem_append_left _ ha
  · rcases List.mem_append.mp hq with hq | hq
    · obtain ⟨e, he, rfl⟩ := List.mem_map.mp hq
      rw [hd1.extended] at he
      exact sourced_declaredRequest (List.mem_append_right _ (List.mem_map.mpr ⟨e, he, rfl⟩))
    · exact hd1.requests q hq

end models

end Synthesis
end SchemaForge
