import SchemaForge.Proofs.Synthesis.Described

/-!
# What a declared type leaves settled

When a declared type has been described, the line of each configured field bears what its
configuration says, and the filters of the field are asked for: to describe the fields of the type
again, as models that come later may do, brings nothing new. Each contribution leaves this behind, if
no two of them give the same field to the same type (`adds_addType`).
-/
namespace SchemaForge

/-- The fields of a mapping have different names. -/
def FieldMap.Distinct : FieldMap → Prop
  | .fields entries => (Table.keys entries).Nodup
  | .value _ => True

theorem nodup_fieldEntries {entries : List (String × FieldEntry)} (h : (Table.keys entries).Nodup) :
    ((fieldEntries entries).map Prod.fst).Nodup := by
  refine h.sublist ?_
  clear h
  induction entries with
  | nil => exact .slnil
  | cons e es ih =>
    obtain ⟨name, x⟩ := e
    have hfields : fieldEntries ((name, x) :: es) = fieldEntries es
        ∨ ∃ d, fieldEntries ((name, x) :: es) = (name, d) :: fieldEntries es := by
      unfold fieldEntries
      cases x with
      | policy p => exact .inl rfl
      | field d =>
        by_cases hkey : name == policyKey
        · exact .inl (List.filterMap_cons_none (if_pos hkey))
        · exact .inr ⟨d, List.filterMap_cons_some (if_neg hkey)⟩
    rcases hfields with hfields | ⟨d, hfields⟩
    · exact hfields ▸ ih.cons name
    · exact hfields ▸ ih.cons_cons name

/-- Some contribution gives a field to a type. -/
def Declarations.Gives (b : Declarations) (cs : List Contribution) (type field : String) : Prop :=
  ∃ c ∈ cs, c.type = type ∧ field ∈ c.fields b

/-- Two contributions give no field to the same type. -/
def Contribution.Apart (b : Declarations) (c c' : Contribution) : Prop :=
  c.type = c'.type → ∀ f ∈ c.fields b, f ∉ c'.fields b

instance (b : Declarations) (c c' : Contribution) : Decidable (c.Apart b c') :=
  inferInstanceAs (Decidable (c.type = c'.type → ∀ f ∈ c.fields b, f ∉ c'.fields b))

/-- The line of a field bears a configuration, and its filters, if it has any, are asked for or are
going to be. -/
structure Draft.Settles (result : String → DirectiveOption) (promised : FilterStep → Prop)
    (d : Draft) (type field : String) (c : FieldConfig) : Prop where
  /-- The line bears it. -/
  line : ∃ l, d.registry.line? type field = some l ∧ l.Bears result type field c
  /-- The filters are asked for. -/
  asked : ∀ q, c.step? type field = some q → promised q ∨ q ∈ d.steps

/-- Configured fields of a draft are settled, and only some are configured. -/
structure Draft.Settled (result : String → DirectiveOption) (promised : FilterStep → Prop)
    (kept mine : String → String → Prop) (d : Draft) : Prop where
  /-- What is kept of thunks are their values. -/
  thunks : d.thunks.Agrees result
  /-- Configured options are coherent. -/
  coherent : ∀ t, ∀ e ∈ d.configsOf t, DirectiveOption.Coherent result e.2.directives
  /-- Fields that are kept are settled. -/
  settles : ∀ t, ∀ e ∈ d.configsOf t, kept t e.1 → d.Settles result promised t e.1 e.2
  /-- These fields may be configured. -/
  within : ∀ t, ∀ e ∈ d.configsOf t, mine t e.1

namespace Draft

variable {result : String → DirectiveOption} {promised promised' : FilterStep → Prop}
  {kept kept' mine mine' : String → String → Prop} {d d' : Draft} {t f : String} {c : FieldConfig}

theorem configsOf_configure (d : Draft) (t f : String) (c : FieldConfig) (other : String) :
    Draft.configsOf { d with configs := d.configs.update t [] fun fs => Table.put fs f c } other
      = if other = t then Table.put (d.configsOf t) f c else d.configsOf other := by
  unfold configsOf
  dsimp only
  rw [Table.get?_update]
  by_cases h : other = t <;> simp [h]

/-- Configuring a field adds its configuration, and no other. -/
theorem mem_configsOf_configure {d : Draft} {other : String} {e : String × FieldConfig}
    (h : e ∈ Draft.configsOf
      { d with configs := d.configs.update t [] fun fs => Table.put fs f c } other) :
    e ∈ d.configsOf other ∨ other = t ∧ e = (f, c) := by
  rw [configsOf_configure] at h
  split at h
  · rename_i heq
    exact (Table.mem_put h).imp (fun he => heq ▸ he) fun he => ⟨heq, he⟩
  · exact .inl h

theorem configsOf_ensure (d : Draft) (t : String) (other : String) :
    Draft.configsOf { d with configs := d.configs.ensure t [] } other = d.configsOf other := by
  unfold configsOf
  dsimp only
  rw [Table.get?_ensure]
  cases d.configs.get? other with
  | some fs => rfl
  | none => by_cases h : other = t <;> simp [h]

theorem Settled.mono (h : d.Settled result promised kept mine)
    (hmine : ∀ t f, mine t f → mine' t f) : d.Settled result promised kept mine' :=
  ⟨h.thunks, h.coherent, h.settles, fun t e he => hmine t e.1 (h.within t e he)⟩

end Draft

namespace Synthesis

open Run

variable {result : String → DirectiveOption} {promised : FilterStep → Prop}
  {kept mine : String → String → Prop} {α : Type}

/-! ### Single steps -/

/-- A step keeps that fields are settled, whether or not it succeeds. -/
def KeepsSettled (result : String → DirectiveOption) (promised : FilterStep → Prop)
    (kept mine : String → String → Prop) (m : Synthesis α) : Prop :=
  Alike (fun d d' => d = d' ∧ d.Settled result promised kept mine) m m

theorem keepsSettled_of {m : Synthesis α} (h : ∀ d, d.Settled result promised kept mine →
    (m d).2.Settled result promised kept mine) : KeepsSettled result promised kept mine m := by
  rintro d _ ⟨rfl, hd⟩
  exact ⟨rfl, rfl, h d hd⟩

theorem KeepsSettled.of_run {m : Synthesis α} (h : KeepsSettled result promised kept mine m)
    {d d' : Draft} {x : Except Failure α} (hd : d.Settled result promised kept mine)
    (hrun : m d = (x, d')) : d'.Settled result promised kept mine := by
  obtain ⟨-, -, hstate⟩ := h d d ⟨rfl, hd⟩
  rwa [hrun] at hstate

/-- What leaves the lines that are kept, how fields are resolved and what is asked for leaves them
settled. -/
theorem settled_of_lines {d d' : Draft} (hd : d.Settled result promised kept mine)
    (hlines : ∀ t f, kept t f → d'.registry.line? t f = d.registry.line? t f)
    (hconfigs : ∀ t, d'.configsOf t = d.configsOf t) (hsteps : d.steps ⊆ d'.steps)
    (hthunks : d'.thunks.Agrees result) : d'.Settled result promised kept mine where
  thunks := hthunks
  coherent t e he := hd.coherent t e (hconfigs t ▸ he)
  settles t e he hkept := by
    obtain ⟨⟨l, hline, hl⟩, hasked⟩ := hd.settles t e (hconfigs t ▸ he) hkept
    exact ⟨⟨l, (hlines t e.1 hkept).trans hline, hl⟩, fun q hq => (hasked q hq).imp id (@hsteps q)⟩
  within t e he := hd.within t e (hconfigs t ▸ he)

theorem keepsSettled_change {u : Registry → Registry}
    (hu : ∀ r t f, kept t f → Registry.line? (u r) t f = r.line? t f) :
    KeepsSettled result promised kept mine (change u) :=
  keepsSettled_of fun d hd => settled_of_lines hd (fun t f hkept => hu d.registry t f hkept)
    (fun _ => rfl) (List.Subset.refl _) hd.thunks

/-- A directive is recorded, and if it is accepted it is used. -/
theorem keepsSettled_use {x : Directive} {u : String → Registry → Registry}
    (hu : ∀ use r t f, kept t f → Registry.line? (u use r) t f = r.line? t f) :
    KeepsSettled result promised kept mine (record x >>= fun use => change (u use)) := by
  refine Alike.bind (keepsSettled_of fun d hd => ?_) fun use => keepsSettled_change (hu use)
  exact settled_of_lines hd (fun _ _ _ => rfl) (fun _ => rfl) (List.Subset.refl _) hd.thunks

theorem keepsSettled_modify {u : Draft → Draft} (hr : ∀ d, (u d).registry = d.registry)
    (hc : ∀ d t, (u d).configsOf t = d.configsOf t) (hq : ∀ d, d.steps ⊆ (u d).steps)
    (ht : ∀ d, (u d).thunks = d.thunks) :
    KeepsSettled result promised kept mine (modify u : Synthesis PUnit) :=
  keepsSettled_of fun d hd => settled_of_lines hd (fun t f _ => congrArg (·.line? t f) (hr d)) (hc d)
    (hq d) ((congrArg (ThunkState.Agrees result) (ht d)).mpr hd.thunks)

theorem line?_updateType_of_lines (r : Registry) (type t f : String) {u : TypeEntry → TypeEntry}
    (hu : ∀ e, (u e).lines = e.lines) : (r.updateType type u).line? t f = r.line? t f := by
  rw [Registry.line?_eq, Registry.entry_updateType, Registry.line?_eq]
  split
  · rename_i h
    rw [hu, h]
  · rfl

/-- **Every single step leaves the fields settled that are kept from it.** -/
theorem lockstep_settled : Lockstep (DirectiveOption.Coherent result) (fun _ => True)
    ⟨fun t f => ¬kept t f ∧ mine t f, fun _ _ => True, fun _ => True, fun t => ∀ f, ¬kept t f⟩
    (fun d d' => d = d' ∧ d.Settled result promised kept mine) where
  absent := DirectiveOption.coherent_none
  union h _ := by rw [h.1]
  line h _ := by rw [h.1]
  known h _ := by
    obtain ⟨rfl, h⟩ := h
    refine ⟨rfl, fun c hc => ?_⟩
    rw [Draft.configOf?_eq] at hc
    exact h.coherent _ _ (Table.mem_of_get? hc)
  resolve ho := keepsSettled_of fun d hd => settled_of_lines hd (fun _ _ _ => rfl) (fun _ => rfl)
    (List.Subset.refl _) (DirectiveOption.alike_resolve ho _ _ ⟨hd.thunks, hd.thunks⟩).2.1
  resolved _ _ _ _ _ := trivial
  list _ := DirectiveOption.coherent_list _
  useOnType t _ _ := keepsSettled_use fun _ r _ _ _ =>
    line?_updateType_of_lines r t _ _ fun _ => rfl
  useOnField hf _ := keepsSettled_use fun _ r t f hkept => by
    rw [Registry.addFieldDirective, Registry.line?_updateField, if_neg]
    rintro ⟨rfl, rfl⟩
    exact hf.1 hkept
  field hf _ := keepsSettled_change fun r t f hkept => by
    rw [Registry.line?_updateField, if_neg]
    rintro ⟨rfl, rfl⟩
    exact hf.1 hkept
  configure {t f} hf c hc := keepsSettled_of fun d hd => by
    refine ⟨hd.thunks, fun other e he => ?_, fun other e he hkept => ?_, fun other e he => ?_⟩
    · rcases Draft.mem_configsOf_configure he with he | ⟨-, rfl⟩
      · exact hd.coherent other e he
      · exact hc
    · rcases Draft.mem_configsOf_configure he with he | ⟨rfl, rfl⟩
      · exact ⟨(hd.settles other e he hkept).line, (hd.settles other e he hkept).asked⟩
      · exact absurd hkept hf.1
    · rcases Draft.mem_configsOf_configure he with he | ⟨rfl, rfl⟩
      · exact hd.within other e he
      · exact hf.2
  govern t p _ := keepsSettled_modify (fun _ => rfl) (fun _ _ => rfl)
    (fun _ => List.Subset.refl _) fun _ => rfl
  ensure t := keepsSettled_change fun r _ _ _ => by
    rw [Registry.line?_eq, Registry.entry_ensureType, Registry.line?_eq]
  kind {t _} _ := keepsSettled_change fun r _ _ _ => line?_updateType_of_lines r t _ _ fun _ => rfl
  put {t} ht lines _ := keepsSettled_change fun r other f hkept => by
    rw [Registry.line?_eq, Registry.entry_put, if_neg, ← Registry.line?_eq]
    rintro rfl
    exact ht f hkept
  start t p primary _ := keepsSettled_modify (fun _ => rfl) (fun d other =>
    Draft.configsOf_ensure { d with extensions := d.extensions.setPolicy t p primary } t other)
    (fun _ => List.Subset.refl _) fun _ => rfl
  request q := keepsSettled_modify (fun _ => rfl) (fun _ _ => rfl) (fun d => by
    change d.requests.flatMap _ ⊆ (d.requests ++ [q]).flatMap _
    rw [List.flatMap_append]
    exact List.subset_append_left _ _) fun _ => rfl
  expose _ _ _ _ := keepsSettled_modify (fun _ => rfl) (fun _ _ => rfl)
    (fun _ => List.Subset.refl _) fun _ => rfl
  warn _ := keepsSettled_modify (fun _ => rfl) (fun _ _ => rfl)
    (fun _ => List.Subset.refl _) fun _ => rfl

/-! ### Declared fields -/

variable {t f : String} {owner : Option ModelRef} {c : FieldConfig} {e : FieldDeclaration}
  {d d' : Draft}

/-- A field that is not configured yet is configured as it is declared, if at all, up to the model
that it is fetched from. -/
theorem noteConfig_of_new (hnew : d.configOf? t f = none) (owner : Option ModelRef)
    (c : FieldConfig) : noteConfig t f owner c d = (.ok ⟨⟩, d)
      ∨ ∃ model, noteConfig t f owner c d = configure t f { c with model } d := by
  have hmerged : noteConfig t f owner c d
      = (if c.isActive then merged (d.configOf? t f) owner c >>= fun c => configure t f c
        else pure ⟨⟩ : Synthesis Unit) d := by
    unfold noteConfig
    split
    · exact bind_of_ok (get_apply d) _
    · rfl
  rw [hmerged, hnew]
  split
  · unfold merged
    split
    · exact .inr ⟨owner, rfl⟩
    · exact .inr ⟨c.model, rfl⟩
  · exact .inl rfl

/-- The members of a union are names alone; any other field is described, and it is noted how it is
resolved. -/
theorem declareField_eq_ok {x : Unit} (h : declareField t owner f e d = (.ok x, d')) :
    d'.configs = d.configs
    ∨ ∃ c d1 d2, e.normalize = .ok c ∧ d1.configs = d.configs ∧ d1.thunks = d.thunks
      ∧ describe t f c d1 = (.ok ⟨⟩, d2) ∧ noteConfig t f owner c d2 = (.ok ⟨⟩, d') := by
  unfold declareField at h
  rw [bind_of_ok (get_apply d)] at h
  dsimp only at h
  split at h
  · cases h
    exact .inl rfl
  · obtain ⟨c, d0, hnormal, hafter⟩ := bind_eq_ok.mp h
    obtain ⟨hc, rfl⟩ := lift_eq_ok hnormal
    have hrest : ∀ d1 : Draft,
        (describe t f c >>= fun _ => noteConfig t f owner c) d1 = (.ok x, d') →
        d1.configs = d0.configs → d1.thunks = d0.thunks → ∃ c d1 d2,
          e.normalize = .ok c ∧ d1.configs = d0.configs ∧ d1.thunks = d0.thunks
            ∧ describe t f c d1 = (.ok ⟨⟩, d2) ∧ noteConfig t f owner c d2 = (.ok ⟨⟩, d') := by
      intro d1 hrun hconfigs hthunks
      obtain ⟨_, d2, hdescribe, hnote⟩ := bind_eq_ok.mp hrun
      exact ⟨c, d1, d2, hc, hconfigs, hthunks, hdescribe, hnote⟩
    obtain ⟨_, d1, hensure, htyped⟩ := bind_eq_ok.mp hafter
    cases hensure
    split at htyped
    · obtain ⟨_, d2, htype, hlast⟩ := bind_eq_ok.mp htyped
      cases htype
      exact .inr (hrest _ hlast rfl rfl)
    · exact .inr (hrest _ htyped rfl rfl)

/-- **A field that is not configured yet is settled when it is declared**, if its filters are going
to be asked for. -/
theorem settled_declareField (hd : d.Settled result promised (fun _ _ => True) mine)
    (hnew : ∀ x ∈ d.configsOf t, x.1 ≠ f) (hf : mine t f)
    (ho : ∀ o ∈ e.directiveOptions, DirectiveOption.Coherent result o)
    (hasked : ∀ q, e.step? t f = some q → promised q) {x : Unit}
    (h : declareField t owner f e d = (.ok x, d')) :
    d'.Settled result promised (fun _ _ => True) mine
      ∧ ∀ x ∈ d'.configsOf t, x.1 = f ∨ x ∈ d.configsOf t := by
  -- Every other field is kept by each single step.
  have hothers : d'.Settled result promised (fun t' f' => ¬(t' = t ∧ f' = f)) mine := by
    have hkeeps : KeepsSettled result promised (fun t' f' => ¬(t' = t ∧ f' = f)) mine
        (declareField t owner f e) :=
      lockstep_settled.declareField (fun h => by rw [h.1]) ⟨fun h => h ⟨rfl, rfl⟩, hf⟩ owner ho
    exact hkeeps.of_run
      ⟨hd.thunks, hd.coherent, fun t e he _ => hd.settles t e he trivial, hd.within⟩ h
  have hkept : (∀ t, d'.configsOf t = d.configsOf t) →
      d'.Settled result promised (fun _ _ => True) mine
        ∧ ∀ x ∈ d'.configsOf t, x.1 = f ∨ x ∈ d.configsOf t := by
    intro hsame
    refine ⟨⟨hothers.thunks, hothers.coherent, fun t' e he _ => hothers.settles t' e he ?_,
      hothers.within⟩, fun x hx => .inr (hsame t ▸ hx)⟩
    rintro ⟨rfl, rfl⟩
    exact hnew e (hsame t' ▸ he) rfl
  rcases declareField_eq_ok h with hconfigs
    | ⟨c, d1, d2, hnormal, hconfigs, hthunks, hdescribe, hnote⟩
  · exact hkept fun t => by rw [Draft.configsOf, hconfigs, Draft.configsOf]
  · have hc : DirectiveOption.Coherent result c.directives := ho _ (by
      rw [FieldDeclaration.directiveOptions, hnormal]
      exact List.mem_singleton_self _)
    have hdraws := draws_of_describe hc (hthunks ▸ hd.thunks) hdescribe
    have hsame : ∀ t, d2.configsOf t = d.configsOf t := fun t => by
      rw [Draft.configsOf, hdraws.configs, hconfigs, Draft.configsOf]
    have hnone : d2.configOf? t f = none := by
      rw [Draft.configOf?_eq, hsame]
      refine Option.eq_none_iff_forall_ne_some.mpr fun old hold => ?_
      exact hnew _ (Table.mem_of_get? hold) rfl
    rcases noteConfig_of_new hnone owner c with hrun | ⟨model, hrun⟩
    · rw [hrun] at hnote
      cases hnote
      exact hkept hsame
    · rw [hrun] at hnote
      cases hnote
      obtain ⟨l, hline, -, hl⟩ := hdraws.line
      have hmem : ∀ x ∈ (configure t f { c with model } d2).2.configsOf t,
          x ∈ d.configsOf t ∨ x = (f, { c with model }) := fun x hx =>
        (Draft.mem_configsOf_configure (d := d2) hx).imp (fun hx => hsame t ▸ hx) And.right
      refine ⟨⟨hothers.thunks, hothers.coherent, fun t' x hx _ => ?_, hothers.within⟩,
        fun x hx => ?_⟩
      rotate_left
      · rcases hmem x hx with hx | rfl
        · exact .inr hx
        · exact .inl rfl
      by_cases h : t' = t ∧ x.1 = f
      · obtain ⟨rfl, hname⟩ := h
        rcases hmem x hx with hx | rfl
        · exact absurd hname (hnew x hx)
        · refine ⟨⟨l, hline, hl.inputs, hl.directives⟩, fun q hq => .inl (hasked q ?_)⟩
          rw [FieldDeclaration.step?, hnormal]
          exact hq
      · exact hothers.settles t' x hx h

/-- So are several fields with different names. -/
theorem settled_declareFields {es : List (String × FieldDeclaration)}
    (hnodup : (es.map Prod.fst).Nodup) (hd : d.Settled result promised (fun _ _ => True) mine)
    (hnew : ∀ x ∈ d.configsOf t, x.1 ∉ es.map Prod.fst) (hf : ∀ e ∈ es, mine t e.1)
    (ho : ∀ e ∈ es, ∀ o ∈ e.2.directiveOptions, DirectiveOption.Coherent result o)
    (hasked : ∀ e ∈ es, ∀ q, e.2.step? t e.1 = some q → promised q) {x : PUnit}
    (h : (es.forM fun e => declareField t owner e.1 e.2) d = (.ok x, d')) :
    d'.Settled result promised (fun _ _ => True) mine := by
  induction es generalizing d with
  | nil =>
    cases h
    exact hd
  | cons e es ih =>
    obtain ⟨hfirst, hnodup⟩ := List.nodup_cons.mp hnodup
    obtain ⟨_, d1, hrun, hrest⟩ := bind_eq_ok.mp h
    obtain ⟨hd1, hmem⟩ := settled_declareField hd
      (fun x hx heq => hnew x hx (heq ▸ List.mem_cons_self)) (hf e List.mem_cons_self)
      (ho e List.mem_cons_self) (hasked e List.mem_cons_self) hrun
    refine ih hnodup hd1 (fun x hx => ?_) (fun e he => hf e (List.mem_cons_of_mem _ he))
      (fun e he => ho e (List.mem_cons_of_mem _ he)) (fun e he => hasked e (List.mem_cons_of_mem _ he))
      hrest
    rcases hmem x hx with hname | hx
    · exact hname ▸ hfirst
    · exact fun hmem => hnew x hx (List.mem_cons_of_mem _ hmem)

theorem keepsSettled_declarePolicy {p : Policy} (hp : DirectiveOption.Coherent result p.directives) :
    KeepsSettled result promised kept mine (declarePolicy t p) := by
  have hgoverns : KeepsSettled result promised kept mine (governs t p) :=
    lockstep_settled.governs t hp
  rw [declarePolicy_eq]
  split
  · exact lockstep_settled.stateKind_bind (fun _ _ => trivial) fun _ =>
      (lockstep_settled.settled t).governs t hp
  · exact hgoverns

/-- Words bring no configurations. -/
theorem configs_declareWords {words : List String} {x : Unit}
    (h : declareWords t words d = (.ok x, d')) : d'.configs = d.configs := by
  have hchange : ∀ u, Keeps (fun d' : Draft => d'.configs = d.configs) (change u) :=
    fun _ => keeps_modify fun _ => id
  exact ((hchange _).bind fun _ => keeps_forM fun _ _ => hchange _) d x d' h rfl

/-- **The fields of a mapping are settled when it is declared**, if none of them is configured yet
and the filters of the mapping are going to be asked for. -/
theorem settled_declare {m : FieldMap} (hm : m.Distinct)
    (hd : d.Settled result promised (fun _ _ => True) mine)
    (hnew : ∀ x ∈ d.configsOf t, x.1 ∉ m.names) (hf : ∀ f ∈ m.names, mine t f)
    (ho : ∀ o ∈ m.directiveOptions, DirectiveOption.Coherent result o)
    (hasked : TypeDeclaration.words? m = none → ∀ q ∈ (FilterRequest.declared t m).steps, promised q)
    {x : Unit} (h : declare t m owner d = (.ok x, d')) :
    d'.Settled result promised (fun _ _ => True) mine := by
  unfold declare at h
  obtain ⟨_, d1, hensure, hrun⟩ := bind_eq_ok.mp h
  have hd1 : d1.Settled result promised (fun _ _ => True) mine :=
    KeepsSettled.of_run (lockstep_settled.ensure t) hd hensure
  have hnew1 : ∀ x ∈ d1.configsOf t, x.1 ∉ m.names := by
    cases hensure
    exact hnew
  unfold FieldMap.names at hnew1 hf
  cases hwords : TypeDeclaration.words? m with
  | some words =>
    rw [hwords] at hnew1 hf hrun
    dsimp only at hnew1 hf hrun
    have hkeeps : KeepsSettled result promised (fun t' f' => ¬(t' = t ∧ f' ∈ words)) mine
        (declareWords t words) :=
      (lockstep_settled.kind (k := .enum) trivial).bind fun _ => alike_forM fun w hw =>
        lockstep_settled.ensureField ⟨fun h => h ⟨rfl, hw⟩, hf w hw⟩
    have hothers := hkeeps.of_run ⟨hd1.thunks, hd1.coherent,
      fun t e he _ => hd1.settles t e he trivial, hd1.within⟩ hrun
    have hconfigs := configs_declareWords hrun
    refine ⟨hothers.thunks, hothers.coherent, fun t' e he _ => hothers.settles t' e he ?_,
      hothers.within⟩
    rintro ⟨rfl, hmem⟩
    rw [Draft.configsOf, hconfigs] at he
    exact hnew1 e he hmem
  | none =>
    rw [hwords] at hnew1 hf hrun
    have hasked := hasked hwords
    cases m with
    | value v => cases hrun
    | fields entries =>
      dsimp only at hnew1 hf hrun
      have hfields : ∀ d2 : Draft, d2.Settled result promised (fun _ _ => True) mine →
          (∀ x ∈ d2.configsOf t, x.1 ∉ (fieldEntries entries).map Prod.fst) →
          ((fieldEntries entries).forM fun e => declareField t owner e.1 e.2) d2 = (.ok x, d') →
          d'.Settled result promised (fun _ _ => True) mine := by
        intro d2 hd2 hnew2 hrun
        refine settled_declareFields (nodup_fieldEntries hm) hd2 hnew2
          (fun e he => hf _ (List.mem_map_of_mem he)) (fun e he o hoption => ?_)
          (fun e he q hq => hasked q (List.mem_filterMap.mpr ⟨e, he, hq⟩)) hrun
        exact ho o (List.mem_append_right _ (List.mem_flatMap.mpr ⟨e, he, hoption⟩))
      cases hp : (policyIn? entries).bind PolicyOption.policy? with
      | none =>
        rw [hp] at hrun
        exact hfields d1 hd1 hnew1 hrun
      | some p =>
        rw [hp] at hrun
        obtain ⟨_, d2, hpolicy, hrest⟩ := bind_eq_ok.mp hrun
        have hcoherent : DirectiveOption.Coherent result p.directives :=
          ho _ (List.mem_append_left _ (by rw [hp]; exact List.mem_singleton_self _))
        -- A policy configures no fields, so those that were configured are known.
        have hknown : d2.Settled result promised (fun _ _ => True)
            fun t f => ∃ x ∈ d1.configsOf t, x.1 = f :=
          (keepsSettled_declarePolicy hcoherent).of_run
            ⟨hd1.thunks, hd1.coherent, hd1.settles, fun t e he => ⟨e, he, rfl⟩⟩ hpolicy
        refine hfields d2 (hknown.mono fun t f hf => ?_) (fun x hx => ?_) hrest
        · obtain ⟨x, hx, rfl⟩ := hf
          exact hd1.within t x hx
        · obtain ⟨y, hy, hname⟩ := hknown.within t x hx
          exact hname ▸ hnew1 y hy

/-! ### Contributions -/

/-- All configured fields of a draft are settled, and they are fields of these contributions. -/
def Complete (result : String → DirectiveOption) (b : Declarations) (done : List Contribution)
    (d : Draft) : Prop :=
  d.Settled result (fun _ => False) (fun _ _ => True) (b.Gives done)

/-- A run adds contributions: if they are apart from each other and from those that were there
before, then configured fields that were settled before are settled afterwards. -/
def Adds (result : String → DirectiveOption) (b : Declarations) (new : List Contribution)
    (m : Synthesis α) : Prop :=
  ∀ done d a d', (done ++ new).Pairwise (Contribution.Apart b) → Complete result b done d →
    m d = (.ok a, d') → Complete result b (done ++ new) d'

variable {b : Declarations} {new more : List Contribution} {β : Type}

/-- A step that keeps fields settled adds nothing. -/
theorem KeepsSettled.adds {m : Synthesis α}
    (h : ∀ mine, KeepsSettled result (fun _ => False) (fun _ _ => True) mine m) :
    Adds result b [] m := by
  intro done d a d' _ hd hrun
  rw [List.append_nil]
  exact (h _).of_run hd hrun

theorem Adds.bind {m : Synthesis α} {m' : α → Synthesis β} (h : Adds result b new m)
    (h' : ∀ a, Adds result b more (m' a)) : Adds result b (new ++ more) (m >>= m') := by
  intro done d a d' hapart hd hrun
  obtain ⟨x, d1, h1, h2⟩ := bind_eq_ok.mp hrun
  rw [← List.append_assoc] at hapart ⊢
  exact h' x (done ++ new) d1 a d' hapart
    (h done d x d1 (List.pairwise_append.mp hapart).1 hd h1) h2

theorem adds_forM {g : α → Synthesis PUnit} {k : α → List Contribution} {xs : List α}
    (h : ∀ x ∈ xs, Adds result b (k x) (g x)) : Adds result b (xs.flatMap k) (xs.forM g) := by
  induction xs with
  | nil =>
    intro done d a d' _ hd hrun
    cases hrun
    rw [List.flatMap_nil, List.append_nil]
    exact hd
  | cons x xs ih =>
    exact (h x List.mem_cons_self).bind fun _ => ih fun y hy => h y (List.mem_cons_of_mem x hy)

/-- The fields of a contribution that is still to come are not configured. -/
theorem Complete.not_configured {done : List Contribution} (hd : Complete result b done d)
    {c : Contribution} (hapart : (done ++ [c]).Pairwise (Contribution.Apart b))
    (x : String × FieldConfig) (hx : x ∈ d.configsOf c.type) : x.1 ∉ c.fields b := by
  obtain ⟨c', hc', htype, hfield⟩ := hd.within c.type x hx
  exact (List.pairwise_append.mp hapart).2.2 c' hc' c (List.mem_singleton_self c) htype x.1 hfield

/-- The fields of contributions that were made or are made now. -/
theorem Complete.widen {done : List Contribution} (hd : Complete result b done d)
    (new : List Contribution) :
    d.Settled result promised (fun _ _ => True) (b.Gives (done ++ new)) where
  thunks := hd.thunks
  coherent := hd.coherent
  settles t e he _ := ⟨(hd.settles t e he trivial).line,
    fun q hq => .inr (((hd.settles t e he trivial).asked q hq).resolve_left id)⟩
  within t e he := (hd.within t e he).imp fun _ h => h.imp (List.mem_append_left _) id

/-- A mapping of words that is declared adds what it contributes. -/
theorem adds_words {m : FieldMap} {words : List String}
    (hwords : TypeDeclaration.words? m = some words) (hm : m.Distinct)
    (ho : ∀ o ∈ m.directiveOptions, DirectiveOption.Coherent result o) :
    Adds result b [.mapping t m] (declare t m owner) := by
  intro done d x d' hapart hd hrun
  refine settled_declare hm (hd.widen _) (hd.not_configured hapart) (fun f hf => ?_) ho
    (fun hnone => ?_) hrun
  · exact ⟨_, List.mem_append_right _ (List.mem_singleton_self _), rfl, hf⟩
  · rw [hwords] at hnone
    cases hnone

/-- A mapping of fields that is declared, with a request for its filters, adds what it
contributes. -/
theorem adds_mapping {m : FieldMap} (hm : m.Distinct)
    (ho : ∀ o ∈ m.directiveOptions, DirectiveOption.Coherent result o) :
    Adds result b [.mapping t m] (do declare t m owner; request (.declared t m)) := by
  intro done d x d' hapart hd hrun
  obtain ⟨_, d1, hdeclare, hrequest⟩ := bind_eq_ok.mp hrun
  have hd1 : d1.Settled result (· ∈ (FilterRequest.declared t m).steps) (fun _ _ => True) _ :=
    settled_declare hm (hd.widen [.mapping t m]) (hd.not_configured hapart) (fun f hf =>
      ⟨_, List.mem_append_right _ (List.mem_singleton_self _), rfl, hf⟩) ho (fun _ _ => id) hdeclare
  cases hrequest
  refine ⟨hd1.thunks, hd1.coherent, fun t e he _ => ?_, hd1.within⟩
  obtain ⟨hline, hasked⟩ := hd1.settles t e he trivial
  refine ⟨hline, fun q hq => .inr ?_⟩
  change q ∈ (d1.requests ++ [_]).flatMap _
  rw [List.flatMap_append]
  rcases hasked q hq with hpromised | hthere
  · exact List.mem_append_right _ (by simpa using hpromised)
  · exact List.mem_append_left _ hthere

section loop

variable {es : List (String × FieldConfig)} {d1 : Draft} {x : Unit}
  (hthunks : d.thunks.Agrees result)
  (hcoherent : ∀ e ∈ es, DirectiveOption.Coherent result e.2.directives)
  (hloop : (es.forM fun e => describe t e.1 e.2) d = (.ok x, d1))
include hthunks hcoherent hloop

/-- Describing fields configures none. -/
theorem configs_describes : d1.configs = d.configs := by
  refine (keeps_forM (I := fun s : Draft => s.thunks.Agrees result ∧ s.configs = d.configs)
    (fun e he s x s' hrun hs => ?_) d _ d1 hloop ⟨hthunks, rfl⟩).2
  have hdraws := draws_of_describe (hcoherent e he) hs.1 hrun
  exact ⟨hdraws.thunks, hdraws.configs.trans hs.2⟩

/-- A line that bears a configuration goes on to bear it while other fields are described. -/
theorem bears_describes : ∀ e ∈ es,
    ∃ l, d1.registry.line? t e.1 = some l ∧ l.Bears result t e.1 e.2 := by
  have hround : ∀ e ∈ es, ∀ s x s', describe t e.1 e.2 s = (.ok x, s') →
      s.thunks.Agrees result → s.Draws result t e.1 e.2 s' := fun e he _ _ _ hrun hs =>
    draws_of_describe (hcoherent e he) hs hrun
  intro e he
  have hkeeps : ∀ e' ∈ es, Keeps (fun s : Draft => s.thunks.Agrees result
      ∧ ∃ l, s.registry.line? t e.1 = some l ∧ l.Bears result t e.1 e.2)
      (describe t e'.1 e'.2) := by
    rintro e' he' s x s' hrun ⟨hs, l, hline, hl⟩
    have hdraws := hround e' he' s x s' hrun hs
    refine ⟨hdraws.thunks, ?_⟩
    by_cases hname : e.1 = e'.1
    · obtain ⟨l', hline', hbelow, -⟩ := hdraws.line
      rw [← hname, Registry.line_eq_getD_line?, hline, Option.getD_some] at hbelow
      exact ⟨l', hname ▸ hline', hl.below hbelow⟩
    · exact ⟨l, (hdraws.others t e.1 fun h => hname h.2).trans hline, hl⟩
  refine (leads_forM (I := fun s : Draft => s.thunks.Agrees result) he
    (fun s x s' hrun hs => ?_) (fun e' he' s x s' hrun hs => (hround e' he' s x s' hrun hs).thunks)
    hkeeps d _ d1 hloop hthunks).2
  obtain ⟨l, hline, -, hl⟩ := (hround e he s x s' hrun hs).line
  exact ⟨(hround e he s x s' hrun hs).thunks, l, hline, hl⟩

end loop

/-- **The fields of a type are settled when they are described as they are configured**, if those of
other types are. -/
theorem settled_describeConfigured
    (hd : d.Settled result promised (fun other _ => other ≠ t) mine) {x : Unit}
    (h : describeConfigured t d = (.ok x, d')) :
    d'.Settled result promised (fun _ _ => True) mine := by
  unfold describeConfigured at h
  rw [bind_of_ok (get_apply d)] at h
  obtain ⟨_, d1, hdescribe, hrequest⟩ := bind_eq_ok.mp h
  have hloop : ((d.configsOf t).forM fun e => describe t e.1 e.2) d = (.ok ⟨⟩, d1) := hdescribe
  have hothers : d1.Settled result promised (fun other _ => other ≠ t) mine := by
    refine KeepsSettled.of_run (alike_forM fun e he => ?_) hd hloop
    exact lockstep_settled.describe ⟨fun hne => hne rfl, hd.within t e he⟩ (hd.coherent t e he)
  have hconfigs := configs_describes hd.thunks (hd.coherent t) hloop
  have hlines := bears_describes hd.thunks (hd.coherent t) hloop
  have hsame : ∀ other, d1.configsOf other = d.configsOf other := fun other => by
    rw [Draft.configsOf, hconfigs, Draft.configsOf]
  have hfinish : d'.registry = d1.registry → d'.configs = d1.configs → d'.thunks = d1.thunks →
      d1.steps ⊆ d'.steps → (∀ e ∈ d.configsOf t, ∀ q, e.2.step? t e.1 = some q → q ∈ d'.steps) →
      d'.Settled result promised (fun _ _ => True) mine := by
    intro hregistry hconfigs' hthunks hsteps hasked
    have hsame' : ∀ other, d'.configsOf other = d1.configsOf other := fun other => by
      rw [Draft.configsOf, hconfigs', Draft.configsOf]
    have hkept : d'.Settled result promised (fun other _ => other ≠ t) mine :=
      settled_of_lines hothers (fun t f _ => congrArg (·.line? t f) hregistry) hsame' hsteps
        (hthunks ▸ hothers.thunks)
    refine ⟨hkept.thunks, hkept.coherent, fun other e he _ => ?_, hkept.within⟩
    by_cases hother : other = t
    · subst hother
      rw [hsame', hsame] at he
      exact ⟨hregistry ▸ hlines e he, fun q hq => .inr (hasked e he q hq)⟩
    · exact hkept.settles other e he hother
  split at hrequest
  · cases hrequest
    refine hfinish rfl rfl rfl (fun q hq => ?_) fun e he q hq => ?_
    · exact List.mem_flatMap.mpr ((List.mem_flatMap.mp hq).imp fun _ h =>
        h.imp (List.mem_append_left _) id)
    · exact List.mem_flatMap.mpr ⟨.configured t (d.configsOf t),
        List.mem_append_right _ (List.mem_singleton_self _), List.mem_filterMap.mpr ⟨e, he, hq⟩⟩
  · rename_i hnone
    cases hrequest
    refine hfinish rfl rfl rfl (List.Subset.refl _) fun e he q hq => absurd ?_ hnone
    refine List.any_eq_true.mpr ⟨e, he, ?_⟩
    unfold FieldConfig.step? at hq
    split at hq
    · assumption
    · cases hq

/-! ### Models -/

variable {plugin : Plugin} {model : TypeDeclaration} {p : PolicyOption}

/-- **A model that is described under a name adds its exposed members.** -/
theorem adds_populate
    (hattributes : ∀ a ∈ attributesOf b model, ∀ o ∈ a.2.directiveOptions,
      DirectiveOption.Coherent result o)
    (hp : ∀ o ∈ p.directiveOptions, DirectiveOption.Coherent result o) (primary : Option String)
    {first : PolicyOption}
    (hfirst : ∀ o ∈ first.directiveOptions, DirectiveOption.Coherent result o) :
    Adds result b [.members plugin t model p] (populate b plugin t model p primary first) := by
  intro done d x d' _ hd hrun
  rw [populate_eq] at hrun
  obtain ⟨_, d1, hstart, hrun⟩ := bind_eq_ok.mp hrun
  obtain ⟨requests, d2, hmembers, hrun⟩ := bind_eq_ok.mp hrun
  obtain ⟨_, d3, hrequests, hrun⟩ := bind_eq_ok.mp hrun
  obtain ⟨_, d4, hdescribe, hrun⟩ := bind_eq_ok.mp hrun
  have hd1 : d1.Settled result (fun _ => False) (fun _ _ => True)
      (b.Gives (done ++ [.members plugin t model p])) :=
    KeepsSettled.of_run (lockstep_settled.start t p primary fun q hq =>
      hp _ (hq ▸ List.mem_cons_self)) (hd.widen [.members plugin t model p]) hstart
  -- The members change lines of this type alone.
  have hkeeps : KeepsSettled result (fun _ => False) (fun other _ => other ≠ t)
      (b.Gives (done ++ [.members plugin t model p])) (addMembers b plugin t model p) :=
    lockstep_settled.addMembers ⟨fun f hf => ⟨fun h => h rfl, _,
      List.mem_append_right _ (List.mem_singleton_self _), rfl, hf⟩, fun _ f h => h rfl⟩ hattributes
  have hd2 := hkeeps.of_run
    ⟨hd1.thunks, hd1.coherent, fun t e he _ => hd1.settles t e he trivial, hd1.within⟩ hmembers
  have hd3 := KeepsSettled.of_run (alike_forM fun q _ => lockstep_settled.request q) hd2 hrequests
  refine KeepsSettled.of_run ?_ (settled_describeConfigured hd3 hdescribe) hrun
  refine (lockstep_settled.ensure t).bind fun _ => (lockstep_settled.policyDirectives hfirst).bind
    fun before => (lockstep_settled.policyDirectives hp).bind fun own => ?_
  exact lockstep_settled.directType t fun _ _ => trivial

/-- What a policy brings along is added. -/
theorem adds_policyTypes (hm : ∀ e ∈ p.brought, e.2.Distinct)
    (hp : ∀ o ∈ p.directiveOptions, DirectiveOption.Coherent result o) :
    Adds result b (p.brought.map fun e => .mapping e.1 e.2) (addPolicyTypes model p) := by
  unfold addPolicyTypes
  split
  · rename_i q
    rw [List.map_eq_flatMap]
    refine adds_forM fun e he => adds_mapping (hm e he) fun o hoption => hp o ?_
    exact List.mem_cons_of_mem _ (List.mem_flatMap.mpr ⟨e, he, hoption⟩)
  · exact KeepsSettled.adds fun _ => alike_pure _
  · intro done d x d' _ _ hrun
    cases hrun

theorem adds_expose (type key : String) : Adds result b [] (expose type key model plugin) :=
  KeepsSettled.adds fun _ => lockstep_settled.expose type key model plugin

/-- **A model that is described under all its names adds what it contributes.** -/
theorem adds_addAllNames {named : String × TypeDeclaration}
    (hplugin : findPlugin named.2.model b.plugins = .ok (some plugin))
    (hm : ∀ t m, .mapping t m ∈ b.contributionsOf named → m.Distinct)
    (ho : ∀ o ∈ b.directiveOptionsOf named, DirectiveOption.Coherent result o) :
    Adds result b (b.contributionsOf named) (addAllNames b plugin named.1 named.2) := by
  have hattributes : ∀ a ∈ attributesOf b named.2, ∀ o ∈ a.2.directiveOptions,
      DirectiveOption.Coherent result o := fun a ha o hoption =>
    ho o (List.mem_append_left _ (List.mem_append_left _ (List.mem_append_left _
      (List.mem_flatMap.mpr ⟨a, ha, hoption⟩))))
  have hownOptions : ∀ o ∈ (Deed.ownPolicy b named.2).directiveOptions,
      DirectiveOption.Coherent result o := fun o hoption =>
    ho o (List.mem_append_left _ (List.mem_append_left _ (List.mem_append_right _ hoption)))
  have hotherOptions : ∀ a ∈ Deed.otherNames b named.2, ∀ o ∈ a.2.directiveOptions,
      DirectiveOption.Coherent result o := fun a ha o hoption =>
    ho o (List.mem_append_left _ (List.mem_append_right _
      (List.mem_flatMap.mpr ⟨a, ha, hoption⟩)))
  unfold Declarations.contributionsOf at hm ⊢
  rw [hplugin] at hm ⊢
  dsimp only at hm ⊢
  have hown : ∀ e ∈ (Deed.ownPolicy b named.2).brought, e.2.Distinct := fun e he => hm e.1 e.2
    (List.mem_append_left _ (List.mem_cons_of_mem _ (List.mem_map.mpr ⟨e, he, rfl⟩)))
  have hother : ∀ a ∈ Deed.otherNames b named.2, ∀ e ∈ a.2.brought, e.2.Distinct :=
    fun a ha e he => hm e.1 e.2 (List.mem_append_right _ (List.mem_flatMap.mpr
      ⟨a, ha, List.mem_cons_of_mem _ (List.mem_map.mpr ⟨e, he, rfl⟩)⟩))
  unfold addAllNames
  refine (adds_expose _ _).bind fun _ => (adds_populate hattributes hownOptions none
    fun o hoption => by cases hoption).bind fun _ => (adds_policyTypes hown hownOptions).bind
      fun _ => adds_forM fun a ha => ?_
  exact (adds_expose _ _).bind fun _ => (adds_populate hattributes (hotherOptions a ha) _
    hownOptions).bind fun _ => adds_policyTypes (hother a ha) (hotherOptions a ha)

/-- **A declared type adds what it contributes.** -/
theorem adds_addType {named : String × TypeDeclaration}
    (hm : ∀ t m, .mapping t m ∈ b.contributionsOf named → m.Distinct)
    (ho : ∀ o ∈ b.directiveOptionsOf named, DirectiveOption.Coherent result o) :
    Adds result b (b.contributionsOf named) (addType b named) := by
  intro done d x d' hapart hd hrun
  obtain ⟨found, d1, hlift, hrest⟩ := bind_eq_ok.mp hrun
  obtain ⟨hfound, rfl⟩ := lift_eq_ok hlift
  cases found with
  | some plugin => exact adds_addAllNames hfound hm ho done d1 x d' hapart hd hrest
  | none =>
    have hwarn : ∀ text d', warn text d1 = (.ok x, d') →
        Complete result b (done ++ b.contributionsOf named) d' := by
      intro text d' hrun
      refine (KeepsSettled.of_run (lockstep_settled.warn text) hd hrun).mono fun t f h => ?_
      exact h.imp fun _ h => h.imp (List.mem_append_left _) id
    obtain ⟨name, model⟩ := named
    cases model with
    | plain id attributes p => exact hwarn _ d' hrest
    | mapped model => exact hwarn _ d' hrest
    | inline m =>
      have hcontributions : b.contributionsOf (name, .inline m) = [.mapping name m] := by
        unfold Declarations.contributionsOf
        rw [hfound]
      rw [hcontributions] at hm hapart hwarn ⊢
      have hdistinct := hm name m (List.mem_singleton_self _)
      have hoptions : ∀ o ∈ m.directiveOptions, DirectiveOption.Coherent result o :=
        fun o hoption => ho o (List.mem_append_right _ hoption)
      dsimp only at hrest
      split at hrest
      · rename_i hwords
        obtain ⟨words, hwords⟩ := Option.isSome_iff_exists.mp hwords
        exact adds_words hwords hdistinct hoptions done d1 x d' hapart hd hrest
      · split at hrest
        · exact adds_mapping hdistinct hoptions done d1 x d' hapart hd hrest
        · exact hwarn _ d' hrest

end Synthesis
end SchemaForge
