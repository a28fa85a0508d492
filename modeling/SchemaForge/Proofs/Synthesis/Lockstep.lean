import SchemaForge.Proofs.Synthesis.Names

/-!
# Two syntheses side by side

The same declarations may be described into two drafts. What a description looks at is little:
the kind of the type, the return type of a line, how the field was resolved so far, and the
thunks. So if two drafts are related in a way that these agree and that every single step keeps,
then describing everything has the same outcome in both, good or bad, and leaves them related.
`Lockstep` says what the single steps are; the loops are gone through once, here. The options
that are declared may be required to be of some sort, and then so are the directives that they
are resolved to. What one draft keeps is the case of two drafts that are the same.
-/
namespace SchemaForge

/-! ### The options that are resolved -/

/-- The directive option of a declared field. -/
def FieldDeclaration.directiveOptions (e : FieldDeclaration) : List DirectiveOption :=
  match e.normalize with
  | .ok c => [c.directives]
  | .error _ => []

/-- The directive options of a mapping of fields, with that of its policy. -/
def FieldMap.directiveOptions : FieldMap → List DirectiveOption
  | .fields entries => (((policyIn? entries).bind PolicyOption.policy?).map (·.directives)).toList
      ++ (fieldEntries entries).flatMap (·.2.directiveOptions)
  | .value _ => []

/-- The directive options of a policy, with those of the fields that it brings along. -/
def PolicyOption.directiveOptions : PolicyOption → List DirectiveOption
  | .policy p => p.directives :: p.types.flatMap (·.2.directiveOptions)
  | .value _ => []

/-- The kind that a mapping of fields states: that of the words of an enum, or that of its
policy. -/
def FieldMap.kind? (m : FieldMap) : Option Language.TypeKind :=
  match TypeDeclaration.words? m, m with
  | some _, _ => some .enum
  | none, .value _ => none
  | none, .fields entries => ((policyIn? entries).bind PolicyOption.policy?).bind fun p =>
      if p.kind.truthy then Language.Parser.kindOf? p.kind.plain else none

namespace Declarations

variable (d : Declarations)

/-- The directive options of a declared type. -/
def directiveOptionsOf (named : String × TypeDeclaration) : List DirectiveOption :=
  (Synthesis.attributesOf d named.2).flatMap (·.2.directiveOptions)
    ++ (Deed.ownPolicy d named.2).directiveOptions
    ++ (Deed.otherNames d named.2).flatMap (·.2.directiveOptions)
    ++ match named.2 with
      | .inline m => m.directiveOptions
      | _ => []

/-- The directive options of everything that is declared, with these extensions. -/
def directiveOptions (x : Table (List (String × FieldEntry))) : List DirectiveOption :=
  d.types.flatMap d.directiveOptionsOf ++ x.flatMap fun e => (FieldMap.fields e.2).directiveOptions

end Declarations

namespace Draft

variable (d : Draft)

/-- Whether a type is a union so far. -/
def isUnion (type : String) : Bool :=
  ((Table.get? d.registry type).map (·.kind)).getD .object == .union

end Draft

/-- What a declaration of a type may touch. -/
structure Footprint where
  /-- Fields of types. -/
  fields : String → String → Prop
  /-- Kinds that types get. -/
  kinds : String → Language.TypeKind → Prop
  /-- Types that get fields from a mapping that states no kind. -/
  plain : String → Prop
  /-- Types that a class describes. -/
  described : String → Prop

namespace Footprint

/-- All that there is. -/
def all : Footprint := ⟨fun _ _ => True, fun _ _ => True, fun _ => True, fun _ => True⟩

/-- A mapping of fields of a type stays within a footprint. -/
structure AllowsMap (S : Footprint) (t : String) (m : FieldMap) : Prop where
  fields : ∀ f ∈ m.names, S.fields t f
  kind : ∀ k, m.kind? = some k → S.kinds t k
  plain : m.kind? = none → ∀ f ∈ m.names, S.plain t

/-- A contribution stays within a footprint. -/
def Allows (S : Footprint) (b : Declarations) : Contribution → Prop
  | .members plugin t c p => (∀ f ∈ b.exposedOf plugin c p, S.fields t f)
      ∧ ((plugin matches .classes) = true → S.described t)
  | .mapping t m => S.AllowsMap t m

theorem allowsMap_all (t : String) (m : FieldMap) : all.AllowsMap t m :=
  ⟨fun _ _ => trivial, fun _ _ => trivial, fun _ _ _ => trivial⟩

theorem allows_all (b : Declarations) (c : Contribution) : all.Allows b c := by
  cases c with
  | members plugin t c p => exact ⟨fun _ _ => trivial, fun _ => trivial⟩
  | mapping t m => exact allowsMap_all t m

end Footprint

namespace Synthesis

open Run

/-- Record a directive and use it on a type. -/
def useOnType (t : String) (c : Directive) : Synthesis Unit := do
  let use ← record c
  change (·.addTypeDirective t use)

/-- Record a directive and use it on a field. -/
def useOnField (t f : String) (c : Directive) : Synthesis Unit := do
  let use ← record c
  change (·.addFieldDirective t f use)

/-- What the single steps keep of two drafts when fields are declared, with options of some sort
that mean directives of some sort. -/
structure FieldSteps (admits : DirectiveOption → Prop) (means : Directive → Prop)
    (fields : String → String → Prop) (R : Draft → Draft → Prop) : Prop where
  /-- Both agree on what a field returns. -/
  line : ∀ {d d' t f}, R d d' → fields t f →
    ((d.registry.line? t f).getD {}).type = ((d'.registry.line? t f).getD {}).type
  /-- Both agree on how a field is resolved, by an option of this sort. -/
  known : ∀ {d d' t f}, R d d' → fields t f → d.configOf? t f = d'.configOf? t f
    ∧ ∀ c ∈ d.configOf? t f, admits c.directives
  /-- An option is resolved. -/
  resolve : ∀ {o}, admits o → Alike R (resolve o) (resolve o)
  /-- What it is resolved to is of the other sort. -/
  resolved : ∀ {o d d' ds d2}, R d d' → admits o → Synthesis.resolve o d = (.ok ds, d2) →
    ∀ c ∈ ds, means c
  /-- A list of directives of this sort is an option of the other. -/
  list : ∀ {ds : List Directive}, (∀ c ∈ ds, means c) → admits (.list (ds.map .directive))
  /-- A type uses a directive. -/
  useOnType : ∀ t {c}, means c → Alike R (useOnType t c) (useOnType t c)
  /-- A field uses a directive. -/
  useOnField : ∀ {t f c}, fields t f → means c → Alike R (useOnField t f c) (useOnField t f c)
  /-- A line is changed in something else. -/
  field : ∀ {t f u}, fields t f → (∀ l : FieldLine, (u l).directives = l.directives) →
    Alike R (change (·.updateField t f u)) (change (·.updateField t f u))
  /-- How a field is resolved is set. -/
  configure : ∀ {t f}, fields t f → ∀ c : FieldConfig,
    admits c.directives → Alike R (configure t f c) (configure t f c)
  /-- The policy of a type is set. -/
  govern : ∀ t (p : Policy), admits p.directives →
    Alike R (modify fun d : Draft =>
        { d with extensions := d.extensions.setPolicy t (.policy p) none } : Synthesis PUnit)
      (modify fun d => { d with extensions := d.extensions.setPolicy t (.policy p) none })

/-- What the single steps of a description keep of two drafts, within a footprint. -/
structure Lockstep (admits : DirectiveOption → Prop) (means : Directive → Prop) (S : Footprint)
    (R : Draft → Draft → Prop) : Prop extends FieldSteps admits means S.fields R where
  /-- No option is one of this sort. -/
  absent : admits .none
  /-- Both agree on whether a type is a union that gets fields from a mapping without a kind. -/
  union : ∀ {d d' t}, R d d' → S.plain t → d.isUnion t = d'.isUnion t
  /-- A type is added. -/
  ensure : ∀ t, Alike R (change (·.ensureType t)) (change (·.ensureType t))
  /-- The kind of a type is set. -/
  kind : ∀ {t k}, S.kinds t k → Alike R (change (·.setKind t k)) (change (·.setKind t k))
  /-- A type is replaced by one without directives. -/
  put : ∀ {t}, S.described t → ∀ lines : Table FieldLine, ClassLines S.fields t lines →
    Alike R (change fun r => Table.put r t { lines }) (change fun r => Table.put r t { lines })
  /-- The description of a model begins. -/
  start : ∀ t p primary, (∀ q, p = PolicyOption.policy q → admits q.directives) →
      Alike R (modify fun d : Draft => { d with
          extensions := d.extensions.setPolicy t p primary
          configs := d.configs.ensure t [] } : Synthesis PUnit)
        (modify fun d => { d with
          extensions := d.extensions.setPolicy t p primary
          configs := d.configs.ensure t [] })
  /-- Filters are asked for. -/
  request : ∀ q, Alike R (request q) (request q)
  /-- The model behind a type is noted. -/
  expose : ∀ t key c plugin, Alike R (expose t key c plugin) (expose t key c plugin)
  /-- A warning is noted. -/
  warn : ∀ text, Alike R (warn text) (warn text)

variable {α β : Type} {admits : DirectiveOption → Prop} {means : Directive → Prop} {S : Footprint}
  {fields : String → String → Prop} {R : Draft → Draft → Prop} {t f : String}

theorem alike_synthesisLift_bind {x : Except Failure α} {g g' : α → Synthesis β}
    (h : ∀ a, x = .ok a → Alike R (g a) (g' a)) : Alike R (lift x >>= g) (lift x >>= g') :=
  alike_lift_bind h

/-- Set the kind of a type by its word. -/
def stateKind (t kind : String) : Synthesis Unit := do
  let r ← lift ((← get).registry.create kind t)
  change fun _ => r

/-- Note the policy of a type and use its directives. -/
def governs (t : String) (p : Policy) : Synthesis Unit := do
  modify fun d => { d with extensions := d.extensions.setPolicy t (.policy p) none }
  directType t (← resolve p.directives)

/-- A kind that is given by its word is set if it is one. -/
theorem stateKind_apply (t kind : String) (d : Draft) :
    stateKind t kind d = (match Language.Parser.kindOf? kind with
      | some k => change (·.setKind t k)
      | none => throw (Failure.unknownVariant kind t)) d := by
  change (lift (d.registry.create kind t) >>= fun r => change fun _ => r) d = _
  unfold Registry.create
  cases Language.Parser.kindOf? kind <;> rfl

/-- A policy within a mapping first states the kind of the type, if it has one. -/
theorem declarePolicy_eq (t : String) (p : Policy) : declarePolicy t p =
    if p.kind.truthy then do stateKind t p.kind.plain; governs t p else governs t p := by
  unfold declarePolicy stateKind governs
  split
  · simp only [bind_assoc]
  · rfl

namespace FieldSteps

/-! ### Declared fields -/

/-- What leaves in place whether a type is a union keeps that two drafts agree on it. -/
theorem alike_isUnion {m m' : Synthesis α} (h : Alike R m m')
    (hm : ∀ d, (m d).2.isUnion t = d.isUnion t) (hm' : ∀ d, (m' d).2.isUnion t = d.isUnion t) :
    Alike (fun d d' => R d d' ∧ d.isUnion t = d'.isUnion t) m m' := fun d d' hd => by
  obtain ⟨hout, hstate⟩ := h d d' hd.1
  exact ⟨hout, hstate, (hm d).trans (hd.2.trans (hm' d').symm)⟩

theorem isUnion_updateType (d : Draft) (type : String) {u : TypeEntry → TypeEntry}
    (hu : ∀ e, (u e).kind = e.kind) :
    Draft.isUnion { d with registry := d.registry.updateType type u } t = d.isUnion t := by
  unfold Draft.isUnion
  dsimp only
  rw [Registry.updateType, Table.get?_update]
  split
  · rename_i h
    rw [beq_iff_eq.mp h, Option.map_some, Option.getD_some, hu]
    cases Table.get? d.registry type <;> rfl
  · rfl

theorem isUnion_updateField (d : Draft) (type field : String) (u : FieldLine → FieldLine) :
    Draft.isUnion { d with registry := d.registry.updateField type field u } t = d.isUnion t :=
  isUnion_updateType d type fun _ => rfl

/-- So does using a directive, whether or not it can be recorded. -/
theorem isUnion_use (d : Draft) (c : Directive) {u : String → Registry → Registry}
    (hu : ∀ (d : Draft) use, Draft.isUnion { d with registry := u use d.registry } t = d.isUnion t) :
    ((record c >>= fun use => change (u use)) d).2.isUnion t = d.isUnion t := by
  rw [bind_apply]
  cases hrecord : (record c d).1 with
  | error e =>
    rw [show record c d = (.error e, (record c d).2) from Prod.ext hrecord rfl]
    rfl
  | ok use =>
    rw [show record c d = (.ok use, (record c d).2) from Prod.ext hrecord rfl]
    exact hu (record c d).2 use

variable (L : FieldSteps admits means fields R)

include L

/-- Declaring fields leaves the kinds of types, so drafts that agree on one go on to agree. -/
theorem settled (t : String) :
    FieldSteps admits means fields fun d d' => R d d' ∧ d.isUnion t = d'.isUnion t where
  line h := L.line h.1
  known h := L.known h.1
  resolve ho := alike_isUnion (L.resolve ho) (fun _ => rfl) fun _ => rfl
  resolved h := L.resolved h.1
  list := L.list
  useOnType type _ hc := alike_isUnion (L.useOnType type hc)
    (fun d => isUnion_use d _ fun d _ => isUnion_updateType d type fun _ => rfl)
    fun d => isUnion_use d _ fun d _ => isUnion_updateType d type fun _ => rfl
  useOnField hf hc := alike_isUnion (L.useOnField hf hc)
    (fun d => isUnion_use d _ fun d _ => isUnion_updateField d _ _ _)
    fun d => isUnion_use d _ fun d _ => isUnion_updateField d _ _ _
  field hf hu := alike_isUnion (L.field hf hu) (fun d => isUnion_updateField d _ _ _)
    fun d => isUnion_updateField d _ _ _
  configure hf c hc := alike_isUnion (L.configure hf c hc) (fun _ => rfl) fun _ => rfl
  govern type p hp := alike_isUnion (L.govern type p hp) (fun _ => rfl) fun _ => rfl

theorem directType (t : String) {ds : List Directive} (hds : ∀ c ∈ ds, means c) :
    Alike R (directType t ds) (directType t ds) :=
  alike_forM fun c hc => L.useOnType t (hds c hc)

theorem ensureField (hf : fields t f) :
    Alike R (change (·.ensureField t f)) (change (·.ensureField t f)) :=
  L.field (u := id) hf fun _ => rfl

theorem setFieldType (hf : fields t f) (signature : String) :
    Alike R (change (·.setFieldType t f signature)) (change (·.setFieldType t f signature)) :=
  L.field (u := fun line => { line with type := signature }) hf fun _ => rfl

theorem addFetchArguments (hf : fields t f) (isList : Bool) :
    Alike R (change (·.updateField t f (Registry.addFetchArguments · t f isList)))
      (change (·.updateField t f (Registry.addFetchArguments · t f isList))) :=
  L.field hf fun l => (addFetchArguments_keeps l t f isList).2

theorem addInputs (hf : fields t f) (c : FieldConfig) :
    Alike R (addInputs t f c) (addInputs t f c) := by
  unfold Synthesis.addInputs
  refine alike_ite (fun _ => alike_get_bind fun d d' hd => ?_) fun _ => ?_
  · dsimp only
    rw [L.line hd hf]
    have hstore : Alike R (do
        let isList ← lift (Signature.isList ((d'.registry.line? t f).getD {}).type)
        change (·.updateField t f (Registry.addFetchArguments · t f isList)))
        (do
        let isList ← lift (Signature.isList ((d'.registry.line? t f).getD {}).type)
        change (·.updateField t f (Registry.addFetchArguments · t f isList))) :=
      alike_synthesisLift_bind fun isList _ => L.addFetchArguments hf isList
    exact alike_ite (fun _ => (alike_throw _).bind fun _ => hstore) fun _ => hstore
  · split
    · refine alike_forM fun a _ => ?_
      obtain ⟨name, signature⟩ := a
      cases signature with
      | text s => exact L.field (u := (·.addArgument name s)) hf fun _ => rfl
      | _ => exact alike_pure _
    · exact alike_pure _

theorem describe (hf : fields t f) {c : FieldConfig} (hc : admits c.directives) :
    Alike R (describe t f c) (describe t f c) := by
  refine (L.ensureField hf).bind fun _ => (L.addInputs hf c).bind fun _ => ?_
  refine (L.resolve hc).bind_of_run fun ds d _ d2 hd hrun =>
    (alike_forIn (fun x hx _ => ?_) _).bind fun _ => alike_pure _
  have huse := L.useOnField hf (L.resolved hd hc hrun x hx)
  have hloop := huse.bind fun _ => alike_pure (ForInStep.yield PUnit.unit)
  simpa only [Synthesis.useOnField, bind_assoc] using hloop

/-- A configuration is merged with what is known and set. -/
theorem configureMerged (hf : fields t f) {known : Option FieldConfig}
    (hknown : ∀ c ∈ known, admits c.directives) (owner : Option ModelRef) {c : FieldConfig}
    (hc : admits c.directives) :
    Alike R (merged known owner c >>= fun c => Synthesis.configure t f c)
      (merged known owner c >>= fun c => Synthesis.configure t f c) := by
  unfold Synthesis.merged
  split
  · exact L.configure hf _ hc
  · cases known with
    | none => exact L.configure hf _ hc
    | some old =>
      dsimp only
      split
      · have hold := hknown old rfl
        rw [bind_assoc]
        refine (L.resolve hold).bind_of_run fun before d _ _ hd hbefore => ?_
        rw [bind_assoc]
        refine (L.resolve hc).bind_of_run fun more d' _ _ hd' hmore => L.configure hf _ ?_
        refine L.list fun x hx => ?_
        rcases List.mem_append.mp hx with hx | hx
        · exact L.resolved hd hold hbefore x hx
        · exact L.resolved hd' hc hmore x hx
      · exact L.configure hf _ hc

theorem noteConfig (hf : fields t f) (owner : Option ModelRef) {c : FieldConfig}
    (hc : admits c.directives) :
    Alike R (noteConfig t f owner c) (noteConfig t f owner c) := by
  unfold Synthesis.noteConfig
  refine alike_ite (fun _ => alike_get_bind fun d d' hd => ?_) fun _ => alike_pure _
  obtain ⟨hknown, hadmits⟩ := L.known hd hf
  change Alike R (Synthesis.merged (d.configOf? t f) owner c >>= fun c => Synthesis.configure t f c)
    (Synthesis.merged (d'.configOf? t f) owner c >>= fun c => Synthesis.configure t f c)
  rw [← hknown]
  exact L.configureMerged hf hadmits owner hc

theorem declareField (hunion : ∀ {d d'}, R d d' → d.isUnion t = d'.isUnion t)
    (hf : fields t f) (owner : Option ModelRef)
    {e : FieldDeclaration} (he : ∀ o ∈ e.directiveOptions, admits o) :
    Alike R (declareField t owner f e) (declareField t owner f e) := by
  unfold Synthesis.declareField
  refine alike_get_bind fun d d' hd => ?_
  have hunion := hunion hd
  unfold Draft.isUnion at hunion
  dsimp only
  rw [hunion]
  refine alike_ite (fun _ => L.ensureField hf) fun _ => ?_
  refine alike_synthesisLift_bind fun c hc => (L.ensureField hf).bind fun _ => ?_
  have hadmits : admits c.directives := he _ (by
    rw [FieldDeclaration.directiveOptions, hc]
    exact List.mem_singleton_self _)
  have hrest : Alike R (do Synthesis.describe t f c; Synthesis.noteConfig t f owner c)
      (do Synthesis.describe t f c; Synthesis.noteConfig t f owner c) :=
    (L.describe hf hadmits).bind fun _ => L.noteConfig hf owner hadmits
  exact alike_ite (fun _ => (L.setFieldType hf _).bind fun _ => hrest) fun _ => hrest

/-- The fields of a mapping are declared alike where it is known whether the type is a union. -/
theorem declareFields (hunion : ∀ {d d'}, R d d' → d.isUnion t = d'.isUnion t)
    {es : List (String × FieldDeclaration)} (hf : ∀ e ∈ es, fields t e.1)
    (ho : ∀ e ∈ es, ∀ o ∈ e.2.directiveOptions, admits o)
    (owner : Option ModelRef) :
    Alike R (es.forM fun (f, e) => Synthesis.declareField t owner f e)
      (es.forM fun (f, e) => Synthesis.declareField t owner f e) :=
  alike_forM fun e he => L.declareField hunion (hf e he) owner (ho e he)

/-- A policy governs a type and gives it directives. -/
theorem governs (t : String) {p : Policy} (hp : admits p.directives) :
    Alike R (Synthesis.governs t p) (Synthesis.governs t p) :=
  (L.govern t p hp).bind fun _ => (L.resolve hp).bind_of_run fun _ _ _ _ hd hrun =>
    L.directType t (L.resolved hd hp hrun)

end FieldSteps

namespace Lockstep

variable (L : Lockstep admits means S R)

include L

omit L in
theorem isUnion_setKind (t : String) (k : Language.TypeKind) (d : Draft) :
    Draft.isUnion { d with registry := d.registry.setKind t k } t = (k == .union) := by
  unfold Draft.isUnion
  dsimp only
  rw [Registry.setKind, Registry.updateType, Table.get?_update, if_pos (beq_self_eq_true t)]
  rfl

/-- Once the kind of a type is set, both drafts agree on whether it is a union. -/
theorem stateKind_bind {kind : String} (hk : ∀ k, Language.Parser.kindOf? kind = some k → S.kinds t k)
    {g g' : Unit → Synthesis α}
    (h : ∀ u, Alike (fun d d' => R d d' ∧ d.isUnion t = d'.isUnion t) (g u) (g' u)) :
    Alike R (stateKind t kind >>= g) (stateKind t kind >>= g') := by
  intro d d' hd
  rw [bind_apply, bind_apply, stateKind_apply, stateKind_apply]
  cases hword : Language.Parser.kindOf? kind with
  | none => exact ⟨rfl, hd⟩
  | some k =>
    obtain ⟨-, hset⟩ := L.kind (hk k hword) d d' hd
    have hunion := (isUnion_setKind t k d).trans (isUnion_setKind t k d').symm
    obtain ⟨hout, hstate, -⟩ := h ⟨⟩ _ _ ⟨hset, hunion⟩
    exact ⟨hout, hstate⟩

theorem declare {m : FieldMap} (hm : S.AllowsMap t m)
    (ho : ∀ o ∈ m.directiveOptions, admits o) (owner : Option ModelRef) :
    Alike R (declare t m owner) (declare t m owner) := by
  refine (L.ensure t).bind fun _ => ?_
  split
  · rename_i m _ _ words hwords
    have hnames : m.names = words := by
      unfold FieldMap.names
      rw [hwords]
    have hkind : m.kind? = some .enum := by
      unfold FieldMap.kind?
      rw [hwords]
    exact (L.kind (hm.kind _ hkind)).bind fun _ => alike_forM fun w hw =>
      L.ensureField (hm.fields w (hnames ▸ hw))
  · exact alike_throw _
  · rename_i entries hwords
    have hnames : FieldMap.names (.fields entries) = (fieldEntries entries).map Prod.fst := by
      unfold FieldMap.names
      rw [hwords]
    have hfield : ∀ e ∈ fieldEntries entries, e.1 ∈ FieldMap.names (.fields entries) :=
      fun e he => hnames ▸ List.mem_map_of_mem he
    have hoptions : ∀ e ∈ fieldEntries entries, ∀ o ∈ e.2.directiveOptions,
        admits o := fun e he o hoption =>
      ho o (List.mem_append_right _ (List.mem_flatMap.mpr ⟨e, he, hoption⟩))
    have hkind : FieldMap.kind? (.fields entries)
        = ((policyIn? entries).bind PolicyOption.policy?).bind fun p =>
          if p.kind.truthy then Language.Parser.kindOf? p.kind.plain else none := by
      unfold FieldMap.kind?
      rw [hwords]
    have hplain : FieldMap.kind? (.fields entries) = none → Alike R
        ((fieldEntries entries).forM fun (f, e) => Synthesis.declareField t owner f e)
        ((fieldEntries entries).forM fun (f, e) => Synthesis.declareField t owner f e) :=
      fun hnone => alike_forM fun e he => L.declareField
        (fun hd => L.union hd (hm.plain hnone _ (hfield e he))) (hm.fields _ (hfield e he)) owner
        (hoptions e he)
    cases hp : (policyIn? entries).bind PolicyOption.policy? with
    | none =>
      rw [hp] at hkind
      exact hplain hkind
    | some p =>
      rw [hp, Option.bind_some] at hkind
      have hpolicy : admits p.directives :=
        ho _ (List.mem_append_left _ (by rw [hp]; exact List.mem_singleton_self _))
      dsimp only
      rw [declarePolicy_eq]
      split
      · rename_i htruthy
        rw [if_pos htruthy] at hkind
        rw [bind_assoc]
        refine L.stateKind_bind (fun k hk => hm.kind k (hkind.trans hk)) fun _ => ?_
        have steps := L.toFieldSteps.settled t
        exact (steps.governs t hpolicy).bind fun _ => steps.declareFields And.right
          (fun e he => hm.fields _ (hfield e he)) hoptions owner
      · rename_i htruthy
        rw [if_neg htruthy] at hkind
        exact (L.governs t hpolicy).bind fun _ => hplain hkind

/-! ### Models -/

theorem addClass (hdescribed : S.described t) (b : Declarations)
    (c : TypeDeclaration) (p : PolicyOption)
    (hf : ∀ a ∈ (attributesOf b c).filterMap (fieldOfAttribute? p), S.fields t a.1)
    (ho : ∀ a ∈ attributesOf b c, ∀ o ∈ a.2.directiveOptions, admits o) :
    Alike R (addClass b t c p) (addClass b t c p) := by
  have hfield : ∀ a ∈ attributesOf b c, ∀ a', fieldOfAttribute? p a = some a' → S.fields t a'.1 :=
    fun a ha a' ha' => hf a' (List.mem_filterMap.mpr ⟨a, ha, ha'⟩)
  have hyields : Yields (ClassLines S.fields t) ((attributesOf b c).foldlM (addAttribute t p) []) :=
    yields_foldlM (fun lines a ha hlines =>
      yields_addAttribute p lines a hlines (hfield a ha)) classLines_nil
  refine (alike_foldlM (fun lines a ha => ?_) _).bind_of_run fun lines s _ s2 _ hrun =>
    L.put hdescribed lines (hyields s lines s2 hrun)
  have hf := hfield a ha
  have ho := ho a ha
  obtain ⟨f, e⟩ := a
  unfold addAttribute
  dsimp only
  split
  · exact alike_pure _
  · rename_i c active hc
    refine alike_ite (fun _ => alike_pure _) fun hpublic =>
      alike_synthesisLift_bind fun exposed hexposed => ?_
    cases exposed with
    | false => exact alike_pure _
    | true =>
      rw [if_neg (by simp)]
      refine alike_ite (fun _ => alike_pure _) fun htype => ?_
      have hf := hf _ (fieldOfAttribute?_of_exposed hc hpublic hexposed (by simpa using htype))
      have hadmits : admits c.directives := by
        refine ho _ ?_
        unfold attributeConfig? at hc
        split at hc
        · cases hc
          exact List.mem_singleton_self _
        · cases hc
          exact List.mem_singleton_self _
        · cases hc
      exact alike_ite (fun _ => (L.configure hf c hadmits).bind fun _ => alike_pure _)
        fun _ => alike_pure _

theorem addColumn (b : Declarations) (table : Table String) (p : PolicyOption) (c : Column)
    (hf : p.exposes c.key = .ok true → (!holdsAssociation c) = true →
      (ColumnType.fieldType table c.type).isSome = true → S.fields t c.key) :
    Alike R (addColumn b table t p c) (addColumn b table t p c) := by
  refine alike_synthesisLift_bind fun exposed hexposed => alike_ite (fun hkept => ?_)
    fun _ => alike_pure _
  obtain ⟨rfl, hkept⟩ := Bool.and_eq_true_iff.mp hkept
  split
  · rename_i name hname
    exact L.setFieldType (hf hexposed hkept (by rw [hname]; rfl)) _
  · exact L.warn _

theorem addVirtual (b : Declarations) (p : PolicyOption) (v : Virtual)
    (hf : p.exposes v.key = .ok true → S.fields t v.key) :
    Alike R (addVirtual b t p v) (addVirtual b t p v) := by
  refine alike_synthesisLift_bind fun exposed hexposed => alike_ite (fun hkept => ?_)
    fun _ => alike_pure _
  obtain rfl : exposed = true := hkept
  exact alike_synthesisLift_bind fun _ _ => L.setFieldType (hf hexposed) _

theorem addAssociation (b : Declarations) (m : Model) (p : PolicyOption) (a : Association)
    (hf : p.exposes a.key = .ok true → (b.typeOf? a.target).isSome = true → S.fields t a.key) :
    Alike R (addAssociation b m t p a) (addAssociation b m t p a) := by
  refine alike_synthesisLift_bind fun exposed hexposed => alike_ite (fun hkept => ?_)
    fun _ => alike_pure _
  obtain rfl : exposed = true := hkept
  split
  · exact alike_pure _
  · rename_i target htarget
    have hkey : S.fields t a.key := hf hexposed (by rw [htarget]; rfl)
    exact alike_ite (fun _ => (L.setFieldType hkey _).bind fun _ =>
      (L.addFetchArguments hkey true).bind fun _ => L.configure hkey _ L.absent)
      fun _ => L.setFieldType hkey _

theorem addModel (b : Declarations) (own : Table String) (m : Model)
    (p : PolicyOption) (hf : ∀ f ∈ b.fieldsOfModel own m, p.exposes f = .ok true → S.fields t f) :
    Alike R (addModel b own t m p) (addModel b own t m p) := by
  have hrequests : Alike R (associationRequests b m t p) (associationRequests b m t p) :=
    alike_filterMapM fun a _ => alike_synthesisLift_bind fun exposed _ =>
      alike_ite (fun _ => alike_pure _) fun _ => alike_pure _
  refine (L.ensure t).bind fun _ => (alike_forM fun c hc => ?_).bind fun _ =>
    (alike_forM fun v hv => ?_).bind fun _ => (alike_forM fun a ha => ?_).bind fun _ => hrequests
  · refine L.addColumn b _ p c fun hexposed hkept hsome => hf c.key ?_ hexposed
    exact List.mem_append_left _ (List.mem_append_left _ (List.mem_map_of_mem
      (List.mem_filter.mpr ⟨hc, Bool.and_eq_true_iff.mpr ⟨hkept, hsome⟩⟩)))
  · refine L.addVirtual b p v (hf v.key ?_)
    exact List.mem_append_left _ (List.mem_append_right _ (List.mem_map_of_mem hv))
  · refine L.addAssociation b m p a fun hexposed hsome => hf a.key ?_ hexposed
    exact List.mem_append_right _ (List.mem_map_of_mem (List.mem_filter.mpr ⟨ha, hsome⟩))

theorem addMembers {b : Declarations} {plugin : Plugin} {c : TypeDeclaration} {p : PolicyOption}
    (hc : S.Allows b (.members plugin t c p))
    (ho : ∀ a ∈ attributesOf b c, ∀ o ∈ a.2.directiveOptions, admits o) :
    Alike R (addMembers b plugin t c p) (addMembers b plugin t c p) := by
  unfold Synthesis.addMembers
  split
  · exact (L.addClass (hc.2 rfl) b _ p (fun a ha => hc.1 a.1 (List.mem_map_of_mem ha))
      ho).bind fun _ => alike_pure _
  · refine L.addModel b _ _ p fun f hmem hexposed => hc.1 f ?_
    exact List.mem_filter.mpr ⟨hmem, by rw [hexposed]⟩
  · exact alike_throw _
  · exact alike_throw _

end Lockstep

/-- Describe the fields of a type that are configured, and ask for their filters. -/
def describeConfigured (type : String) : Synthesis Unit := do
  let configs := ((← get).configs.get? type).getD []
  configs.forM fun (field, c) => describe type field c
  if configs.any (·.2.hasFetchArguments) then request (.configured type configs)

/-- A model is described by its members, then by what is configured, then by directives. -/
theorem populate_eq (b : Declarations) (plugin : Plugin) (type : String) (c : TypeDeclaration)
    (p : PolicyOption) (primary : Option String) (first : PolicyOption) :
    populate b plugin type c p primary first = (do
      modify fun d => { d with
        extensions := d.extensions.setPolicy type p primary
        configs := d.configs.ensure type [] }
      let requests ← addMembers b plugin type c p
      requests.forM request
      describeConfigured type
      change (·.ensureType type)
      let before ← policyDirectives first
      let own ← policyDirectives p
      directType type (before ++ own)) := by
  unfold populate describeConfigured
  simp only [bind_assoc]
  congr 1
  funext _
  congr 1
  funext requests
  congr 1
  funext _
  congr 1
  funext d
  congr 1
  funext _
  split <;> rfl

namespace Lockstep

variable (L : Lockstep admits means S R)

include L

theorem policyDirectives {p : PolicyOption}
    (hp : ∀ o ∈ p.directiveOptions, admits o) :
    Alike R (policyDirectives p) (policyDirectives p) := by
  unfold Synthesis.policyDirectives
  split
  · exact L.resolve (hp _ List.mem_cons_self)
  · exact alike_pure _
  · exact alike_throw _

/-- The directives of a policy are of the sort that options mean. -/
theorem resolved_policyDirectives {p : PolicyOption} (hp : ∀ o ∈ p.directiveOptions, admits o)
    {d d' d2 : Draft} (hd : R d d') {ds : List Directive}
    (hrun : Synthesis.policyDirectives p d = (.ok ds, d2)) : ∀ c ∈ ds, means c := by
  unfold Synthesis.policyDirectives at hrun
  split at hrun
  · exact L.resolved hd (hp _ List.mem_cons_self) hrun
  · cases hrun
    exact fun c hc => by cases hc
  · cases hrun

theorem addPolicyTypes (c : TypeDeclaration) {p : PolicyOption}
    (hp : ∀ e ∈ p.brought, S.AllowsMap e.1 e.2)
    (ho : ∀ o ∈ p.directiveOptions, admits o) :
    Alike R (addPolicyTypes c p) (addPolicyTypes c p) := by
  unfold Synthesis.addPolicyTypes
  split
  · refine alike_forM fun e he => (L.declare (hp e he) (fun o hoption => ?_) _).bind
      fun _ => L.request _
    exact ho o (List.mem_cons_of_mem _ (List.mem_flatMap.mpr ⟨e, he, hoption⟩))
  · exact alike_pure _
  · exact alike_throw _

/-! ### Everything that is declared -/

variable (hconfigured : ∀ t, Alike R (describeConfigured t) (describeConfigured t))

include hconfigured

theorem populate {b : Declarations} {plugin : Plugin} {c : TypeDeclaration} {p : PolicyOption}
    (hc : S.Allows b (.members plugin t c p)) (primary : Option String) {first : PolicyOption}
    (ho : ∀ a ∈ attributesOf b c, ∀ o ∈ a.2.directiveOptions, admits o)
    (hp : ∀ o ∈ p.directiveOptions, admits o)
    (hfirst : ∀ o ∈ first.directiveOptions, admits o) :
    Alike R (populate b plugin t c p primary first) (populate b plugin t c p primary first) := by
  rw [populate_eq]
  refine (L.start t p primary fun q hq => hp _ (hq ▸ List.mem_cons_self)).bind fun _ => ?_
  refine (L.addMembers hc ho).bind fun requests => ?_
  refine (alike_forM fun q _ => L.request q).bind fun _ => (hconfigured t).bind fun _ => ?_
  refine (L.ensure t).bind fun _ => (L.policyDirectives hfirst).bind_of_run
    fun before _ _ _ hd hbefore => (L.policyDirectives hp).bind_of_run
      fun own _ _ _ hd' hown => L.directType t fun x hx => ?_
  rcases List.mem_append.mp hx with hx | hx
  · exact L.resolved_policyDirectives hfirst hd hbefore x hx
  · exact L.resolved_policyDirectives hp hd' hown x hx

theorem addAllNames {b : Declarations} {plugin : Plugin} {named : String × TypeDeclaration}
    (hplugin : findPlugin named.2.model b.plugins = .ok (some plugin))
    (h : ∀ c ∈ b.contributionsOf named, S.Allows b c)
    (ho : ∀ o ∈ b.directiveOptionsOf named, admits o) :
    Alike R (addAllNames b plugin named.1 named.2) (addAllNames b plugin named.1 named.2) := by
  have hattributes : ∀ a ∈ attributesOf b named.2, ∀ o ∈ a.2.directiveOptions,
      admits o := fun a ha o hoption =>
    ho o (List.mem_append_left _ (List.mem_append_left _ (List.mem_append_left _
      (List.mem_flatMap.mpr ⟨a, ha, hoption⟩))))
  have hownOptions : ∀ o ∈ (Deed.ownPolicy b named.2).directiveOptions,
      admits o := fun o hoption =>
    ho o (List.mem_append_left _ (List.mem_append_left _ (List.mem_append_right _ hoption)))
  have hotherOptions : ∀ a ∈ Deed.otherNames b named.2, ∀ o ∈ a.2.directiveOptions,
      admits o := fun a ha o hoption =>
    ho o (List.mem_append_left _ (List.mem_append_right _
      (List.mem_flatMap.mpr ⟨a, ha, hoption⟩)))
  unfold Declarations.contributionsOf at h
  rw [hplugin] at h
  dsimp only at h
  have hown : ∀ c ∈ Contribution.members plugin named.1 named.2 (Deed.ownPolicy b named.2)
      :: (Deed.ownPolicy b named.2).brought.map (fun e => Contribution.mapping e.1 e.2),
      S.Allows b c := fun c hc => h c (List.mem_append_left _ hc)
  have hother : ∀ a ∈ Deed.otherNames b named.2, ∀ c ∈ Contribution.members plugin a.1 named.2 a.2
      :: a.2.brought.map (fun e => Contribution.mapping e.1 e.2), S.Allows b c :=
    fun a ha c hc => h c (List.mem_append_right _ (List.mem_flatMap.mpr ⟨a, ha, hc⟩))
  refine (L.expose _ _ _ _).bind fun _ => ?_
  refine (L.populate hconfigured (hown _ List.mem_cons_self) none hattributes hownOptions
    fun o hoption => by cases hoption).bind fun _ => ?_
  refine (L.addPolicyTypes _ (fun e he => hown _ (List.mem_cons_of_mem _
    (List.mem_map_of_mem he))) hownOptions).bind fun _ => ?_
  refine alike_forM fun a ha => (L.expose _ _ _ _).bind fun _ => ?_
  refine (L.populate hconfigured (hother a ha _ List.mem_cons_self) _ hattributes
    (hotherOptions a ha) hownOptions).bind fun _ => ?_
  exact L.addPolicyTypes _ (fun e he => hother a ha _ (List.mem_cons_of_mem _
    (List.mem_map_of_mem he))) (hotherOptions a ha)

/-- **A declared type is described alike into two drafts that the steps keep related.** -/
theorem addType {b : Declarations} {named : String × TypeDeclaration}
    (h : ∀ c ∈ b.contributionsOf named, S.Allows b c)
    (ho : ∀ o ∈ b.directiveOptionsOf named, admits o) :
    Alike R (addType b named) (addType b named) := by
  refine alike_synthesisLift_bind fun found hfound => ?_
  cases found with
  | some plugin => exact L.addAllNames hconfigured hfound h ho
  | none =>
    obtain ⟨name, c⟩ := named
    cases c with
    | plain id attributes p => exact L.warn _
    | mapped model => exact L.warn _
    | inline m =>
      have hm : S.AllowsMap name m := h (.mapping name m) (by
        unfold Declarations.contributionsOf
        rw [show findPlugin (TypeDeclaration.inline m).model b.plugins = .ok none from hfound]
        exact List.mem_singleton_self _)
      have hoptions : ∀ o ∈ m.directiveOptions, admits o :=
        fun o hoption => ho o (List.mem_append_right _ hoption)
      refine alike_ite (fun _ => L.declare hm hoptions none) fun _ => ?_
      exact alike_ite (fun _ => (L.declare hm hoptions none).bind fun _ => L.request _)
        fun _ => L.warn _

omit hconfigured in
/-- The scalars that are implemented come first. -/
theorem addScalars {b : Declarations} (h : ∀ t, S.kinds t .scalar) :
    Alike R (addScalars b) (addScalars b) :=
  alike_forM fun t _ => alike_ite (fun _ => L.kind (h t)) fun _ => alike_pure _

/-- All declared types are described alike. -/
theorem addTypes {b : Declarations} {x : Table (List (String × FieldEntry))}
    (h : ∀ c ∈ b.contributions x, S.Allows b c) (ho : ∀ o ∈ b.directiveOptions x, admits o) :
    Alike R (b.types.forM (Synthesis.addType b)) (b.types.forM (Synthesis.addType b)) := by
  refine alike_forM fun named hnamed => L.addType hconfigured (fun c hc => ?_) fun o hoption => ?_
  · exact h c (List.mem_append_left _ (List.mem_flatMap.mpr ⟨named, hnamed, hc⟩))
  · exact ho o (List.mem_append_left _ (List.mem_flatMap.mpr ⟨named, hnamed, hoption⟩))

omit hconfigured in
/-- So are the extensions. -/
theorem declareExtensions {b : Declarations} {x : Table (List (String × FieldEntry))}
    (h : ∀ c ∈ b.contributions x, S.Allows b c) (ho : ∀ o ∈ b.directiveOptions x, admits o) :
    Alike R (x.forM fun (type, entries) => Synthesis.declare type (.fields entries) none)
      (x.forM fun (type, entries) => Synthesis.declare type (.fields entries) none) := by
  refine alike_forM fun e he => L.declare ?_ (fun o hoption => ?_) none
  · exact h (.mapping e.1 (.fields e.2)) (List.mem_append_right _ (List.mem_map.mpr ⟨e, he, rfl⟩))
  · exact ho o (List.mem_append_right _ (List.mem_flatMap.mpr ⟨e, he, hoption⟩))

/-- **The first pass goes alike from two drafts that the steps keep related.** -/
theorem firstPass {b : Declarations} {x : Table (List (String × FieldEntry))}
    (hscalar : ∀ t, S.kinds t .scalar) (h : ∀ c ∈ b.contributions x, S.Allows b c)
    (ho : ∀ o ∈ b.directiveOptions x, admits o)
    (hextended : ∀ {d d'}, R d d' → d.extensions.fields = x ∧ d'.extensions.fields = x) :
    Alike R (firstPass b) (firstPass b) := by
  refine (L.addScalars hscalar).bind fun _ => (L.addTypes hconfigured h ho).bind fun _ =>
    alike_get_bind fun d d' hd => ?_
  rw [(hextended hd).1, (hextended hd).2]
  exact L.declareExtensions h ho

end Lockstep
end Synthesis
end SchemaForge
