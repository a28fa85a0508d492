import SchemaForge.Proofs.Synthesis.Turns

/-!
# The deeds of declared fields

A mapping of fields that declares a type, or more fields of one, does a fixed list of
deeds: what its policy says of the type, then each of its fields in order.
-/
namespace SchemaForge
namespace Deed

/-- The deed of a declared field; none if its form is not accepted, which can only be
where names alone count. -/
def ofField (type : String) (owner : Option ModelRef) (e : String × FieldDeclaration) :
    List Deed :=
  match e.2.normalize with
  | .ok c => [.declared type e.1 owner c]
  | .error _ => []

/-- The deeds of a policy within a mapping of fields. -/
def ofPolicy (type : String) (p : Policy) : List Deed :=
  (if p.kind.truthy then ((Language.Parser.kindOf? p.kind.plain).map (Deed.kind type)).toList
    else []) ++ [.governed type (.policy p) none, .directed type [.policy p]]

/-- The deeds of a mapping of fields, or of the words of an enum. -/
def ofMap (type : String) (m : FieldMap) (owner : Option ModelRef) : List Deed :=
  match TypeDeclaration.words? m, m with
  | some _, _ => [.kind type .enum]
  | none, .value _ => []
  | none, .fields entries =>
    (((policyIn? entries).bind PolicyOption.policy?).map (ofPolicy type)).getD []
      ++ (fieldEntries entries).flatMap (ofField type owner)

end Deed

namespace Synthesis

open Registry

variable {α : Type} {d : Draft}

/-! ### One field -/

/-- Writing the arguments of a field leaves every field as it stands. -/
theorem turns_addInputs (t f : String) (c : FieldConfig) : Turns d (addInputs t f c) still := by
  unfold addInputs
  split
  · refine turns_get_bind ?_
    dsimp only
    split
    · exact turns_throw _
    · exact turns_lift_bind fun isList _ => turns_addFetchArguments t f isList
  · split
    · refine turns_forM_still fun x _ d => ?_
      obtain ⟨name, signature⟩ := x
      dsimp only
      split
      · exact turns_addArgument t f name _
      · exact turns_pure _
    · exact turns_pure _

/-- Writing directives on a line. -/
theorem turns_directField (t f : String) (ds : List Directive) :
    Turns d (forIn ds PUnit.unit fun x _ => do
        let use ← record x
        change (·.addFieldDirective t f use)
        pure (ForInStep.yield PUnit.unit)) fun _ type field v =>
      if t = type ∧ f = field then { v with uses := addUses v.uses ds } else v := by
  induction ds generalizing d with
  | nil => exact (turns_pure _).congr fun s type field v => by simp [still]
  | cons x ds ih =>
    rw [List.forIn_cons]
    simp only [bind_assoc, pure_bind]
    refine (turns_record_bind fun d1 => (turns_updateField t f (h := (·.addDirective x.use))
      (a := id) (b := fun us => addOnce us x.use) (fun _ => rfl) fun _ => rfl).bind
      fun _ d2 _ => ih).congr fun s type field v => ?_
    by_cases hc : t = type ∧ f = field
    · simp only [if_pos hc]
      rfl
    · simp only [if_neg hc]

/-- What is written of a field are its directives. -/
theorem turns_describe (t f : String) (c : FieldConfig) :
    Turns d (describe t f c) fun s type field v =>
      if t = type ∧ f = field then { v with uses := addUses v.uses (c.meaning s) } else v := by
  unfold describe
  refine (turns_ensureField t f).bind_still fun _ d1 _ => ?_
  refine (turns_addInputs t f c).bind_still fun _ d2 _ => ?_
  refine (turns_resolve_bind (k := fun ds _ type field v =>
    if t = type ∧ f = field then { v with uses := addUses v.uses ds } else v)
    fun ds d3 => ?_)
  exact (turns_directField t f ds).then_still fun _ d4 _ => turns_pure _

/-- How a field is resolved after another declaration of it, once thunks are known. -/
theorem merged_eq_ok {known : Option FieldConfig} {owner : Option ModelRef} {c c' : FieldConfig}
    {d' : Draft} (h : merged known owner c d = (.ok c', d')) :
    ∃ t, d' = { d with thunks := t } ∧ d.thunks.Extends t ∧ ∀ s, t.Extends s →
      c'.settled s = Standing.resolvedBy s (known.map (·.settled s)) owner c := by
  unfold merged at h
  split at h
  · rename_i howner
    cases h
    exact ⟨d.thunks, rfl, .refl _, fun s _ => (Standing.resolvedBy_owner _ howner).symm⟩
  · rename_i howner
    cases known with
    | none =>
      cases h
      exact ⟨d.thunks, rfl, .refl _, fun s _ => (Standing.resolvedBy_none howner).symm⟩
    | some old =>
      dsimp only at h
      split at h
      · rename_i hadds
        obtain ⟨before, d1, h1, h2⟩ := Run.bind_eq_ok.mp h
        obtain ⟨more, d2, h3, h4⟩ := Run.bind_eq_ok.mp h2
        obtain ⟨t1, ho1, rfl⟩ := resolve_eq_ok h1
        obtain ⟨t2, ho2, rfl⟩ := resolve_eq_ok h3
        cases h4
        have e1 := DirectiveOption.extends_of_resolve ho1
        have e2 := DirectiveOption.extends_of_resolve ho2
        refine ⟨t2, rfl, e1.trans e2, fun s hs => ?_⟩
        have hbefore : old.meaning s = before :=
          DirectiveOption.meaning_of_resolve ho1 (e2.trans hs)
        have hmore : c.meaning s = more := DirectiveOption.meaning_of_resolve ho2 hs
        rw [Option.map_some, Standing.resolvedBy_some _ howner, FieldConfig.addsOnly, if_pos hadds,
          FieldConfig.meaning_settled, hbefore, hmore]
        exact congrArg (FieldConfig.withDirectives old)
          (FieldConfig.meaning_withDirectives s old (before ++ more))
      · rename_i hadds
        cases h
        refine ⟨d.thunks, rfl, .refl _, fun s _ => ?_⟩
        rw [Option.map_some, Standing.resolvedBy_some _ howner, FieldConfig.addsOnly, if_neg hadds]

/-- Noting how a field is resolved changes its configuration, if there is anything to
note. -/
theorem turns_noteConfig (t f : String) (owner : Option ModelRef) (c : FieldConfig) :
    Turns d (noteConfig t f owner c) fun s type field v =>
      if t = type ∧ f = field then
        { v with config :=
            if c.isActive then some (Standing.resolvedBy s v.config owner c) else v.config }
      else v := by
  unfold noteConfig
  split
  · rename_i hactive
    refine turns_get_bind ?_
    intro a d'' h htidy
    obtain ⟨c', d', h1, h2⟩ := Run.bind_eq_ok.mp h
    obtain ⟨t1, rfl, e1, hc'⟩ := merged_eq_ok h1
    obtain ⟨t2, e2, x2, v2⟩ := turns_configure t f c' a d'' h2 ⟨htidy.types, htidy.configs⟩
    refine ⟨t2, e1.trans e2, x2, fun s hs type field => ?_⟩
    rw [v2 s hs type field]
    by_cases hc : t = type ∧ f = field
    · obtain ⟨rfl, rfl⟩ := hc
      simp only [and_self, if_true, hc' s (e2.trans hs)]
      rfl
    · simp only [if_neg hc]
      rfl
  · rename_i hactive
    refine (turns_pure _).congr fun s type field v => ?_
    simp [still]

/-- Setting the signature of a field, if the declaration has one. -/
theorem turns_setSignature_bind (t f : String) (c : FieldConfig) {k : Turning} {rest : Synthesis α}
    (h : ∀ d, Turns d rest k) :
    Turns d (if c.returnType.truthy then do change (·.setFieldType t f c.signature); rest else rest)
      fun s type field v => k s type field
        (if t = type ∧ f = field then
          { v with signature := if c.returnType.truthy then c.signature else v.signature }
        else v) := by
  split
  · refine (turns_updateField t f (h := fun line => { line with type := c.signature })
      (a := fun _ => c.signature) (b := id) (fun _ => rfl) fun _ => rfl).bind fun _ d1 _ => h d1
  · refine (h d).congr fun s type field v => ?_
    simp

/-- Declaring a field is its deed. -/
theorem does_declareField (t : String) (owner : Option ModelRef) (f : String)
    (e : FieldDeclaration) : Does (declareField t owner f e) (Deed.ofField t owner (f, e)) := by
  intro d
  unfold declareField
  refine turns_get_bind ?_
  have hentry : ((Table.get? d.registry t).map (·.kind)).getD .object
      = (d.registry.entry t).kind := by
    rw [entry]
    cases Table.get? d.registry t <;> rfl
  dsimp only
  rw [hentry]
  split
  · rename_i hunion
    refine (turns_ensureField t f).congr_here fun s type field => ?_
    unfold Deed.ofField
    split
    · refine (if_neg fun hc => hc.2 ?_).symm
      rw [← hc.1.1]
      exact beq_iff_eq.mp hunion
    · rfl
  · rename_i hunion
    refine turns_lift_bind fun c hc => ?_
    rw [Deed.ofField, hc]
    have hsteps := (turns_ensureField (d := d) t f).bind_still fun _ d1 _ =>
      turns_setSignature_bind (d := d1) t f c fun d2 => (turns_describe (d := d2) t f c).bind
        fun _ d3 _ => turns_noteConfig t f owner c
    refine hsteps.congr_here fun s type field => ?_
    by_cases hc : t = type ∧ f = field
    · obtain ⟨rfl, rfl⟩ := hc
      have hkind : (d.standing s t f).kind ≠ .union := fun h => hunion (beq_iff_eq.mpr h)
      refine Eq.trans ?_ (if_pos ⟨⟨rfl, rfl⟩, hkind⟩).symm
      simp only [and_self, if_true]
    · have hc' : ¬((t = type ∧ f = field) ∧ (d.standing s type field).kind ≠ .union) :=
        fun h => hc h.1
      refine Eq.trans ?_ (if_neg hc').symm
      simp only [if_neg hc]

/-! ### Mappings of fields -/

/-- Setting the kind of a type by its word is a deed, if the word is one. -/
theorem does_setKindByWord (t word : String) {rest : Synthesis α} {deeds : List Deed}
    (h : Does rest deeds) :
    Does (do let r ← lift ((← get).registry.create word t); change fun _ => r; rest)
      (((Language.Parser.kindOf? word).map (Deed.kind t)).toList ++ deeds) := by
  intro d
  refine turns_get_bind (turns_lift_bind fun r hr => ?_)
  rw [create] at hr
  cases hk : Language.Parser.kindOf? word with
  | none =>
    rw [hk] at hr
    cases hr
  | some k =>
    rw [hk] at hr
    cases hr
    exact ((does_setKind t k d).of_eq rfl).bind fun _ d1 _ => h d1

/-- Declaring what a policy says of a type are its deeds. -/
theorem does_declarePolicy (t : String) (p : Policy) :
    Does (declarePolicy t p) (Deed.ofPolicy t p) := by
  have hrest : Does (do
      modify fun d => { d with extensions := d.extensions.setPolicy t (.policy p) none }
      directType t (← resolve p.directives))
      [.governed t (.policy p) none, .directed t [.policy p]] := by
    intro d
    refine ((does_setPolicy t (.policy p) none d).bind fun _ d1 _ =>
      turns_resolve_bind fun ds d2 => turns_directType t ds).congr fun s type field v => ?_
    simp only [turningOf, Standing.after, List.foldl_cons, List.foldl_nil, Standing.step,
      List.flatMap_cons, List.flatMap_nil, List.append_nil, PolicyOption.meaning]
  intro d
  unfold declarePolicy Deed.ofPolicy
  split
  · exact does_setKindByWord t p.kind.plain hrest d
  · exact hrest d

/-- Declaring the words of an enum sets the kind of the type. -/
theorem does_declareWords (t : String) (words : List String) :
    Does (declareWords t words) [.kind t .enum] := fun d =>
  (does_setKind t .enum d).then_still fun _ _ _ =>
    turns_forM_still fun w _ _ => turns_ensureField t w

/-- Declaring a mapping of fields does the deeds of its policy and of its fields. -/
theorem does_declare (t : String) (m : FieldMap) (owner : Option ModelRef) :
    Does (declare t m owner) (Deed.ofMap t m owner) := by
  intro d
  unfold declare Deed.ofMap
  refine (turns_ensureType t).bind_still fun _ d1 _ => ?_
  cases hwords : TypeDeclaration.words? m with
  | some words => exact does_declareWords t words d1
  | none =>
    cases m with
    | value v => exact turns_throw _
    | fields entries =>
      have hfields : Does ((fieldEntries entries).forM fun e => declareField t owner e.1 e.2)
          ((fieldEntries entries).flatMap (Deed.ofField t owner)) :=
        does_forM fun e _ => does_declareField t owner e.1 e.2
      dsimp only
      cases (policyIn? entries).bind PolicyOption.policy? with
      | none => exact hfields d1
      | some p =>
        refine ((does_declarePolicy t p d1).bind fun _ d2 _ => hfields d2).congr
          fun s type field v => ?_
        exact (Standing.after_append s type field _ _ v).symm

end Synthesis
end SchemaForge
