import SchemaForge.Proofs.Synthesis.Populating

/-!
# The deeds of the first pass

The first pass does the deeds of the implemented scalars, of every declared type in order
and of the extensions. `Declarations.deeds` lists them, and each step of the pass does its own.
-/
namespace SchemaForge
namespace Deed

/-- The deeds of a model under one of its names. -/
def ofName (d : Declarations) (plugin : Plugin) (type : String) (t : TypeDeclaration)
    (p : PolicyOption) (primary : Option String) (first : PolicyOption) : List Deed :=
  .governed type p primary :: ofMembers d plugin type t p
    ++ [.described type, .directed type [first, p]]

/-- The deeds of the fields of other types that a policy brings along. -/
def ofPolicyTypes (t : TypeDeclaration) : PolicyOption → List Deed
  | .policy p => p.types.flatMap fun (type, m) => ofMap type m (some t.model)
  | .value _ => []

/-- The policy under the own name of a model. -/
def ownPolicy (d : Declarations) (t : TypeDeclaration) : PolicyOption :=
  (((d.policyAt t).bind PolicyOption.policy?).map PolicyOption.policy).getD (.value .null)

/-- The alternate names of a model. -/
def otherNames (d : Declarations) (t : TypeDeclaration) : List (String × PolicyOption) :=
  (((d.policyAt t).bind PolicyOption.policy?).map (·.aliases)).getD []

/-- The deeds of a model under all its names. -/
def ofNames (d : Declarations) (plugin : Plugin) (key : String) (t : TypeDeclaration) :
    List Deed :=
  ofName d plugin key t (ownPolicy d t) none (.value .null)
    ++ ofPolicyTypes t (ownPolicy d t)
    ++ (otherNames d t).flatMap fun (name, p) =>
        ofName d plugin name t p (some key) (ownPolicy d t) ++ ofPolicyTypes t p

/-- The deeds of a declared type. -/
def ofType (d : Declarations) (named : String × TypeDeclaration) : List Deed :=
  match findPlugin named.2.model d.plugins with
  | .ok (some plugin) => ofNames d plugin named.1 named.2
  | .ok none =>
    match named.2 with
    | .inline m =>
      if named.2.enumWords?.isSome || named.2.objectFields?.isSome then ofMap named.1 m none else []
    | _ => []
  | .error _ => []

/-- The deed of an implemented scalar. -/
def ofScalar (d : Declarations) (name : String) : List Deed :=
  if Schema.standardScalars.contains name || (d.base.map (·.hasType name)).getD false then []
  else [.kind name .scalar]

end Deed

/-- The deeds of the first pass, with these extensions. -/
def Declarations.deeds (d : Declarations) (x : Extensions) : List Deed :=
  d.scalars.flatMap (Deed.ofScalar d) ++ d.types.flatMap (Deed.ofType d)
    ++ x.fields.flatMap fun (type, entries) => Deed.ofMap type (.fields entries) none

namespace Synthesis

variable {α β : Type} {d : Draft} {k : Turning}

/-! ### Models -/

/-- Describing the fields of a type in turn, each of which is configured once. -/
theorem turns_forM_describe (t : String) {fs : Table FieldConfig} (h : (Table.keys fs).Nodup) :
    Turns d (fs.forM fun (f, c) => describe t f c) fun s type field v =>
      if t = type then
        { v with uses := addUses v.uses (((Table.get? fs field).map (·.meaning s)).getD []) }
      else v := by
  induction fs generalizing d with
  | nil =>
    refine (turns_pure _).congr fun s type field v => ?_
    simp [still]
  | cons e fs ih =>
    obtain ⟨f, c⟩ := e
    obtain ⟨hf, hfs⟩ := List.nodup_cons.mp h
    refine ((turns_describe t f c).bind fun _ d1 _ => ih hfs).congr fun s type field v => ?_
    by_cases ht : t = type
    · subst ht
      by_cases hfield : f = field
      · subst hfield
        have hnone : Table.get? fs f = none := by
          rw [Table.get?_eq_none_iff, ← Bool.not_eq_true, ← Table.mem_keys_iff]
          exact hf
        simp [Table.get?_cons, hnone]
      · simp [Table.get?_cons, hfield, Ne.symm hfield]
    · simp [ht]

/-- What is known of how the fields of a type are resolved is written to their lines. -/
theorem turns_describeFields (t : String) :
    Turns d (((d.configs.get? t).getD []).forM fun (f, c) => describe t f c)
      (turningOf [.described t]) := by
  refine Turns.of_tidy fun htidy => ?_
  have hnodup : (Table.keys ((d.configs.get? t).getD [])).Nodup := by
    cases hk : d.configs.get? t with
    | none => exact List.nodup_nil
    | some fs => exact htidy.configs t fs hk
  refine (turns_forM_describe t hnodup).congr_here fun s type field => ?_
  have hconfig : ((Table.get? ((d.configs.get? t).getD []) field).map (·.meaning s)).getD []
      = (((d.standing s t field).config).map (·.meaning s)).getD [] := by
    simp only [Draft.standing, Draft.configOf?]
    cases d.configs.get? t with
    | none => rfl
    | some fs => cases hf : Table.get? fs field <;> simp [hf]
  by_cases ht : t = type
  · subst ht
    rw [if_pos rfl, hconfig]
    exact (if_pos rfl).symm
  · rw [if_neg ht]
    exact (if_neg ht).symm

/-- The directives of what stands where a policy can stand. -/
theorem turns_policyDirectives_bind {p : PolicyOption} {f : List Directive → Synthesis β}
    {k : List Directive → Turning} (hf : ∀ ds d', Turns d' (f ds) (k ds)) :
    Turns d (policyDirectives p >>= f) fun s type field v => k (p.meaning s) s type field v := by
  unfold policyDirectives
  split
  · exact turns_resolve_bind hf
  · exact hf [] d
  · intro a d' h
    rw [Run.bind_of_error (Run.throw_apply _ d)] at h
    cases h

/-- Describing a model under a name does its deeds. -/
theorem does_populate (b : Declarations) (plugin : Plugin) (t : String) (c : TypeDeclaration)
    (p : PolicyOption) (primary : Option String) (first : PolicyOption) :
    Does (populate b plugin t c p primary first) (Deed.ofName b plugin t c p primary first) := by
  intro d
  unfold populate
  have hstart : Turns d (modify fun s => { s with
      extensions := s.extensions.setPolicy t p primary
      configs := s.configs.ensure t [] }) (turningOf [.governed t p primary]) :=
    ((does_setPolicy t p primary d).then_still fun _ d1 _ => turns_ensureConfigs t).of_eq rfl
  have hend : ∀ d, Turns d (do
      change (·.ensureType t)
      let before ← policyDirectives first
      let own ← policyDirectives p
      directType t (before ++ own)) (turningOf [.directed t [first, p]]) := by
    intro d
    refine ((turns_ensureType t).bind_still fun _ d1 _ => turns_policyDirectives_bind
      fun before d2 => turns_policyDirectives_bind (k := fun own => _) fun own d3 =>
        turns_directType t (before ++ own)).congr fun s type field v => ?_
    simp [turningOf, Standing.after, Standing.step]
  have hrequest : ∀ (d : Draft) (needed : Bool) (q : FilterRequest), Turns d
      (if needed then do
          request q
          change (·.ensureType t)
          let before ← policyDirectives first
          let own ← policyDirectives p
          directType t (before ++ own)
        else do
          change (·.ensureType t)
          let before ← policyDirectives first
          let own ← policyDirectives p
          directType t (before ++ own)) (turningOf [.directed t [first, p]]) := by
    intro d needed q
    split
    · exact (turns_request q).bind_still fun _ d1 _ => hend d1
    · exact hend d
  refine (hstart.bind fun _ d1 _ => (does_addMembers b plugin t c p d1).bind fun requests d2 _ =>
    (turns_forM_still fun q _ _ => turns_request q).bind_still fun _ d3 _ => turns_get_bind
      ((turns_describeFields t).bind fun _ d4 _ => hrequest d4 _ _)).congr fun s type field v => ?_
  rw [turningOf, turningOf, turningOf, turningOf, ← Standing.after_append,
    ← Standing.after_append, ← Standing.after_append]
  simp only [turningOf, Deed.ofName, List.cons_append, List.nil_append]

/-- Declaring the fields that a policy brings along does their deeds. -/
theorem does_addPolicyTypes (c : TypeDeclaration) (p : PolicyOption) :
    Does (addPolicyTypes c p) (Deed.ofPolicyTypes c p) := by
  intro d
  unfold addPolicyTypes Deed.ofPolicyTypes
  split
  · refine does_forM (fun e _ d1 => ?_) d
    exact (does_declare e.1 e.2 (some c.model) d1).then_still fun _ d2 _ => turns_request _
  · exact turns_pure _
  · exact turns_throw _

theorem turns_expose (t key : String) (c : TypeDeclaration) (plugin : Plugin) :
    Turns d (expose t key c plugin) still :=
  turns_modify (fun ht => ⟨ht.types, ht.configs⟩) rfl rfl fun _ _ _ => rfl

/-- Describing a model under all its names does the deeds of each in turn. -/
theorem does_addAllNames (b : Declarations) (plugin : Plugin) (key : String)
    (c : TypeDeclaration) : Does (addAllNames b plugin key c) (Deed.ofNames b plugin key c) := by
  intro d
  unfold addAllNames
  have hother : Does ((Deed.otherNames b c).forM fun (name, p) => do
      expose name key c plugin
      populate b plugin name c p (some key) (Deed.ownPolicy b c)
      addPolicyTypes c p)
      ((Deed.otherNames b c).flatMap fun (name, p) =>
        Deed.ofName b plugin name c p (some key) (Deed.ownPolicy b c)
          ++ Deed.ofPolicyTypes c p) := by
    refine does_forM fun e _ d1 => ?_
    refine ((turns_expose e.1 key c plugin).bind_still fun _ d2 _ =>
      (does_populate b plugin e.1 c e.2 (some key) (Deed.ownPolicy b c) d2).bind fun _ d3 _ =>
        does_addPolicyTypes c e.2 d3).congr fun s type field v => ?_
    exact (Standing.after_append s type field _ _ v).symm
  refine ((turns_expose key key c plugin).bind_still fun _ d1 _ =>
    (does_populate b plugin key c (Deed.ownPolicy b c) none (.value .null) d1).bind fun _ d2 _ =>
    (does_addPolicyTypes c (Deed.ownPolicy b c) d2).bind fun _ d3 _ => hother d3).congr
      fun s type field v => ?_
  rw [Deed.ofNames, turningOf, turningOf, turningOf, turningOf, Standing.after_append,
    Standing.after_append]

/-! ### Everything that is declared -/

/-- Describing a declared type does its deeds. -/
theorem does_addType (b : Declarations) (named : String × TypeDeclaration) :
    Does (addType b named) (Deed.ofType b named) := by
  obtain ⟨name, c⟩ := named
  intro d
  unfold addType Deed.ofType
  refine turns_lift_bind fun found hfound => ?_
  dsimp only at hfound ⊢
  rw [hfound]
  cases found with
  | some plugin => exact does_addAllNames b plugin name c d
  | none =>
    cases c with
    | plain id attributes p => exact turns_warn _
    | mapped model => exact turns_warn _
    | inline m =>
      dsimp only
      split
      · rename_i hwords
        rw [hwords, Bool.true_or, if_pos rfl]
        exact does_declare name m none d
      · rename_i hwords
        split
        · rename_i hfields
          rw [hfields, Bool.or_true, if_pos rfl]
          exact (does_declare name m none d).then_still fun _ d1 _ => turns_request _
        · rename_i hfields
          rw [Bool.not_eq_true] at hwords hfields
          rw [hwords, hfields, Bool.or_false, if_neg Bool.false_ne_true]
          exact turns_warn _

/-- Starting with the implemented scalars does their deeds. -/
theorem does_addScalars (b : Declarations) :
    Does (addScalars b) (b.scalars.flatMap (Deed.ofScalar b)) := by
  refine does_forM fun name _ d => ?_
  unfold Deed.ofScalar
  dsimp only
  cases (Schema.standardScalars.contains name || (b.base.map (·.hasType name)).getD false) with
  | true => exact turns_pure _
  | false => exact does_setKind name .scalar d

end Synthesis
end SchemaForge
