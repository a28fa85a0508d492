import SchemaForge.Proofs.Synthesis.Declaring

/-!
# The deeds of declared types

What the first pass does to every field, from the declarations alone: a model under each
of its names gives its members, then its policy and the fields of other types that the
policy brings along; other types are mappings of fields; extensions come last.
-/
namespace SchemaForge

/-! ### Classes -/

/-- An attribute of a class that becomes a field under a policy: its name, how it is
configured and whether that is noted. -/
def fieldOfAttribute? (p : PolicyOption) (named : String × FieldDeclaration) :
    Option (String × FieldConfig × Bool) :=
  match Synthesis.attributeConfig? named.2 with
  | none => none
  | some (c, active) =>
    if "_".isPrefixOf named.1 then none
    else if p.exposes named.1 matches .ok true then
      if c.returnType.truthy then some (named.1, c, active) else none
    else none

/-- It keeps its name, and the policy exposes it. -/
theorem fieldOfAttribute?_eq_some {p : PolicyOption} {named : String × FieldDeclaration}
    {a : String × FieldConfig × Bool} (h : fieldOfAttribute? p named = some a) :
    a.1 = named.1 ∧ p.exposes a.1 = .ok true := by
  unfold fieldOfAttribute? at h
  cases hc : Synthesis.attributeConfig? named.2 with
  | none =>
    rw [hc] at h
    cases h
  | some stated =>
    rw [hc] at h
    cases hexposed : p.exposes named.1 with
    | error e => simp [hexposed] at h
    | ok exposed =>
      simp only [hexposed, ite_eq_iff] at h
      cases exposed <;> simp_all
      exact h.2.2 ▸ ⟨rfl, hexposed⟩

/-- The signatures of a class, over those of its first attributes. -/
def classSignatures (p : PolicyOption) (attributes : List (String × FieldDeclaration))
    (known : Table String) : Table String :=
  (attributes.filterMap (fieldOfAttribute? p)).foldl (fun t a => Table.put t a.1 a.2.1.signature)
    known

namespace Deed

/-- The deed of an attribute of a class, if how it is resolved is noted. -/
def ofAttribute (type : String) (p : PolicyOption) (named : String × FieldDeclaration) :
    List Deed :=
  match fieldOfAttribute? p named with
  | some (field, c, true) => [.configured type field c]
  | _ => []

/-- The deeds of a class under a type name. -/
def ofClass (d : Declarations) (type : String) (t : TypeDeclaration) (p : PolicyOption) :
    List Deed :=
  let attributes := Synthesis.attributesOf d t
  attributes.flatMap (ofAttribute type p) ++ [.replaced type (classSignatures p attributes [])]

/-! ### Mapped models -/

/-- The deed of a column. -/
def ofColumn (d : Declarations) (table : Table String) (type : String) (p : PolicyOption)
    (c : Column) : List Deed :=
  if (p.exposes c.key matches .ok true) && !Synthesis.holdsAssociation c then
    match ColumnType.fieldType table c.type with
    | some t => [.typed type c.key (Synthesis.columnSignature c (Synthesis.available d t))]
    | none => []
  else []

/-- The deed of a virtual field. -/
def ofVirtual (d : Declarations) (type : String) (p : PolicyOption) (v : Virtual) : List Deed :=
  if p.exposes v.key matches .ok true then
    match Synthesis.virtualSignature d type v with
    | .ok signature => [.typed type v.key signature]
    | .error _ => []
  else []

/-- The deeds of an association: one to many rows is fetched from the store. -/
def ofAssociation (d : Declarations) (m : Model) (type : String) (p : PolicyOption)
    (a : Association) : List Deed :=
  if p.exposes a.key matches .ok true then
    match d.typeOf? a.target with
    | none => []
    | some target =>
      if d.models.isMany m a then
        [.typed type a.key ("[" ++ target ++ "!]"),
          .configured type a.key (Synthesis.associationConfig a target)]
      else [.typed type a.key target]
  else []

/-- The deeds of a mapped model under a type name. -/
def ofModel (d : Declarations) (own : Table String) (type : String) (m : Model)
    (p : PolicyOption) : List Deed :=
  m.columns.flatMap (ofColumn d (Synthesis.columnTable d own) type p)
    ++ m.virtuals.flatMap (ofVirtual d type p) ++ m.associations.flatMap (ofAssociation d m type p)

/-- The deeds of a model under a type name, as a plugin describes it. -/
def ofMembers (d : Declarations) (plugin : Plugin) (type : String) (t : TypeDeclaration)
    (p : PolicyOption) : List Deed :=
  match plugin, t with
  | .classes, t => ofClass d type t p
  | .store own _, .mapped name => ofModel d own type ((d.models.get? name).getD default) p
  | _, _ => []

end Deed

namespace Synthesis

variable {α β : Type} {d : Draft} {k : Turning}

/-- Taking in an attribute of a class is its deed, and adds its line. -/
theorem turns_addAttribute_bind {t : String} {p : PolicyOption} {signatures : Table String}
    {named : String × FieldDeclaration} {f : Table FieldLine → Synthesis β}
    (hf : ∀ d, Turns d (f (Registry.plainLines (classSignatures p [named] signatures))) k) :
    Turns d (addAttribute t p (Registry.plainLines signatures) named >>= f) fun s type field v =>
      k s type field (turningOf (Deed.ofAttribute t p named) s type field v) := by
  obtain ⟨field, e⟩ := named
  have hskip : fieldOfAttribute? p (field, e) = none →
      Turns d (pure (Registry.plainLines signatures) >>= f) fun s type g v =>
        k s type g (turningOf (Deed.ofAttribute t p (field, e)) s type g v) := by
    intro hn
    have hlines : classSignatures p [(field, e)] signatures = signatures := by
      rw [classSignatures, List.filterMap_cons, hn]
      rfl
    have hdeed : Deed.ofAttribute t p (field, e) = [] := by
      unfold Deed.ofAttribute
      rw [hn]
    rw [pure_bind, ← hlines, hdeed]
    exact hf d
  unfold addAttribute
  dsimp only
  cases hc : attributeConfig? e with
  | none => exact hskip (by simp only [fieldOfAttribute?, hc])
  | some stated =>
    obtain ⟨c, active⟩ := stated
    dsimp only
    split
    · rename_i hpublic
      exact hskip (by simp only [fieldOfAttribute?, hc, hpublic, if_true])
    · rename_i hpublic
      rw [bind_assoc]
      refine turns_lift_bind fun exposed hexposed => ?_
      cases exposed with
      | false => exact hskip (by simp [fieldOfAttribute?, hc, hpublic, hexposed])
      | true =>
        simp only [Bool.not_true, Bool.false_eq_true, if_false]
        split
        · rename_i htype
          exact hskip (by simp_all [fieldOfAttribute?])
        · rename_i htype
          have hfield : fieldOfAttribute? p (field, e) = some (field, c, active) := by
            simp_all [fieldOfAttribute?]
          have hlines : Registry.plainLines (classSignatures p [(field, e)] signatures)
              = Table.put (Registry.plainLines signatures) field { type := c.signature } := by
            rw [classSignatures, List.filterMap_cons, hfield, Registry.plainLines_put]
            rfl
          rw [hlines] at hf
          unfold Deed.ofAttribute
          rw [hfield]
          cases active with
          | false => exact hf d
          | true =>
            simp only [if_true, bind_assoc, pure_bind]
            exact (turns_configure t field c).bind fun _ d1 _ => hf d1

/-- Taking in the attributes of a class in turn. -/
theorem turns_addAttributes_bind {t : String} {p : PolicyOption} {signatures : Table String}
    {attributes : List (String × FieldDeclaration)} {f : Table FieldLine → Synthesis β}
    (hf : ∀ d, Turns d (f (Registry.plainLines (classSignatures p attributes signatures))) k) :
    Turns d (attributes.foldlM (addAttribute t p) (Registry.plainLines signatures) >>= f)
      fun s type field v =>
        k s type field (turningOf (attributes.flatMap (Deed.ofAttribute t p)) s type field v) := by
  induction attributes generalizing d signatures with
  | nil =>
    rw [List.foldlM_nil, pure_bind]
    exact hf d
  | cons named attributes ih =>
    rw [List.foldlM_cons, bind_assoc]
    have hsplit : classSignatures p (named :: attributes) signatures
        = classSignatures p attributes (classSignatures p [named] signatures) := by
      unfold classSignatures
      rw [← List.foldl_append, ← List.filterMap_append, List.singleton_append]
    rw [hsplit] at hf
    refine (turns_addAttribute_bind fun d1 => ih hf).congr fun s type field v => ?_
    rw [List.flatMap_cons, turningOf, turningOf, turningOf, Standing.after_append]

/-- Describing a class does the deeds of its attributes and puts them in the place of
what was there. -/
theorem does_addClass (b : Declarations) (t : String) (c : TypeDeclaration) (p : PolicyOption) :
    Does (addClass b t c p) (Deed.ofClass b t c p) := by
  intro d
  unfold addClass
  have hclass : Turns d ((attributesOf b c).foldlM (addAttribute t p) (Registry.plainLines []) >>=
      fun lines => change fun r => Table.put r t { lines }) _ :=
    turns_addAttributes_bind (does_put t _)
  refine hclass.congr fun s type field v => ?_
  exact (Standing.after_append s type field _ _ v).symm

/-! ### Mapped models -/

/-- What a policy exposes is known. -/
theorem turns_exposes_bind {p : PolicyOption} {field : String} {f : Bool → Synthesis β}
    (h : ∀ b, p.exposes field = .ok b → Turns d (f b) k) : Turns d (exposes p field >>= f) k :=
  turns_lift_bind h

theorem turns_warn (text : String) : Turns d (warn text) still :=
  turns_modify (fun ht => ⟨ht.types, ht.configs⟩) rfl rfl fun _ _ _ => rfl

theorem turns_request (q : FilterRequest) : Turns d (request q) still :=
  turns_modify (fun ht => ⟨ht.types, ht.configs⟩) rfl rfl fun _ _ _ => rfl

/-- Taking in a column is its deed. -/
theorem does_addColumn (b : Declarations) (table : Table String) (t : String) (p : PolicyOption)
    (c : Column) : Does (addColumn b table t p c) (Deed.ofColumn b table t p c) := by
  intro d
  unfold addColumn Deed.ofColumn
  refine turns_exposes_bind fun exposed hexposed => ?_
  cases exposed with
  | false =>
    simp only [hexposed, Bool.false_and, Bool.false_eq_true, if_false]
    exact turns_pure _
  | true =>
    simp only [hexposed, Bool.true_and]
    split
    · cases ColumnType.fieldType table c.type with
      | some name => exact does_setFieldType t c.key _ d
      | none => exact turns_warn _
    · exact turns_pure _

/-- Taking in a virtual field is its deed. -/
theorem does_addVirtual (b : Declarations) (t : String) (p : PolicyOption) (v : Virtual) :
    Does (addVirtual b t p v) (Deed.ofVirtual b t p v) := by
  intro d
  unfold addVirtual Deed.ofVirtual
  refine turns_exposes_bind fun exposed hexposed => ?_
  cases exposed with
  | false =>
    simp only [hexposed, Bool.false_eq_true, if_false]
    exact turns_pure _
  | true =>
    simp only [hexposed, if_true]
    refine turns_lift_bind fun signature hsignature => ?_
    rw [hsignature]
    exact does_setFieldType t v.key signature d

/-- Taking in an association is its deeds. -/
theorem does_addAssociation (b : Declarations) (m : Model) (t : String) (p : PolicyOption)
    (a : Association) : Does (addAssociation b m t p a) (Deed.ofAssociation b m t p a) := by
  intro d
  unfold addAssociation Deed.ofAssociation
  refine turns_exposes_bind fun exposed hexposed => ?_
  cases exposed with
  | false =>
    simp only [hexposed, Bool.false_eq_true, if_false]
    exact turns_pure _
  | true =>
    simp only [hexposed, if_true]
    cases b.typeOf? a.target with
    | none => exact turns_pure _
    | some target =>
      dsimp only
      split
      · have hfetch : ∀ d, Turns d
            (change (·.updateField t a.key (Registry.addFetchArguments · t a.key true))) still :=
          fun _ => turns_addFetchArguments t a.key true
        exact (does_setFieldType t a.key _ d).bind fun _ d1 _ => (hfetch d1).bind_still
          fun _ d2 _ => turns_configure t a.key _
      · exact does_setFieldType t a.key _ d

/-- Finding out which filters are needed leaves every field as it stands. -/
theorem turns_associationRequests (b : Declarations) (m : Model) (t : String) (p : PolicyOption) :
    Turns d (associationRequests b m t p) still := by
  unfold associationRequests
  refine turns_filterMapM_still fun a d => ?_
  refine turns_exposes_bind fun exposed _ => ?_
  split <;> exact turns_pure _

/-- Describing a mapped model does the deeds of its columns, virtual fields and
associations. -/
theorem does_addModel (b : Declarations) (own : Table String) (t : String) (m : Model)
    (p : PolicyOption) : Does (addModel b own t m p) (Deed.ofModel b own t m p) := by
  intro d
  unfold addModel
  refine (turns_ensureType t).bind_still fun _ d1 _ => ?_
  refine ((does_forM (fun c _ => does_addColumn b _ t p c) d1).bind fun _ d2 _ =>
    (does_forM (fun v _ => does_addVirtual b t p v) d2).bind fun _ d3 _ =>
    (does_forM (fun a _ => does_addAssociation b m t p a) d3).then_still fun _ d4 _ =>
      turns_associationRequests b m t p).congr fun s type field v => ?_
  rw [Deed.ofModel, turningOf, turningOf, turningOf, turningOf, Standing.after_append,
    Standing.after_append]

/-- Describing a model as a plugin does it does the deeds of its members. -/
theorem does_addMembers (b : Declarations) (plugin : Plugin) (t : String) (c : TypeDeclaration)
    (p : PolicyOption) : Does (addMembers b plugin t c p) (Deed.ofMembers b plugin t c p) := by
  intro d
  unfold addMembers Deed.ofMembers
  split
  · exact (does_addClass b t _ p d).then_still fun _ d1 _ => turns_pure _
  · exact does_addModel b _ t _ p d
  · exact turns_throw _
  · exact turns_throw _

end Synthesis
end SchemaForge
