import SchemaForge.Proofs.Synthesis.Derived
import SchemaForge.Proofs.Synthesis.Lockstep

/-!
# What earlier syntheses leave

All syntheses of a process share one collection of extensions. A synthesis writes to it the
policies of types and what alternate names stand for, and does not look at either. So a synthesis
over a collection with leftovers goes as one over the same fields alone, and in the end its own
policies lie over those that were there before.
-/
namespace SchemaForge

namespace Extensions

/-- The added fields alone. -/
def bare (x : Extensions) : Extensions := { fields := x.fields }

/-- Own policies and alternates, laid over earlier ones. -/
def laidOver (own earlier : Extensions) : Extensions where
  fields := own.fields
  policies := own.policies ++ earlier.policies
  aliases := own.aliases ++ earlier.aliases

theorem policy?_laidOver (own earlier : Extensions) (type : String) :
    (own.laidOver earlier).policy? type = (own.policy? type).or (earlier.policy? type) :=
  Table.get?_append ..

theorem primary?_laidOver (own earlier : Extensions) (type : String) :
    (own.laidOver earlier).primary? type = (own.primary? type).or (earlier.primary? type) :=
  Table.get?_append ..

/-- The policies of types have coherent options. -/
def Coherent (result : String → DirectiveOption) (x : Extensions) : Prop :=
  ∀ type p, x.policy? type = some (.policy p) → DirectiveOption.Coherent result p.directives

/-- Setting a policy sets it over earlier ones as well. -/
theorem policy?_setPolicy_over {x x' earlier : Extensions} {other : String}
    (h : x'.policy? other = (x.policy? other).or (earlier.policy? other))
    (type : String) (p : PolicyOption) (primary : Option String) :
    (x'.setPolicy type p primary).policy? other
      = ((x.setPolicy type p primary).policy? other).or (earlier.policy? other) := by
  rw [policy?_setPolicy, policy?_setPolicy]
  split
  · split
    · exact h
    · rfl
  · exact h

theorem primary?_setPolicy_over {x x' earlier : Extensions} {other : String}
    (h : x'.primary? other = (x.primary? other).or (earlier.primary? other))
    (type : String) (p : PolicyOption) (primary : Option String) :
    (x'.setPolicy type p primary).primary? other
      = ((x.setPolicy type p primary).primary? other).or (earlier.primary? other) := by
  rw [primary?_setPolicy, primary?_setPolicy]
  split
  · rw [Option.or_assoc, h]
  · exact h

theorem Coherent.setPolicy {result : String → DirectiveOption} {x : Extensions}
    (h : x.Coherent result) {type : String} {p : PolicyOption} {primary : Option String}
    (hp : ∀ q, p = .policy q → DirectiveOption.Coherent result q.directives) :
    (x.setPolicy type p primary).Coherent result := by
  intro other q hq
  rw [policy?_setPolicy] at hq
  split at hq
  · split at hq
    · exact h other q hq
    · cases hq
      exact hp q rfl
  · exact h other q hq

end Extensions

/-- A draft differs from another in earlier policies and alternates, over which lie those of this
one, and in what was evaluated before. -/
structure Draft.Over (result : String → DirectiveOption) (earlier : Extensions)
    (d d' : Draft) : Prop where
  registry : d'.registry = d.registry
  directives : d'.directives = d.directives
  configs : d'.configs = d.configs
  models : d'.models = d.models
  requests : d'.requests = d.requests
  /-- The added fields are as they were. -/
  fields : d.extensions.fields = earlier.fields ∧ d'.extensions.fields = earlier.fields
  policy : ∀ t, d'.extensions.policy? t
    = (d.extensions.policy? t).or (earlier.policy? t)
  primary : ∀ t, d'.extensions.primary? t
    = (d.extensions.primary? t).or (earlier.primary? t)
  agreeing : DirectiveOption.Agreeing result d.thunks d'.thunks
  /-- What is configured and what is governed has coherent options. -/
  coherent : (∀ t fs, d.configs.get? t = some fs →
      ∀ e ∈ fs, DirectiveOption.Coherent result e.2.directives)
    ∧ d.extensions.Coherent result

namespace Synthesis

open Run

variable {result : String → DirectiveOption} {earlier : Extensions}

/-- What changes only the registry keeps drafts over each other. -/
theorem over_change (u : Registry → Registry) :
    Alike (Draft.Over result earlier) (change u) (change u) :=
  alike_modify fun _ _ h => { h with registry := congrArg u h.registry }

theorem over_edit {α : Type} (e : Edit α) :
    Alike (Draft.Over result earlier) (edit e) (edit e) := by
  intro d d' h
  have hrun : (e.run).run d'.registry = (e.run).run d.registry := by rw [h.registry]
  exact ⟨(congrArg Prod.fst hrun).symm, { h with registry := congrArg Prod.snd hrun }⟩

theorem over_record (c : Directive) :
    Alike (Draft.Over result earlier) (record c) (record c) := by
  intro d d' h
  have hrun : d'.directives.register ⟨c.name, c.arguments⟩
      = d.directives.register ⟨c.name, c.arguments⟩ := by rw [h.directives]
  exact ⟨(congrArg Prod.fst hrun).symm, { h with directives := congrArg Prod.snd hrun }⟩

/-- Every single step keeps drafts over each other. -/
theorem lockstep_over : Lockstep (DirectiveOption.Coherent result) (fun _ => True) .all
    (Draft.Over result earlier) where
  absent := DirectiveOption.coherent_none
  union h _ := by rw [Draft.isUnion, Draft.isUnion, h.registry]
  line h _ := by rw [h.registry]
  known h _ := by
    refine ⟨by rw [Draft.configOf?, Draft.configOf?, h.configs], fun c hc => ?_⟩
    obtain ⟨fs, hfs, hget⟩ := Option.bind_eq_some_iff.mp hc
    exact h.coherent.1 _ fs hfs _ (Table.mem_of_get? hget)
  resolve ho d d' h := by
    obtain ⟨hout, hthunks⟩ := DirectiveOption.alike_resolve ho _ _ h.agreeing
    exact ⟨hout, { h with agreeing := hthunks }⟩
  resolved _ _ _ _ _ := trivial
  list _ := DirectiveOption.coherent_list _
  ensure _ := over_change _
  kind _ := over_change _
  useOnType _ _ _ := (over_record _).bind fun _ => over_change _
  useOnField _ _ := (over_record _).bind fun _ => over_change _
  field _ _ := over_change _
  put _ _ _ := over_change _
  configure {t f} _ c hc := alike_modify fun d d' h => { h with
    configs := congrArg (Table.update · t [] fun fs => Table.put fs f c) h.configs
    coherent := by
      refine ⟨fun t' fs hfs e he => ?_, h.coherent.2⟩
      rw [Table.get?_update] at hfs
      split at hfs
      · cases hfs
        rcases Table.mem_put he with he | rfl
        · cases hget : d.configs.get? t with
          | none =>
            rw [hget] at he
            cases he
          | some known =>
            rw [hget] at he
            exact h.coherent.1 t known hget e he
        · exact hc
      · exact h.coherent.1 t' fs hfs e he }
  govern t p hp := alike_modify fun d d' h => { h with
    fields := ⟨(Extensions.fields_setPolicy ..).trans h.fields.1,
      (Extensions.fields_setPolicy ..).trans h.fields.2⟩
    policy := fun t' => Extensions.policy?_setPolicy_over (h.policy t') t _ _
    primary := fun t' => Extensions.primary?_setPolicy_over (h.primary t') t _ _
    coherent := ⟨h.coherent.1, h.coherent.2.setPolicy fun q hq => by
      cases hq
      exact hp⟩ }
  start t p primary hp := alike_modify fun d d' h => { h with
    configs := congrArg (Table.ensure · t []) h.configs
    fields := ⟨(Extensions.fields_setPolicy ..).trans h.fields.1,
      (Extensions.fields_setPolicy ..).trans h.fields.2⟩
    policy := fun t' => Extensions.policy?_setPolicy_over (h.policy t') t _ _
    primary := fun t' => Extensions.primary?_setPolicy_over (h.primary t') t _ _
    coherent := by
      refine ⟨fun t' fs hfs e he => ?_, h.coherent.2.setPolicy hp⟩
      rw [Table.get?_ensure] at hfs
      cases hget : d.configs.get? t' with
      | some known =>
        rw [hget] at hfs
        cases hfs
        exact h.coherent.1 t' fs hget e he
      | none =>
        rw [hget, Option.none_or] at hfs
        split at hfs
        · cases hfs
          cases he
        · cases hfs }
  request q := alike_modify fun _ _ h => { h with
    requests := congrArg (· ++ [q]) h.requests }
  expose t key c plugin := alike_modify fun _ _ h => { h with
    models := congrArg (Table.put · t ⟨c.model, key, plugin⟩) h.models }
  warn text := alike_modify fun _ _ h => { h with }

theorem over_describeConfigured (t : String) :
    Alike (Draft.Over result earlier) (describeConfigured t) (describeConfigured t) := by
  refine alike_get_bind fun d d' h => ?_
  rw [h.configs]
  refine (alike_forM fun e he => lockstep_over.describe trivial ?_).bind fun _ => ?_
  · cases hget : d.configs.get? t with
    | none =>
      rw [hget] at he
      cases he
    | some fs =>
      rw [hget] at he
      exact h.coherent.1 t fs hget e he
  · refine alike_ite (fun _ => alike_modify fun _ _ h => ?_) fun _ => alike_pure _
    exact { h with requests := congrArg (· ++ [_]) h.requests }

/-! ### Filters -/

theorem over_filterField (type field : String) (c : FieldConfig) :
    Alike (Draft.Over result earlier) (filterField type field c) (filterField type field c) := by
  have hrest : ∀ signature, Alike (Draft.Over result earlier)
      (do
        let returned ← lift (Signature.baseName signature)
        let isList ← lift (Signature.isList signature)
        edit (Registry.addFilters type field returned isList))
      (do
        let returned ← lift (Signature.baseName signature)
        let isList ← lift (Signature.isList signature)
        edit (Registry.addFilters type field returned isList)) := fun signature =>
    alike_synthesisLift_bind fun returned _ => alike_synthesisLift_bind fun isList _ => over_edit _
  unfold filterField
  refine alike_ite (fun _ => ?_) fun _ => alike_pure _
  refine alike_ite (fun _ => hrest _) fun _ => alike_get_bind fun d d' h => ?_
  rw [h.registry]
  split
  · exact hrest _
  · exact alike_throw _

theorem over_fulfil (q : FilterRequest) :
    Alike (Draft.Over result earlier) (fulfil q) (fulfil q) := by
  unfold fulfil
  split
  · exact alike_forM fun e _ => alike_synthesisLift_bind fun c _ => over_filterField _ _ c
  · exact alike_throw _
  · exact alike_forM fun e _ => over_filterField _ _ e.2
  · exact over_edit _

/-- **A synthesis goes the same way whatever earlier ones left**, and lays its own policies over
those that were there. -/
theorem over_synthesize (b : Declarations)
    (ho : ∀ o ∈ b.directiveOptions earlier.fields, DirectiveOption.Coherent result o) :
    Alike (Draft.Over result earlier) (synthesize b) (synthesize b) := by
  have hallows : ∀ c ∈ b.contributions earlier.fields, Footprint.all.Allows b c :=
    fun c _ => Footprint.allows_all b c
  have hextensions : Alike (Draft.Over result earlier) addExtensions addExtensions := by
    refine alike_get_bind fun d d' h => ?_
    rw [h.fields.1, h.fields.2]
    exact (lockstep_over.declareExtensions hallows ho).bind fun _ => alike_forM fun e _ =>
      over_fulfil _
  refine (lockstep_over.addScalars fun _ => trivial).bind fun _ =>
    (lockstep_over.addTypes over_describeConfigured hallows ho).bind fun _ =>
      hextensions.bind fun _ => ?_
  refine alike_get_bind fun d d' h => ?_
  rw [h.requests]
  exact (alike_forIn (fun q _ _ => (over_fulfil q).bind fun _ => alike_pure _) _).bind fun _ =>
    alike_pure _

/-- From the added fields alone, and from a collection with leftovers. -/
theorem over_fresh {s s' : ThunkState} (hs : DirectiveOption.Agreeing result s s') :
    Draft.Over result earlier (fresh earlier.bare s) (fresh earlier s') where
  registry := rfl
  directives := rfl
  configs := rfl
  models := rfl
  requests := rfl
  fields := ⟨rfl, rfl⟩
  policy _ := (Option.none_or ..).symm
  primary _ := (Option.none_or ..).symm
  agreeing := hs
  coherent := by
    refine ⟨fun t fs hfs => ?_, fun t p hp => ?_⟩
    · cases hfs
    · cases hp

end Synthesis
end SchemaForge
