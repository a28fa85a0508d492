import SchemaForge.Proofs.Evaluation
import SchemaForge.Proofs.Synthesis.Leftovers

/-!
# Generating one schema after another

Schemas that are generated one after the other share the collection of extensions, and what is
known of thunks. The first generation leaves the added fields as they are, but its policies and
alternate names stay. The second one has the same text, the same schema and the same resolvers as
if it was the only one, or fails in the same way before anything is wired. Its directives are
those of its own policies, and under a name that it states no policy for they are those of the
policy that was left there. So it is as if it was the only one if it states a policy for each name
that the first one states a policy for, and an alternate for each alternate.

A base schema with handlers is taken as it is given.
-/
namespace SchemaForge

open Synthesis

/-! ### Wiring by other policies -/

/-- What yields the value of a field. -/
def Handlers.yieldAt (hs : Handlers) (type field : String) : Yield :=
  ((hs.find? type field).getD {}).yield

namespace Wiring

variable {result : String → DirectiveOption} {s : Setting} {x : Extensions}

theorem alike_typeDirectives {type : String} (hx : x.policy? type = s.extensions.policy? type)
    (hcoherent : s.extensions.Coherent result) :
    Run.Alike (DirectiveOption.Agreeing result) (typeDirectives s type)
      (typeDirectives { s with extensions := x } type) := by
  unfold typeDirectives
  dsimp only
  rw [hx]
  split
  · exact Run.alike_pure _
  · exact Run.alike_pure _
  · rename_i p hp
    exact DirectiveOption.alike_resolve (hcoherent type p hp)
  · exact Run.alike_throw _

/-- Policies matter by name alone, and what was evaluated before does not. -/
theorem alike_wireAll (hpolicy : ∀ type, x.policy? type = s.extensions.policy? type)
    (hprimary : ∀ type, x.primary? type = s.extensions.primary? type)
    (hcoherent : s.extensions.Coherent result)
    (hconfigs : ∀ v c, configOf s v = some c → DirectiveOption.Coherent result c.directives)
    (hs : Handlers) (visits : List Visit) :
    Run.Alike (DirectiveOption.Agreeing result) (wireAll s hs visits)
      (wireAll { s with extensions := x } hs visits) := by
  have htype := fun type => alike_typeDirectives (hpolicy type) hcoherent
  have hdirectives : ∀ v, Run.Alike (DirectiveOption.Agreeing result)
      (directivesOf s v.returned (configOf s v))
      (directivesOf { s with extensions := x } v.returned (configOf s v)) := by
    intro v
    rw [directivesOf_eq, directivesOf_eq]
    dsimp only
    rw [hprimary]
    refine Run.Alike.bind (m := ((s.extensions.primary? v.returned).map (typeDirectives s)).getD
      (pure [])) ?_ fun primary => (htype _).bind fun own =>
        Run.Alike.bind ?_ fun field => Run.alike_pure _
    · cases s.extensions.primary? v.returned with
      | none => exact Run.alike_pure _
      | some name => exact htype name
    · cases hc : configOf s v with
      | none => exact Run.alike_pure _
      | some c => exact DirectiveOption.alike_resolve (hconfigs v c hc)
  refine Run.alike_foldlM (fun hs v _ => ?_) hs
  rw [wire_eq, wire_eq]
  exact Run.alike_lift_bind fun stated _ => (hdirectives v).bind fun _ =>
    Run.alike_ite (fun _ => Run.alike_pure _) fun _ => Run.alike_pure _

/-- What a field is given is what is stated of its value, and else what was there. -/
theorem yield_handlerOf (t : ThunkState) (before : Option Handler) (v : Visit)
    (stated : Option Yield) : ((handlerOf s t before v stated).getD {}).yield
      = stated.getD (before.getD {}).yield := by
  unfold handlerOf
  split
  · rename_i hnone
    rw [Option.isNone_iff_eq_none.mp (Bool.and_eq_true_iff.mp hnone).1]
    rfl
  · cases stated <;> rfl

/-- The values of fields are wired the same by whatever policies. -/
theorem yieldAt_wireAll {hs hs' r r' : Handlers} {visits : List Visit} {t t' u u' : ThunkState}
    (hbefore : ∀ type field, hs.yieldAt type field = hs'.yieldAt type field)
    (h : wireAll s hs visits t = (.ok r, u))
    (h' : wireAll { s with extensions := x } hs' visits t' = (.ok r', u'))
    (type field : String) : r.yieldAt type field = r'.yieldAt type field := by
  induction visits generalizing hs hs' t t' with
  | nil =>
    cases h
    cases h'
    exact hbefore type field
  | cons v visits ih =>
    obtain ⟨hs1, t1, h1, h2⟩ := Run.bind_eq_ok.mp h
    obtain ⟨hs1', t1', h1', h2'⟩ := Run.bind_eq_ok.mp h'
    refine ih (fun p f => ?_) h2 h2'
    obtain ⟨-, ⟨stated, hstated, hset⟩, hother⟩ := wire_eq_ok h1
    obtain ⟨-, ⟨stated', hstated', hset'⟩, hother'⟩ := wire_eq_ok h1'
    obtain rfl : stated = stated' := Except.ok.inj (hstated.symm.trans hstated')
    have hbefore := hbefore p f
    unfold Handlers.yieldAt at hbefore ⊢
    by_cases hpf : (p, f) = (v.parent, v.field)
    · obtain ⟨rfl, rfl⟩ := Prod.mk.inj hpf
      rw [hset t1 (.refl _), hset' t1' (.refl _), yield_handlerOf, yield_handlerOf, hbefore]
    · rw [hother p f hpf, hother' p f hpf, hbefore]

end Wiring

/-! ### Generations -/

namespace Blueprint

/-- The directive options of everything that is declared, with these added fields, are coherent. -/
def Coherent (result : String → DirectiveOption) (b : Blueprint)
    (x : Table (List (String × FieldEntry))) : Prop :=
  ∀ o ∈ (b.declarations none).directiveOptions x, DirectiveOption.Coherent result o

/-- The base schema declares no directive options. -/
theorem directiveOptions_base (b : Blueprint) (base : Option Schema)
    (x : Table (List (String × FieldEntry))) :
    (b.declarations base).directiveOptions x = (b.declarations none).directiveOptions x := by
  have hof : (b.declarations base).directiveOptionsOf = (b.declarations none).directiveOptionsOf := by
    funext ⟨name, t⟩
    cases t <;> rfl
  unfold Declarations.directiveOptions
  rw [hof]
  rfl

end Blueprint

namespace Generate

/-- The text and the schema that are generated before anything is wired. -/
def written (b : Blueprint) : Synthesis (String × Schema) := do
  let base ← lift b.base.schema?
  synthesize (b.declarations base)
  let d ← get
  let text ← lift <| d.registry.text d.directives
    ((base.map (·.typeNames)).getD []) ((base.map fun s => s.allDirectives.map (·.name)).getD [])
  lift (checkRoots d.registry base)
  let schema ← lift (build base text >>= rooted)
  return (text, schema)

/-- What is written is wired. -/
theorem generate_eq (b : Blueprint) : generate b = (do
    let (text, schema) ← written b
    let handlers ← wire b schema
    return { schema, text, handlers, leaves := b.leaves }) := by
  unfold generate written
  simp only [bind_assoc, pure_bind]

/-- What is generated over earlier policies and alternates: the text and the schema over the added
fields alone, wired by own policies over the earlier ones. -/
def outcomeOver (b : Blueprint) (earlier : Extensions) : Except Failure Generated :=
  match written b (fresh earlier.bare {}) with
  | (.error e, _) => .error e
  | (.ok (text, schema), d) =>
    (wire b schema { d with extensions := d.extensions.laidOver earlier }).1.map fun handlers =>
      { schema, text, handlers, leaves := b.leaves }

/-- The policies and alternates that a generation states itself, with these added fields. -/
def stated (b : Blueprint) (x : Extensions) : Extensions :=
  match b.base.schema? with
  | .ok base => (synthesize (b.declarations base) (fresh x.bare {})).2.extensions
  | .error _ => x.bare

variable {result : String → DirectiveOption} {a b : Blueprint} {x earlier : Extensions}
  {s : ThunkState}

theorem alike_written (hb : b.Coherent result earlier.fields) :
    Run.Alike (Draft.Over result earlier) (written b) (written b) := by
  refine Run.alike_lift_bind fun base _ => ?_
  refine (over_synthesize _ fun o ho => hb o (b.directiveOptions_base base _ ▸ ho)).bind fun _ =>
    Run.alike_get_bind fun d d' h => ?_
  rw [h.registry, h.directives]
  exact Run.alike_lift_bind fun text _ => Run.alike_lift_bind fun _ _ =>
    Run.alike_lift_bind fun schema _ => Run.alike_pure _

/-- What is stated is there when the text is written, and also when that fails. -/
theorem extensions_written (b : Blueprint) (x : Extensions) :
    (written b (fresh x.bare {})).2.extensions = stated b x := by
  unfold written stated
  cases hbase : b.base.schema? with
  | error e => rfl
  | ok base =>
    change ((synthesize (b.declarations base) >>= fun _ => _) (fresh x.bare {})).2.extensions
      = (synthesize (b.declarations base) (fresh x.bare {})).2.extensions
    rw [Run.bind_apply]
    rcases synthesize (b.declarations base) (fresh x.bare {}) with ⟨_ | _, d⟩
    · rfl
    · -- What remains are outcomes that change nothing, whichever of them is bad.
      dsimp only
      rw [Run.bind_of_ok (Run.get_apply d)]
      cases d.registry.text d.directives ((base.map (·.typeNames)).getD [])
        ((base.map fun s => s.allDirectives.map (·.name)).getD []) with
      | error e => rfl
      | ok text =>
        cases checkRoots d.registry base with
        | error e => rfl
        | ok _ =>
          change ((lift (build base text >>= rooted) >>= fun schema => pure (text, schema)) d).2.extensions
            = d.extensions
          cases build base text >>= rooted <;> rfl

theorem agrees_empty : ({} : ThunkState).Agrees result := fun _ _ h => by cases h

/-- What is written from added fields alone, and over earlier policies. -/
theorem over_written (hs : s.Agrees result) (hb : b.Coherent result earlier.fields) :
    (written b (fresh earlier s)).1 = (written b (fresh earlier.bare {})).1
      ∧ Draft.Over result earlier (written b (fresh earlier.bare {})).2
        (written b (fresh earlier s)).2 := by
  have hfresh : Draft.Over result earlier (fresh earlier.bare {}) (fresh earlier s) :=
    over_fresh ⟨agrees_empty, hs⟩
  obtain ⟨hout, hover⟩ := alike_written hb _ _ hfresh
  exact ⟨hout.symm, hover⟩

/-- What is written is wired, if it is written. -/
theorem generate_apply (b : Blueprint) (d : Draft) : generate b d = match written b d with
    | (.error e, d') => (.error e, d')
    | (.ok (text, schema), d') =>
      ((wire b schema d').1.map fun handlers => { schema, text, handlers, leaves := b.leaves },
        (wire b schema d').2) := by
  rw [generate_eq, Run.bind_apply]
  rcases written b d with ⟨_ | ⟨text, schema⟩, d'⟩
  · rfl
  · dsimp only
    rw [Run.bind_apply]
    rcases wire b schema d' with ⟨_ | handlers, d2⟩ <;> rfl

/-- Wiring changes nothing but what is known of thunks. -/
theorem extensions_wire (schema : Schema) (d : Draft) :
    (wire b schema d).2.extensions = d.extensions := by
  cases hi : b.implementations.foldlM (implement schema) b.base.handlers with
  | error e => rw [wire_of_error hi]
  | ok hs => rw [wire_of_ok hi]

/-- What a generation leaves in the collection is what writing left. -/
theorem extensions_generate (b : Blueprint) (d : Draft) :
    (generate b d).2.extensions = (written b d).2.extensions := by
  rw [generate_apply]
  rcases written b d with ⟨_ | ⟨text, schema⟩, d'⟩
  · rfl
  · exact extensions_wire schema d'

theorem coherent_laidOver {own : Extensions} (h : own.Coherent result)
    (hearlier : earlier.Coherent result) : (own.laidOver earlier).Coherent result := by
  intro type p hp
  rw [Extensions.policy?_laidOver] at hp
  cases howned : own.policy? type with
  | some q =>
    rw [howned] at hp
    exact h type p (howned.trans hp)
  | none =>
    rw [howned, Option.none_or] at hp
    exact hearlier type p hp

/-- Drafts with the same models, configurations, policies and alternates are wired the same. -/
theorem wire_congr (d d' : Draft) (hconfigs : d'.configs = d.configs)
    (hmodels : d'.models = d.models)
    (hpolicy : ∀ type, d'.extensions.policy? type = d.extensions.policy? type)
    (hprimary : ∀ type, d'.extensions.primary? type = d.extensions.primary? type)
    (hagreeing : DirectiveOption.Agreeing result d.thunks d'.thunks)
    (hcoherent : ∀ type fs, d.configs.get? type = some fs →
      ∀ e ∈ fs, DirectiveOption.Coherent result e.2.directives)
    (hgoverned : d.extensions.Coherent result) (schema : Schema) :
    (wire b schema d').1 = (wire b schema d).1
      ∧ (wire b schema d').2.thunks.Agrees result := by
  cases hi : b.implementations.foldlM (implement schema) b.base.handlers with
  | error e =>
    rw [wire_of_error hi, wire_of_error hi]
    exact ⟨rfl, hagreeing.2⟩
  | ok hs =>
    have hsetting : b.setting d' = { b.setting d with extensions := d'.extensions } := by
      unfold Blueprint.setting
      rw [hconfigs, hmodels]
    have hcoherent : ∀ v c, Wiring.configOf (b.setting d) v = some c →
        DirectiveOption.Coherent result c.directives := by
      intro v c hc
      obtain ⟨fs, hfs, hget⟩ := Option.bind_eq_some_iff.mp hc
      exact hcoherent v.parent fs hfs _ (Table.mem_of_get? hget)
    obtain ⟨hout, hthunks⟩ := Wiring.alike_wireAll (s := b.setting d) (x := d'.extensions) hpolicy
      hprimary hgoverned hcoherent hs schema.walk d.thunks d'.thunks hagreeing
    rw [wire_of_ok hi, wire_of_ok hi, hsetting]
    exact ⟨hout.symm, hthunks.2⟩

/-- Drafts over each other are wired by the same policies. -/
theorem wire_over {d d' : Draft} (h : Draft.Over result earlier d d')
    (hearlier : earlier.Coherent result) (schema : Schema) :
    (wire b schema d').1 = (wire b schema { d with extensions := d.extensions.laidOver earlier }).1
      ∧ (wire b schema d').2.thunks.Agrees result :=
  wire_congr { d with extensions := d.extensions.laidOver earlier } d' h.configs h.models
    (fun type => (h.policy type).trans (Extensions.policy?_laidOver ..).symm)
    (fun type => (h.primary type).trans (Extensions.primary?_laidOver ..).symm) h.agreeing h.coherent.1
    (coherent_laidOver h.coherent.2 hearlier) schema

/-- **A generation gives what is generated over the earlier policies and alternates**, whatever
was evaluated before. -/
theorem generate_fresh (hs : s.Agrees result) (hx : x.Coherent result)
    (hb : b.Coherent result x.fields) : (generate b (fresh x s)).1 = outcomeOver b x
      ∧ (generate b (fresh x s)).2.thunks.Agrees result := by
  obtain ⟨hout, hover⟩ := over_written hs hb
  rw [generate_apply, outcomeOver]
  rcases hrun : written b (fresh x s) with ⟨o, d'⟩
  rcases hclean : written b (fresh x.bare {}) with ⟨o', d⟩
  rw [hrun, hclean] at hout hover
  obtain rfl : o = o' := hout
  cases o with
  | error e => exact ⟨rfl, hover.agreeing.2⟩
  | ok w =>
    obtain ⟨hwired, hthunks⟩ := wire_over (b := b) hover hx w.2
    exact ⟨congrArg (Except.map _) hwired, hthunks⟩

/-- What a generation leaves is what it states itself, over what was there before. -/
theorem leftovers_eq (hs : s.Agrees result) (hb : b.Coherent result x.fields) :
    (generate b (fresh x s)).2.extensions.fields = x.fields
      ∧ (∀ type, (generate b (fresh x s)).2.extensions.policy? type
        = ((stated b x).policy? type).or (x.policy? type))
      ∧ (∀ type, (generate b (fresh x s)).2.extensions.primary? type
        = ((stated b x).primary? type).or (x.primary? type))
      ∧ (stated b x).Coherent result := by
  obtain ⟨-, hover⟩ := over_written hs hb
  rw [extensions_generate, ← extensions_written]
  exact ⟨hover.fields.2, hover.policy, hover.primary, hover.coherent.2⟩

/-- A generation is over the same if it states all that differs before. -/
theorem outcomeOver_congr {earlier' : Extensions} (hb : b.Coherent result earlier.fields)
    (hearlier : earlier.Coherent result) (hfields : earlier'.fields = earlier.fields)
    (hpolicy : ∀ type, (stated b earlier).policy? type = none →
      earlier'.policy? type = earlier.policy? type)
    (hprimary : ∀ type, (stated b earlier).primary? type = none →
      earlier'.primary? type = earlier.primary? type) :
    outcomeOver b earlier' = outcomeOver b earlier := by
  have hbare : earlier'.bare = earlier.bare := by rw [Extensions.bare, Extensions.bare, hfields]
  obtain ⟨-, hover⟩ := over_written (s := {}) agrees_empty hb
  rw [← extensions_written] at hpolicy hprimary
  unfold outcomeOver
  rw [hbare]
  rcases hclean : written b (fresh earlier.bare {}) with ⟨_ | ⟨text, schema⟩, d⟩
  · rfl
  · rw [hclean] at hover hpolicy hprimary
    have hpolicy : ∀ type, (d.extensions.laidOver earlier').policy? type
        = (d.extensions.laidOver earlier).policy? type := by
      intro type
      rw [Extensions.policy?_laidOver, Extensions.policy?_laidOver]
      cases hown : d.extensions.policy? type with
      | some p => rfl
      | none => exact hpolicy type hown
    have hprimary : ∀ type, (d.extensions.laidOver earlier').primary? type
        = (d.extensions.laidOver earlier).primary? type := by
      intro type
      rw [Extensions.primary?_laidOver, Extensions.primary?_laidOver]
      cases hown : d.extensions.primary? type with
      | some name => rfl
      | none => exact hprimary type hown
    exact congrArg (Except.map _) (wire_congr { d with extensions := d.extensions.laidOver earlier }
      { d with extensions := d.extensions.laidOver earlier' } rfl rfl hpolicy hprimary
      ⟨hover.agreeing.1, hover.agreeing.1⟩ hover.coherent.1
      (coherent_laidOver hover.coherent.2 hearlier) schema).1

/-- Over whatever was there before, the text, the schema and the resolvers are the same. -/
theorem same_of_outcomeOver {earlier' : Extensions} (hfields : earlier'.fields = earlier.fields)
    {g g' : Generated} (h : outcomeOver b earlier = .ok g) (h' : outcomeOver b earlier' = .ok g') :
    g'.text = g.text ∧ g'.schema = g.schema ∧ g'.leaves = g.leaves
      ∧ ∀ type field, g'.handlers.yieldAt type field = g.handlers.yieldAt type field := by
  have hbare : earlier'.bare = earlier.bare := by rw [Extensions.bare, Extensions.bare, hfields]
  unfold outcomeOver at h h'
  rw [hbare] at h'
  rcases hclean : written b (fresh earlier.bare {}) with ⟨_ | ⟨text, schema⟩, d⟩
  · rw [hclean] at h
    cases h
  · rw [hclean] at h h'
    obtain ⟨hs, hwire, rfl⟩ := Outcome.map_eq_ok.mp h
    obtain ⟨hs', hwire', rfl⟩ := Outcome.map_eq_ok.mp h'
    refine ⟨rfl, rfl, rfl, fun type field => ?_⟩
    obtain ⟨⟨r, hr, hwired⟩, -⟩ := wire_eq_ok (Prod.ext hwire rfl)
    obtain ⟨⟨r', hr', hwired'⟩, -⟩ := wire_eq_ok (Prod.ext hwire' rfl)
    obtain rfl : r = r' := Except.ok.inj (hr.symm.trans hr')
    exact (Wiring.yieldAt_wireAll (fun _ _ => rfl) hwired hwired' type field).symm

/-- A generation restates what another one states: a policy for each type that has one there, and
an alternate for each alternate. -/
def Restates (a b : Blueprint) (x : Extensions) : Prop :=
  Table.keys (stated a x).policies ⊆ Table.keys (stated b x).policies
    ∧ Table.keys (stated a x).aliases ⊆ Table.keys (stated b x).aliases

/-- What has no entry here has none in a table with fewer names. -/
theorem get?_eq_none_of_subset {α β : Type} {t : Table α} {t' : Table β}
    (h : Table.keys t' ⊆ Table.keys t) {key : String} (hnone : Table.get? t key = none) :
    Table.get? t' key = none := by
  rw [Table.get?_eq_none_iff, ← Bool.not_eq_true, ← Table.mem_keys_iff] at hnone ⊢
  exact fun hmem => hnone (h hmem)

/-- **A second generation is as if it was the only one, but for the policies and alternates that it
does not state and the first one left.** Whether or not the first one fails, the second one finds
the added fields as they were, and fails before wiring or gives a text and a schema as it would
alone. It is wired by its own policies and alternates over those that the first one stated and
those before; so its resolvers are the same in any case, and its whole outcome is if it restates
what the first one states. -/
theorem second_generation (hs : s.Agrees result) (hx : x.Coherent result)
    (ha : a.Coherent result x.fields) (hb : b.Coherent result x.fields) :
    let first := (generate a (fresh x s)).2
    let alone := (generate b (fresh x s)).1
    let second := (generate b (fresh first.extensions first.thunks)).1
    first.extensions.fields = x.fields
      ∧ (∀ type, first.extensions.policy? type
        = ((stated a x).policy? type).or (x.policy? type))
      ∧ (∀ type, first.extensions.primary? type
        = ((stated a x).primary? type).or (x.primary? type))
      ∧ (written b (fresh first.extensions first.thunks)).1 = (written b (fresh x s)).1
      ∧ alone = outcomeOver b x
      ∧ second = outcomeOver b first.extensions
      ∧ (∀ g g', alone = .ok g → second = .ok g' → g'.text = g.text ∧ g'.schema = g.schema
        ∧ g'.leaves = g.leaves
        ∧ ∀ type field, g'.handlers.yieldAt type field = g.handlers.yieldAt type field)
      ∧ (Restates a b x → second = alone) := by
  intro first alone second
  obtain ⟨hfields, hpolicy, hprimary, hown⟩ := leftovers_eq hs ha
  have hthunks : first.thunks.Agrees result := (generate_fresh hs hx ha).2
  have hleft : first.extensions.Coherent result := by
    intro type p hp
    refine coherent_laidOver hown hx type p ?_
    rw [Extensions.policy?_laidOver]
    exact (hpolicy type).symm.trans hp
  have hb' : b.Coherent result first.extensions.fields := by
    rw [hfields]
    exact hb
  have halone : alone = outcomeOver b x := (generate_fresh hs hx hb).1
  have hsecond : second = outcomeOver b first.extensions := (generate_fresh hthunks hleft hb').1
  have hbare : first.extensions.bare = x.bare := by rw [Extensions.bare, Extensions.bare, hfields]
  refine ⟨hfields, hpolicy, hprimary, ?_, halone, hsecond, fun g g' h h' => ?_, fun h => ?_⟩
  · rw [(over_written hthunks hb').1, (over_written hs hb).1, hbare]
  · exact same_of_outcomeOver hfields (halone ▸ h) (hsecond ▸ h')
  · rw [hsecond, halone]
    refine outcomeOver_congr hb hx hfields (fun type hnone => ?_) fun type hnone => ?_
    · rw [hpolicy, Extensions.policy?, get?_eq_none_of_subset h.1 hnone, Option.none_or]
    · rw [hprimary, Extensions.primary?, get?_eq_none_of_subset h.2 hnone, Option.none_or]

/-! ### Users and viewers -/

/-- A directive that refuses everything. -/
def denial : Directive where
  name := "auth"
  arguments := []
  steps := [.raise "denied"]
  awaits := false

/-- A list of it, made when it is needed and then kept. -/
def laterDenial : DirectiveOption := .thunk "auth" true (.list [.directive denial])

/-- A field of a fixed value. -/
def fixed (returnType : String) : FieldEntry := .field (.config
  { returnType := .text returnType, resolver := .callable ⟨.const (.record []), false⟩ })

/-- Some types with a query for them. -/
def querying (fields : List (String × FieldEntry)) (types : Table TypeDeclaration) : Blueprint where
  base := .absent
  types := ("Query", .inline (.fields fields)) :: types
  models := []
  policies := []
  plugins := [.classes]
  columnTypes := []
  implementations := []

/-- Users by a class, which go as viewers as well. -/
def users (directives : DirectiveOption) : Blueprint :=
  querying [("user", fixed "User"), ("viewer", fixed "Viewer")]
    [("User", .plain 0 [("name", .value (.text "String"))]
      (some (.policy { Policy.plain with directives, aliases := [("Viewer", .value .null)] })))]

/-- Users and viewers without any policy. -/
def strangers : Blueprint :=
  querying [("user", fixed "User"), ("viewer", fixed "Viewer")]
    [("User", .inline (.fields [("name", .field (.value (.text "String")))])),
      ("Viewer", .inline (.fields [("name", .field (.value (.text "String")))]))]

/-- The visits of both queries. -/
def queries : List Visit := [⟨"Query", "user", .named "User"⟩, ⟨"Query", "viewer", .named "Viewer"⟩]

/-- The directives around both queries. -/
def guards (g : Generated) : List (List String) :=
  queries.map fun v => (g.chain v).map (·.name)

theorem coherent_users {o : DirectiveOption} (ho : DirectiveOption.Coherent result o) :
    (users o).Coherent result [] := by
  intro p hp
  have hoptions : ((users o).declarations none).directiveOptions []
      = [.none, .none, .none, o] := rfl
  rw [hoptions] at hp
  simp only [List.mem_cons, List.not_mem_nil, or_false] at hp
  rcases hp with rfl | rfl | rfl | rfl
  · exact DirectiveOption.coherent_none
  · exact DirectiveOption.coherent_none
  · exact DirectiveOption.coherent_none
  · exact ho

/-- Users that are declared again with an open policy are open. -/
theorem second_generation_users : ∃ g,
    (generate (users .none) (fresh {} {})).1 = .ok g
      ∧ guards g = [[], []]
      ∧ (generate (users .none) (fresh (generate (users laterDenial) (fresh {} {})).2.extensions
          (generate (users laterDenial) (fresh {} {})).2.thunks)).1 = .ok g := by
  have hgives : gives (fun g _ => guards g == [[], []]) (users .none) (fresh {} {}) = true := by
    unfold gives viaDocument Generate.wire Schema.walk Schema.entered
    simp only [Schema.enter_eq_enterN]
    decide +kernel
  obtain ⟨g, d', h, -, -, hguards⟩ := eq_of_gives hgives
  have hresult : DirectiveOption.Coherent (fun _ => .list [.directive denial]) laterDenial :=
    .thunk (DirectiveOption.coherent_list [denial]) fun _ => rfl
  have hx : ({} : Extensions).Coherent fun _ => .list [.directive denial] :=
    fun type p hp => by cases hp
  have hsecond := second_generation (x := {}) agrees_empty hx (coherent_users hresult)
    (coherent_users DirectiveOption.coherent_none)
  have hrestates : Restates (users laterDenial) (users .none) {} := by
    unfold Restates
    decide +kernel
  refine ⟨g, congrArg Prod.fst h, beq_iff_eq.mp hguards, ?_⟩
  rw [hsecond.2.2.2.2.2.2.2 hrestates, h]

/-- **Strangers are refused like the users before them.** Alone their fields have no directives; but
once users were declared with a directive and an alternate, without either being declared again
both fields have the directive. -/
theorem not_isolated : ∃ g g',
    (generate strangers (fresh {} {})).1 = .ok g ∧ guards g = [[], []]
      ∧ (generate strangers (fresh (generate (users laterDenial) (fresh {} {})).2.extensions
          (generate (users laterDenial) (fresh {} {})).2.thunks)).1 = .ok g'
      ∧ guards g' = [["auth"], ["auth"]] := by
  have halone : gives (fun g _ => guards g == [[], []]) strangers (fresh {} {}) = true := by
    unfold gives viaDocument Generate.wire Schema.walk Schema.entered
    simp only [Schema.enter_eq_enterN]
    decide +kernel
  have hsecond : gives (fun _ d => gives (fun g _ => guards g == [["auth"], ["auth"]]) strangers
      (fresh d.extensions d.thunks)) (users laterDenial) (fresh {} {}) = true := by
    unfold gives viaDocument Generate.wire Schema.walk Schema.entered
    simp only [Schema.enter_eq_enterN]
    decide +kernel
  obtain ⟨g, _, hg, -, -, hguards⟩ := eq_of_gives halone
  obtain ⟨_, d, hd, -, -, hgives⟩ := eq_of_gives hsecond
  obtain ⟨g', _, hg', -, -, hguards'⟩ := eq_of_gives hgives
  refine ⟨g, g', congrArg Prod.fst hg, beq_iff_eq.mp hguards, ?_, beq_iff_eq.mp hguards'⟩
  rw [hd, hg']

end Generate
end SchemaForge
