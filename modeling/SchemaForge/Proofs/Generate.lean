import SchemaForge.Generate
import SchemaForge.Proofs.Schema.Building
import SchemaForge.Proofs.Synthesis.SecondPass
import SchemaForge.Proofs.Wiring

/-!
# What a generated schema has of the declarations

A generation that succeeds has gone through both passes, the text, the schema and the
wiring. So what its handlers do follows from how the declarations make fields stand.
**`chain_eq`** says which directives stand around a visited field.
-/
namespace SchemaForge

open Language

/-- Handlers without directives. -/
def Handlers.Bare (hs : Handlers) : Prop :=
  ∀ type field h, hs.find? type field = some h → h.directives = []

/-- A schema to start from has its names apart, and plain resolvers. -/
def BaseOption.Proper : BaseOption → Prop
  | .given s hs => s.Distinct ∧ hs.Bare
  | _ => True

namespace Blueprint

variable (b : Blueprint)

/-- The deeds of everything that is declared, with these extensions. -/
def deeds (x : Extensions) : List Deed :=
  match b.base.schema? with
  | .ok base => (b.declarations base).deeds x
  | .error _ => []

/-- How a field stands when everything is declared, from a draft on. -/
def standing (d : Draft) (s : ThunkState) (type field : String) : Standing :=
  Standing.after s type field (b.deeds d.extensions) (d.standing s type field)

/-- The directives of the policy of a type. -/
def policyDirectives (d : Draft) (s : ThunkState) (type : String) : List Directive :=
  ((b.standing d s type "").policy.map (·.meaning s)).getD []

/-- The directives around a visited field: of the primary type and of the returned type by
their policies, and of the field by its configuration. -/
def chain (d : Draft) (s : ThunkState) (v : Visit) : List Directive :=
  ((b.standing d s v.returned "").primary.map (b.policyDirectives d s)).getD []
    ++ b.policyDirectives d s v.returned
    ++ ((b.standing d s v.parent v.field).config.map (·.meaning s)).getD []

/-- What wiring works on after a synthesis. -/
def setting (d : Draft) : Wiring.Setting :=
  { declarations := b.declarations none, configs := d.configs, models := d.models
    extensions := d.extensions }

end Blueprint

/-- The directives that stand around a field of a generated schema. -/
def Generated.chain (g : Generated) (v : Visit) : List Directive :=
  ((g.handlers.find? v.parent v.field).map (·.directives)).getD []

namespace Generate

variable {b : Blueprint} {d d' : Draft} {g : Generated}

/-- Without the given resolvers nothing is wired. -/
theorem wire_of_error {s : Schema} {e : Failure}
    (h : b.implementations.foldlM (implement s) b.base.handlers = .error e) :
    wire b s d = (.error e, d) := by
  unfold wire
  rw [h]
  rfl

/-- Fields are wired over the given resolvers. -/
theorem wire_of_ok {s : Schema} {hs : Handlers}
    (h : b.implementations.foldlM (implement s) b.base.handlers = .ok hs) :
    wire b s d = ((Wiring.wireAll (b.setting d) hs s.walk d.thunks).1,
      { d with thunks := (Wiring.wireAll (b.setting d) hs s.walk d.thunks).2 }) := by
  unfold wire
  rw [h]
  rfl

/-- Wiring a schema that succeeds changes only what is known of thunks. -/
theorem wire_eq_ok {s : Schema} {hs' : Handlers} (h : wire b s d = (.ok hs', d')) :
    (∃ hs, b.implementations.foldlM (implement s) b.base.handlers = .ok hs
      ∧ Wiring.wireAll (b.setting d) hs s.walk d.thunks = (.ok hs', d'.thunks))
    ∧ d' = { d with thunks := d'.thunks } := by
  cases hi : b.implementations.foldlM (implement s) b.base.handlers with
  | error e =>
    rw [wire_of_error hi] at h
    cases h
  | ok hs =>
    rw [wire_of_ok hi] at h
    obtain ⟨hout, rfl⟩ := Prod.mk.inj h
    exact ⟨⟨hs, rfl, Prod.ext hout rfl⟩, rfl⟩

/-- A generation that succeeds, step by step. -/
theorem generate_eq_ok (h : generate b d = (.ok g, d')) : ∃ base d2,
    b.base.schema? = .ok base ∧ Synthesis.synthesize (b.declarations base) d = (.ok ⟨⟩, d2)
    ∧ d2.registry.text d2.directives ((base.map (·.typeNames)).getD [])
        ((base.map fun s => s.allDirectives.map (·.name)).getD []) = .ok g.text
    ∧ (build base g.text >>= rooted) = .ok g.schema
    ∧ (∃ hs, b.implementations.foldlM (implement g.schema) b.base.handlers = .ok hs
        ∧ Wiring.wireAll (b.setting d2) hs g.schema.walk d2.thunks = (.ok g.handlers, d'.thunks))
    ∧ d' = { d2 with thunks := d'.thunks } := by
  obtain ⟨base, _, g1, h1⟩ := Run.bind_eq_ok.mp h
  obtain ⟨hbase, rfl⟩ := Synthesis.lift_eq_ok g1
  obtain ⟨_, d2, hsynth, h2⟩ := Run.bind_eq_ok.mp h1
  obtain ⟨_, _, g2, h3⟩ := Run.bind_eq_ok.mp h2
  cases g2
  obtain ⟨text, _, g3, h4⟩ := Run.bind_eq_ok.mp h3
  obtain ⟨htext, rfl⟩ := Synthesis.lift_eq_ok g3
  obtain ⟨_, _, g4, h5⟩ := Run.bind_eq_ok.mp h4
  obtain ⟨-, rfl⟩ := Synthesis.lift_eq_ok g4
  obtain ⟨schema, _, g5, h6⟩ := Run.bind_eq_ok.mp h5
  obtain ⟨hschema, rfl⟩ := Synthesis.lift_eq_ok g5
  obtain ⟨handlers, d3, hwire, h7⟩ := Run.bind_eq_ok.mp h6
  cases h7
  obtain ⟨hwired, hd⟩ := wire_eq_ok hwire
  exact ⟨base, _, hbase, hsynth, htext, hschema, hwired, hd⟩

/-! ### The schema -/

/-- What is built is the base, if there is no text, or the base with what the text reads as. -/
theorem build_eq_ok {base : Option Schema} {text : String} {s : Schema}
    (h : build base text = .ok s) :
    (text = "" ∧ s = base.getD Schema.empty)
      ∨ text ≠ "" ∧ ∃ doc, Document.ofText? text = .ok doc
        ∧ Schema.ofAddition ⟨base, doc⟩ = .ok s := by
  unfold build at h
  split at h
  · rename_i hempty
    cases h
    exact .inl ⟨beq_iff_eq.mp hempty, rfl⟩
  · rename_i hsome
    refine .inr ⟨by simpa using hsome, ?_⟩
    cases base with
    | none => exact Outcome.bind_eq_ok.mp h
    | some base => exact Outcome.bind_eq_ok.mp h

end Generate

/-- What everything is like that is built from documents, one after the other. -/
structure Schema.Invariant (P : Schema → Prop) : Prop where
  /-- So is a schema with nothing of its own. -/
  empty : P Schema.empty
  /-- So is what is built over something like it. -/
  built : ∀ a : Addition, (∀ b ∈ a.base, P b) → ∀ s, Schema.ofAddition a = .ok s → P s

namespace Schema.Invariant

variable {P : Schema → Prop} (hP : Schema.Invariant P)

include hP

theorem of_text {text : String} {s : Schema} (h : Schema.ofText text = .ok s) : P s := by
  obtain ⟨doc, -, hs⟩ := Outcome.bind_eq_ok.mp h
  exact hP.built ⟨none, doc⟩ (fun b hb => by cases hb) s hs

/-- A schema to start from is like it, if those are that are given. -/
theorem of_base {b : BaseOption} (hgiven : ∀ s hs, b = .given s hs → P s) {base : Option Schema}
    (h : b.schema? = .ok base) : ∀ s ∈ base, P s := by
  intro s hs
  cases b with
  | absent =>
    cases h
    cases hs
  | text text =>
    cases hs
    cases ht : Schema.ofText text with
    | error e =>
      rw [BaseOption.schema?, ht] at h
      cases h
    | ok s' =>
      rw [BaseOption.schema?, ht] at h
      cases h
      exact hP.of_text ht
  | given s' hs' =>
    cases h
    cases hs
    exact hgiven _ _ rfl
  | other v => cases h

/-- What is built from a text over a base is like it. -/
theorem of_build {base : Option Schema} {text : String} {s : Schema} (hb : ∀ s ∈ base, P s)
    (h : Generate.build base text = .ok s) : P s := by
  rcases Generate.build_eq_ok h with ⟨-, rfl⟩ | ⟨-, doc, -, hs⟩
  · cases base with
    | none => exact hP.empty
    | some s => exact hb s rfl
  · exact hP.built ⟨base, doc⟩ hb s hs

end Schema.Invariant

theorem Schema.invariant_distinct : Schema.Invariant Schema.Distinct where
  empty := ⟨List.nodup_nil, fun t ht => by cases ht⟩
  built _ hb _ h := Schema.distinct_ofAddition hb h

namespace Generate

variable {b : Blueprint} {d d' : Draft} {g : Generated}

/-- A proper base has its names apart. -/
theorem distinct_base (hb : b.base.Proper) {base : Option Schema}
    (h : b.base.schema? = .ok base) : ∀ s ∈ base, s.Distinct := by
  refine Schema.invariant_distinct.of_base (fun s hs hgiven => ?_) h
  rw [hgiven] at hb
  exact hb.1

/-- Choosing the roots keeps all else; there is a query root then. -/
theorem rooted_eq_ok {s s' : Schema} (h : rooted s = .ok s') :
    s.types.has OperationKind.query.rootName = true ∧ s' = ⟨s.types, s.directives,
      ([OperationKind.query, .mutation].filterMap fun k =>
          if s.types.has k.rootName then some (k, k.rootName) else none)
        ++ s.roots.filter (·.1 == .subscription)⟩ := by
  unfold rooted at h
  cases hk : s.kind? OperationKind.query.rootName with
  | none => rw [hk] at h; cases h
  | some k =>
    rw [hk] at h
    obtain ⟨_, -, h2⟩ := Outcome.bind_eq_ok.mp h
    cases h2
    refine ⟨?_, rfl⟩
    rw [Table.has_eq_isSome]
    unfold Schema.kind? at hk
    split at hk
    · rename_i hget
      rw [hget]
      rfl
    · cases hk

theorem types_rooted {s s' : Schema} (h : rooted s = .ok s') : s'.types = s.types := by
  rw [(rooted_eq_ok h).2]

/-- A generated schema has its names apart. -/
theorem distinct_generated (hb : b.base.Proper) (h : generate b d = (.ok g, d')) :
    g.schema.Distinct := by
  obtain ⟨base, _, hbase, -, -, hschema, -⟩ := generate_eq_ok h
  obtain ⟨s, hs, hrooted⟩ := Outcome.bind_eq_ok.mp hschema
  have hdistinct := Schema.invariant_distinct.of_build (distinct_base hb hbase) hs
  rw [Schema.Distinct, types_rooted hrooted]
  exact hdistinct

/-! ### The handlers -/

theorem bare_set {hs : Handlers} (h : hs.Bare) (type field : String) (r : Resolver) :
    (hs.set type field { yield := .resolver r }).Bare := by
  intro t f x hx
  rw [Handlers.find?_set] at hx
  split at hx
  · cases hx
    rfl
  · exact h t f x hx

theorem bare_foldlM {α : Type} {f : Handlers → α → Except Failure Handlers}
    (hf : ∀ hs x hs', hs.Bare → f hs x = .ok hs' → hs'.Bare) {xs : List α} {hs hs' : Handlers}
    (h : hs.Bare) (hrun : xs.foldlM f hs = .ok hs') : hs'.Bare := by
  induction xs generalizing hs with
  | nil =>
    cases hrun
    exact h
  | cons x xs ih =>
    rw [List.foldlM_cons] at hrun
    obtain ⟨hs1, h1, h2⟩ := Outcome.bind_eq_ok.mp hrun
    exact ih (hf hs x hs1 h h1) h2

/-- Setting given resolvers brings no directives. -/
theorem bare_implement {s : Schema} {hs hs' : Handlers} {named : String × Implementation}
    (h : hs.Bare) (hrun : implement s hs named = .ok hs') : hs'.Bare := by
  obtain ⟨type, given⟩ := named
  unfold implement at hrun
  cases given with
  | leaf l =>
    dsimp only at hrun
    split at hrun
    · cases hrun
      exact h
    · cases hrun
  | resolvers fields =>
    refine bare_foldlM (fun hs x hs' hbare hstep => ?_) h hrun
    dsimp only at hstep
    split at hstep
    · cases hstep
      exact bare_set hbare type x.1 x.2
    · cases hstep

theorem bare_base (hb : b.base.Proper) : b.base.handlers.Bare := by
  unfold BaseOption.handlers
  split
  · rename_i s hs hgiven
    rw [hgiven] at hb
    exact hb.2
  · intro t f h hfind
    cases hfind

/-! ### How fields stand -/

/-- **After a generation every field stands as the deeds of the declarations make it
stand.** -/
theorem standsAs_generated (ht : d.Tidy) (h : generate b d = (.ok g, d')) {s : ThunkState}
    (hs : d'.thunks.Extends s) (type field : String) :
    d'.StandsAs s type field (b.standing d s type field) := by
  obtain ⟨base, d2, hbase, hsynth, -, -, ⟨_, -, hwired⟩, hd⟩ := generate_eq_ok h
  have hextends : d2.thunks.Extends d'.thunks :=
    (Wiring.wireAll_extends hwired)
  have hstands := Synthesis.standsAs_of_synthesize ht hsynth (hextends.trans hs) type field
  rw [Blueprint.standing, Blueprint.deeds, hbase, hd]
  exact ⟨hstands.policy, hstands.primary, hstands.config, hstands.uses, hstands.typeUses,
    hstands.exact⟩

/-! ### What the handlers do -/

/-- What is known after a generation is what wiring worked on. -/
theorem setting_generated {d2 : Draft} (hd : d' = { d2 with thunks := d'.thunks }) :
    b.setting d' = b.setting d2 := by
  rw [hd]
  rfl

/-- Every visited field has the handler that its configuration and its policies say. -/
theorem find?_handlers (hb : b.base.Proper) (h : generate b d = (.ok g, d')) {v : Visit}
    (hv : v ∈ g.schema.walk) : ∃ before stated, (∀ x ∈ before, x.directives = [])
      ∧ Wiring.statedOf (b.setting d') v = .ok stated
      ∧ g.handlers.find? v.parent v.field
        = Wiring.handlerOf (b.setting d') d'.thunks before v stated := by
  obtain ⟨base, d2, -, -, -, -, ⟨hs, himplement, hwired⟩, hd⟩ := generate_eq_ok h
  have hnodup := g.schema.nodup_walk (distinct_generated hb h)
  obtain ⟨stated, hstated, hfind⟩ := (Wiring.wireAll_eq_ok hnodup hwired).1 v hv
  have hbare : hs.Bare := bare_foldlM (fun _ _ _ hbare hstep => bare_implement hbare hstep)
    (bare_base hb) himplement
  rw [setting_generated hd]
  exact ⟨_, stated, fun x hx => hbare v.parent v.field x hx, hstated, hfind _ (.refl _)⟩

/-- The directives that wiring puts around a field are those that the declarations say. -/
theorem chainOf_setting (ht : d.Tidy) (h : generate b d = (.ok g, d')) (v : Visit) :
    Wiring.chainOf (b.setting d') d'.thunks v.returned (Wiring.configOf (b.setting d') v)
      = b.chain d d'.thunks v := by
  have hstands := standsAs_generated ht h (.refl _)
  have hpolicy : ∀ type, Wiring.policyMeaning (b.setting d') d'.thunks type
      = b.policyDirectives d d'.thunks type := by
    intro type
    rw [Wiring.policyMeaning, Blueprint.policyDirectives, ← (hstands type "").policy]
    rfl
  have hconfig : ((Wiring.configOf (b.setting d') v).map (·.meaning d'.thunks)).getD []
      = ((b.standing d d'.thunks v.parent v.field).config.map (·.meaning d'.thunks)).getD [] := by
    rw [← (hstands v.parent v.field).config, Option.map_map]
    simp only [Function.comp_def, FieldConfig.meaning_settled]
    rfl
  rw [Wiring.chainOf, Blueprint.chain, hconfig, hpolicy, ← (hstands v.returned "").primary]
  congr 2
  rw [show Wiring.policyMeaning (b.setting d') d'.thunks = b.policyDirectives d d'.thunks from
    funext hpolicy]
  rfl

/-- **The directives that stand around a visited field are those of the policies and of
the configuration that the declarations leave.** -/
theorem chain_eq (hb : b.base.Proper) (ht : d.Tidy) (h : generate b d = (.ok g, d')) {v : Visit}
    (hv : v ∈ g.schema.walk) : g.chain v = b.chain d d'.thunks v := by
  obtain ⟨before, stated, hbefore, -, hfind⟩ := find?_handlers hb h hv
  rw [Generated.chain, hfind, Wiring.handlerOf, chainOf_setting ht h]
  split
  · rename_i hnone
    have hempty := (Bool.and_eq_true_iff.mp hnone).2
    rw [List.isEmpty_iff.mp hempty]
    cases before with
    | none => rfl
    | some x => exact hbefore x rfl
  · refine Handler.directives_wrapped ?_ _ _
    cases before with
    | none => rfl
    | some x => exact hbefore x rfl

end Generate
end SchemaForge
