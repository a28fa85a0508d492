import SchemaForge.Proofs.Evaluation
import SchemaForge.Proofs.Registry.Lines
import SchemaForge.Proofs.Synthesis.Losses

/-!
# Directives that are shown and directives that run

A schema text shows directives on fields and on types; a directive protects a field only if
it is in the chain around the field. The text keeps every use that was declared, while the
chain is made from the configuration and the policies that declarations left at the end. So
the text shows a directive that does not run exactly where a declaration replaced a
configuration or a policy by one without it.
-/
namespace SchemaForge

/-- Every directive that the text shows on a visited field, or on the type that it returns,
is in the chain around the field. -/
def Generated.Enforces (g : Generated) (r : Registry) (v : Visit) : Prop :=
  ∀ u ∈ r.shownOn v.parent v.field ++ r.shownAt v.returned, u ∈ (g.chain v).map Directive.use

namespace Blueprint

variable (b : Blueprint)

/-- Every directive that declarations wrote on a visited field, and on the type that it
returns, is one of those that they left around it. Lines without a return type and types
without lines do not count, as nothing is shown of them. -/
def Keeps (d d' : Draft) (v : Visit) : Prop :=
  ((d'.registry.entry v.parent).kind ≠ .scalar → (d'.registry.line v.parent v.field).type ≠ "" →
      ∀ u ∈ (b.standing d d'.thunks v.parent v.field).uses,
        u ∈ (b.chain d d'.thunks v).map Directive.use)
  ∧ ((d'.registry.entry v.returned).isShown →
      ∀ u ∈ (b.standing d d'.thunks v.returned "").typeUses,
        u ∈ (b.chain d d'.thunks v).map Directive.use)

end Blueprint

namespace Generate

variable {b : Blueprint} {d d' : Draft} {g : Generated} {v : Visit}

/-- **The text shows no directive that does not run, if the declarations keep the directives
of the field; and, for types that are not derived, only then.** -/
theorem enforces_iff_keeps (hb : b.base.Proper) (ht : d.Tidy) (h : generate b d = (.ok g, d'))
    (hv : v ∈ g.schema.walk) :
    (b.Keeps d d' v → g.Enforces d'.registry v)
    ∧ (¬IsDerived v.parent → ¬IsDerived v.returned → g.Enforces d'.registry v →
        b.Keeps d d' v) := by
  have hfield := standsAs_generated ht h (.refl _) v.parent v.field
  have htype := standsAs_generated ht h (.refl _) v.returned ""
  rw [Generated.Enforces, chain_eq hb ht h hv]
  constructor
  · rintro ⟨hkeepField, hkeepType⟩ u hu
    rcases List.mem_append.mp hu with hu | hu
    · unfold Registry.shownOn FieldLine.shown at hu
      split at hu
      · cases hu
      · rename_i hkind
        split at hu
        · cases hu
        · rename_i hline
          exact hkeepField hkind (by simpa using hline) u (hfield.uses hu)
    · unfold Registry.shownAt TypeEntry.shown at hu
      split at hu
      · rename_i hshown
        exact hkeepType hshown u (htype.typeUses hu)
      · cases hu
  · intro hparent hreturned henforces
    have huses := congrArg Standing.uses (hfield.exact hparent)
    have htypeUses := congrArg Standing.typeUses (htype.exact hreturned)
    constructor
    · intro hkind hline u hu
      refine henforces u (List.mem_append_left _ ?_)
      rw [Registry.shownOn, if_neg hkind, FieldLine.shown, if_neg (by simpa using hline)]
      rw [← huses] at hu
      exact hu
    · intro hshown u hu
      refine henforces u (List.mem_append_right _ ?_)
      rw [Registry.shownAt, TypeEntry.shown, if_pos hshown]
      rw [← htypeUses] at hu
      exact hu

/-! ### A directive that is lost -/

/-- A directive that refuses everything. -/
def refusal : Directive where
  name := "auth"
  arguments := []
  steps := [.raise "denied"]
  awaits := false

/-- A field that is declared with a directive. -/
def guarded : Blueprint where
  base := .absent
  types := [("Query", .inline (.fields [("secret", .field (.config
    { returnType := .text "String", resolver := .callable ⟨.const (.text "hidden"), false⟩
      directives := .list [.directive refusal] }))]))]
  models := []
  policies := []
  plugins := []
  columnTypes := []
  implementations := []

/-- An extension that declares the field again, with a resolver of its own. -/
def reopened : Draft where
  extensions := { fields := [("Query", [("secret", .field (.config
    { returnType := .text "String", resolver := .callable ⟨.const (.text "open"), false⟩ }))])] }

/-- The visit of the field. -/
def secret : Visit := ⟨"Query", "secret", .named "String"⟩

/-- Without the extension the directive that is shown runs, as it is kept. -/
theorem enforces_iff_keeps_guarded : ∃ g d', generate guarded {} = (.ok g, d')
    ∧ guarded.base.Proper ∧ Draft.Tidy {} ∧ secret ∈ g.schema.walk
    ∧ d'.registry.shownOn "Query" "secret" = ["@auth"]
    ∧ (g.Enforces d'.registry secret ↔ guarded.Keeps {} d' secret) := by
  have hgives : gives (fun g d' => g.schema.walk.contains secret
      && d'.registry.shownOn "Query" "secret" == ["@auth"]) guarded {} = true := by
    unfold gives viaDocument Generate.wire Schema.walk Schema.entered
    simp only [Schema.enter_eq_enterN]
    decide +kernel
  obtain ⟨g, d', h, -, -, hrun⟩ := eq_of_gives hgives
  simp only [Bool.and_eq_true, List.contains_iff_mem, beq_iff_eq] at hrun
  have hb : guarded.base.Proper := trivial
  have ht : Draft.Tidy {} := Draft.tidy_of_extensions {}
  have hshort : ∀ name : String, name.length < 11 → ¬IsDerived name := fun name hlength hd =>
    absurd (length_of_isDerived hd) (by omega)
  have hiff := enforces_iff_keeps hb ht h hrun.1
  refine ⟨g, d', h, hb, ht, hrun.1, hrun.2, fun henforces => ?_, hiff.1⟩
  exact hiff.2 (hshort _ (by decide)) (hshort _ (by decide)) henforces

/-- The text that shows the directive on the field. -/
def guardedText : String :=
  "directive @auth on OBJECT | FIELD_DEFINITION\n\n"
    ++ "type Query \x7b\n  secret: String @auth\n\x7d"

/-- With the extension the text still shows the directive, and nothing runs around the
field. -/
theorem not_enforces_reopened : ∃ g d', generate guarded reopened = (.ok g, d')
    ∧ g.text = guardedText
    ∧ secret ∈ g.schema.walk ∧ g.chain secret = [] ∧ ¬g.Enforces d'.registry secret := by
  have hgives : gives (fun g d' => g.schema.walk.contains secret && (g.chain secret).isEmpty
      && d'.registry.shownOn "Query" "secret" == ["@auth"]
      && g.text == guardedText) guarded reopened = true := by
    unfold gives viaDocument Generate.wire Schema.walk Schema.entered
    simp only [Schema.enter_eq_enterN]
    decide +kernel
  obtain ⟨g, d', h, -, -, hrun⟩ := eq_of_gives hgives
  simp only [Bool.and_eq_true, List.contains_iff_mem, beq_iff_eq, List.isEmpty_iff] at hrun
  obtain ⟨⟨⟨hv, hchain⟩, hshown⟩, htext⟩ := hrun
  refine ⟨g, d', h, htext, hv, hchain, fun henforces => ?_⟩
  have hrunning := henforces "@auth" (List.mem_append_left _ (hshown ▸ List.mem_cons_self ..))
  rw [hchain] at hrunning
  cases hrunning

end Generate
end SchemaForge
