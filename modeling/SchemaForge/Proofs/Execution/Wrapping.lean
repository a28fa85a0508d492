import SchemaForge.Execution.Completion
import SchemaForge.Proofs.Schema.Closure
import SchemaForge.Proofs.Wiring

/-!
# Directives around the fields of a schema

Wiring puts directives around a field once for each visit. The walk visits a field once, so
what a field yields afterwards is what was stated of it, or what it yielded before, with one
chain around it: the directives of the primary type, inside them those of the returned type,
and inside these those of the field.
-/
namespace SchemaForge

theorem Chain.run_append (scene : Scene) (call : Call) (outer inner : List Directive)
    (field : Act Value) : run scene call (outer ++ inner) field
      = run scene call outer (run scene call inner field) :=
  List.foldr_append

namespace Wiring

variable (s : Setting)

/-- The directives of the primary type of a type, if it has one. -/
def primaryMeaning (t : ThunkState) (type : String) : List Directive :=
  ((s.extensions.primary? type).map (policyMeaning s t)).getD []

/-- The directives of the configuration of a visited field, if it has one. -/
def configMeaning (t : ThunkState) (v : Visit) : List Directive :=
  ((configOf s v).map (·.meaning t)).getD []

/-- What a field yields without the directives that a visit brings: what is stated of it, or
what it yielded before. -/
def statedValue (scene : Scene) (call : Call) (before : Handler) : Option Yield → Act Value
  | some y => Completion.plainValue scene call y
  | none => Completion.fieldValue scene call before

/-- A handler that was wrapped yields what was stated, or what it yielded before, inside of
the directives. -/
theorem fieldValue_wrapped (scene : Scene) (call : Call) (before : Handler)
    (stated : Option Yield) (directives : List Directive) :
    Completion.fieldValue scene call (before.wrapped stated directives)
      = Chain.run scene call directives (statedValue scene call before stated) := by
  cases stated with
  | some y => rfl
  | none => exact Chain.run_append scene call directives before.directives _

/-- What a visited field yields after its visit. -/
theorem fieldValue_handlerOf (scene : Scene) (call : Call) (t : ThunkState)
    (before : Option Handler) (v : Visit) (stated : Option Yield) :
    Completion.fieldValue scene call ((handlerOf s t before v stated).getD {})
      = Chain.run scene call (primaryMeaning s t v.returned)
          (Chain.run scene call (policyMeaning s t v.returned)
            (Chain.run scene call (configMeaning s t v)
              (statedValue scene call (before.getD {}) stated))) := by
  have hchain : chainOf s t v.returned (configOf s v)
      = primaryMeaning s t v.returned ++ policyMeaning s t v.returned ++ configMeaning s t v := rfl
  rw [← Chain.run_append, ← Chain.run_append, ← hchain, handlerOf]
  split
  · rename_i hkeep
    obtain ⟨hstated, hempty⟩ := Bool.and_eq_true_iff.mp hkeep
    rw [List.isEmpty_iff.mp hempty, Option.isNone_iff_eq_none.mp hstated, Chain.run_nil]
    rfl
  · exact fieldValue_wrapped scene call _ stated _

/-- **Every field that is reached is visited once, and wrapped in its directives once.** The
loop over the queue ends; it has visited the fields of the types of the least closed set,
each once, and no others. Whatever is wired over these visits, a visited field then yields
what is stated of it, or else what it yielded before, inside of the directives of the field,
inside of those of the returned type, inside of those of the primary type; the handler of
any other field is left as it was. -/
theorem wraps_reached_once {schema : Schema} (hs : schema.Distinct) :
    (∃ checked, (Schema.Tour.step schema)^[schema.turns] schema.tour
        = ⟨[], checked, schema.walk⟩)
    ∧ schema.walk.Nodup
    ∧ (schema.walk.map fun v => (v.parent, v.field)).Nodup
    ∧ (∀ v, v ∈ schema.walk ↔ schema.Reaches v.parent ∧ v ∈ schema.visitsOf v.parent)
    ∧ ∀ (setting : Setting) (before after : Handlers) (t t' : ThunkState),
        wireAll setting before schema.walk t = (.ok after, t') →
        (∀ v ∈ schema.walk, ∃ stated, statedOf setting v = .ok stated
          ∧ ∀ (scene : Scene) (call : Call),
            Completion.fieldValue scene call ((after.find? v.parent v.field).getD {})
              = Chain.run scene call (primaryMeaning setting t' v.returned)
                  (Chain.run scene call (policyMeaning setting t' v.returned)
                    (Chain.run scene call (configMeaning setting t' v)
                      (statedValue scene call ((before.find? v.parent v.field).getD {})
                        stated))))
        ∧ ∀ type field, (type, field) ∉ schema.walk.map (fun v => (v.parent, v.field)) →
            after.find? type field = before.find? type field := by
  have hnodup := schema.nodup_walk hs
  refine ⟨Schema.iterate_tour hs, hnodup.of_map, hnodup, fun v => Schema.mem_walk_iff_reaches, ?_⟩
  intro setting before after t t' hwire
  obtain ⟨hvisited, hother⟩ := wireAll_eq_ok hnodup hwire
  refine ⟨fun v hv => ?_, hother⟩
  obtain ⟨stated, hstated, hfind⟩ := hvisited v hv
  refine ⟨stated, hstated, fun scene call => ?_⟩
  rw [hfind t' (.refl t')]
  exact fieldValue_handlerOf setting scene call t' _ v stated

/-! ### Types that form circles -/

/-- A type of a schema that was just defined. -/
private def defined (name : String) (body : Language.TypeBody) : String × SchemaType :=
  (name, .ofNode ⟨none, false, name, [], body⟩)

/-- A field that takes nothing. -/
private def plain (name : String) (type : Language.TypeRef) : Language.FieldNode :=
  ⟨none, name, [], type, []⟩

/-- A root, a type that returns it, and a union of which both are members. -/
private def circular : Schema where
  types := [
    defined "Query" (.object [] [plain "thing" (.named "Thing"),
      plain "found" (.list (.named "Found"))]),
    defined "Thing" (.object [] [plain "owner" (.nonNull (.named "Query")),
      plain "same" (.named "Thing"), plain "found" (.named "Found")]),
    defined "Found" (.union ["Thing", "Query"]),
    defined "Apart" (.object [] [plain "thing" (.named "Thing")])]
  directives := []
  roots := [(.query, "Query")]

/-- The fields of the root and of the type, in the order of the walk. -/
private def circularVisits : List Visit :=
  [⟨"Query", "thing", .named "Thing"⟩, ⟨"Query", "found", .list (.named "Found")⟩,
    ⟨"Thing", "owner", .nonNull (.named "Query")⟩, ⟨"Thing", "same", .named "Thing"⟩,
    ⟨"Thing", "found", .named "Found"⟩]

/-- A directive that writes a number. -/
private def noting (n : Int) : Directive := ⟨"note", [], [.log (.int n)], false⟩

/-- An alternate name, its primary type and one field with a directive each. -/
private def annotated : Setting where
  declarations := ⟨[], [], [], [], none, [], []⟩
  configs := [("Query", [("thing", { directives := .list [.directive (noting 3)] })])]
  models := []
  extensions :=
    { policies := [
        ("Thing", .policy { Policy.plain with directives := .list [.directive (noting 2)] }),
        ("Base", .policy { Policy.plain with directives := .list [.directive (noting 1)] })]
      aliases := [("Thing", "Base")] }

/-- The walk comes back to the root, the type and the union in many ways; in eight turns it
visits five fields, each once, and the one field with directives of all three kinds has them
around it once, in their order. -/
theorem wraps_reached_once_circular : circular.Distinct
    ∧ (∃ checked, (Schema.Tour.step circular)^[8] circular.tour = ⟨[], checked, circularVisits⟩)
    ∧ ∃ after t', wireAll annotated [] circular.walk {} = (.ok after, t')
      ∧ (∀ (scene : Scene) (call : Call),
        Completion.fieldValue scene call ((after.find? "Query" "thing").getD {})
          = Chain.run scene call [noting 1, noting 2, noting 3]
              (Completion.plainValue scene call .member))
      ∧ after.find? "Apart" "thing" = none := by
  have hdistinct : circular.Distinct := by
    unfold Schema.Distinct
    decide +kernel
  have hwalk : circular.walk = circularVisits := by
    unfold Schema.walk Schema.entered
    simp only [Schema.enter_eq_enterN]
    decide +kernel
  have hturns : circular.turns = 8 := by
    unfold Schema.turns Schema.entered
    simp only [Schema.enter_eq_enterN]
    decide +kernel
  obtain ⟨hloop, -, -, -, hwired⟩ := wraps_reached_once hdistinct
  rw [hwalk, hturns] at hloop
  obtain ⟨after, t', hrun⟩ : ∃ after t',
      wireAll annotated [] circular.walk {} = (.ok after, t') := by
    rw [hwalk]
    exact ⟨_, _, rfl⟩
  obtain ⟨hvisited, hother⟩ := hwired annotated [] after {} t' hrun
  refine ⟨hdistinct, hloop, after, t', hrun, fun scene call => ?_, ?_⟩
  · obtain ⟨stated, hstated, hvalue⟩ := hvisited ⟨"Query", "thing", .named "Thing"⟩
      (hwalk ▸ List.mem_cons_self)
    cases hstated
    exact hvalue scene call
  · exact hother "Apart" "thing" (by rw [hwalk]; decide)

end Wiring
end SchemaForge
