import SchemaForge.Proofs.Evaluation
import SchemaForge.Proofs.Execution.Untouched
import SchemaForge.Proofs.Execution.Wrapping

/-!
# Where declared resolvers and directives are installed

Handlers are installed on the fields that the walk visits. While an operation runs, handlers
are looked up on the fields of resolvable types. The two meet exactly if the walk comes to
the implementations of interfaces; a field of an implementation that it misses is served by
the parent value alone, with none of the directives that were declared for it.
-/
namespace SchemaForge

open Language

/-- A visited field yields what the declarations say: what is stated of it, or else what it
yielded before any directives, inside of the directives of the field, of the returned type
and of the primary type. -/
def Generated.Installs (g : Generated) (setting : Wiring.Setting) (t : ThunkState) (v : Visit) :
    Prop :=
  ∃ (before : Handler) (stated : Option Yield), before.directives = []
    ∧ Wiring.statedOf setting v = .ok stated
    ∧ ∀ (scene : Scene) (call : Call),
      Completion.fieldValue scene call ((g.handlers.find? v.parent v.field).getD {})
        = Chain.run scene call (Wiring.primaryMeaning setting t v.returned)
            (Chain.run scene call (Wiring.policyMeaning setting t v.returned)
              (Chain.run scene call (Wiring.configMeaning setting t v)
                (Wiring.statedValue scene call before stated)))

/-- The data with which a schema without rows answers a query, as text. -/
def Generated.dataOf (g : Generated) (text : String) : Option String :=
  ((Server.start g [] []).1.answer ⟨text, [], none, .null, .null, none⟩
    (Server.start g [] []).2).1.toOption.map (·.data.json)

namespace Generate

variable {b : Blueprint} {d d' : Draft} {g : Generated}

theorem installs_of_mem_walk (hb : b.base.Proper) (h : generate b d = (.ok g, d')) {v : Visit}
    (hv : v ∈ g.schema.walk) : g.Installs (b.setting d') d'.thunks v := by
  obtain ⟨before, stated, hbefore, hstated, hfind⟩ := find?_handlers hb h hv
  refine ⟨before.getD {}, stated, ?_, hstated, fun scene call => ?_⟩
  · cases before with
    | none => rfl
    | some x => exact hbefore x rfl
  · rw [hfind]
    exact Wiring.fieldValue_handlerOf _ scene call _ before v stated

/-- A field that is not visited keeps the resolver that was given for it, if there is one, and
no directives. -/
theorem find?_of_not_visited (hb : b.base.Proper) (h : generate b d = (.ok g, d'))
    {type field : String}
    (hv : (type, field) ∉ g.schema.walk.map fun v => (v.parent, v.field)) :
    ∃ hs : Handlers, b.implementations.foldlM (implement g.schema) b.base.handlers = .ok hs
      ∧ hs.Bare ∧ g.handlers.find? type field = hs.find? type field := by
  obtain ⟨base, d2, -, -, -, -, ⟨hs, himplement, hwired⟩, -⟩ := generate_eq_ok h
  have hnodup := g.schema.nodup_walk (distinct_generated hb h)
  have hbare : hs.Bare := bare_foldlM (fun _ _ _ hbare hstep => bare_implement hbare hstep)
    (bare_base hb) himplement
  exact ⟨hs, himplement, hbare, (Wiring.wireAll_eq_ok hnodup hwired).2 type field hv⟩

/-- **Every type whose fields an operation can resolve is visited exactly if the walk comes to
the implementations of the interfaces that such fields return.** Visited fields have what was
declared for them installed; other fields have no directives, and only a resolver that was
given for them apart from their declaration. And the types in question are all that matter:
whatever handlers are put on other types, an operation on the query root or on the mutation
root runs the same. -/
theorem visits_resolvable_iff_covers (hb : b.base.Proper) (h : generate b d = (.ok g, d')) :
    ((∀ t, g.schema.Resolvable t → g.schema.Visited t) ↔ g.schema.CoversImplementations)
    ∧ (∀ v ∈ g.schema.walk, g.Installs (b.setting d') d'.thunks v)
    ∧ (∀ type field, (type, field) ∉ g.schema.walk.map (fun v => (v.parent, v.field)) →
        ∃ hs : Handlers, b.implementations.foldlM (implement g.schema) b.base.handlers = .ok hs
          ∧ hs.Bare ∧ g.handlers.find? type field = hs.find? type field)
    ∧ ∀ (server : Server) (r : Request) (hs : Handlers) (root : String),
        server.generated = g → r.schema = g.schema → g.schema.SameHandlers g.handlers hs →
        root ∈ g.schema.walkRoots → ∀ (q : Query) (o : Operation) (vs : Fields) (m : Memory),
          (server.withHandlers hs).execute q r o root vs m = server.execute q r o root vs m := by
  refine ⟨Schema.visits_resolvable_iff, fun v hv => installs_of_mem_walk hb h hv,
    fun type field hv => find?_of_not_visited hb h hv, ?_⟩
  intro server r hs root hg hr hsame hroot q o vs m
  subst hg
  rw [← hr] at hsame hroot
  exact Server.execute_withHandlers hsame hroot q o vs m

/-! ### An implementation that is passed over -/

/-- An interface with one implementation. -/
def nodes : String :=
  "interface Node \x7b id: ID! \x7d type Secret implements Node \x7b id: ID! \x7d"

/-- A resolver that yields an object of the implementation. -/
def secretly : ResolverOption :=
  .callable ⟨.const (.record [("__typename", .text "Secret"), ("code", .text "raw")]), false⟩

/-- A root with fields that return such objects. -/
def rootOf (fields : List (String × String)) : Blueprint where
  base := .text nodes
  types := [("Query", .inline (.fields (fields.map fun f =>
    (f.1, .field (.config { returnType := .text f.2, resolver := secretly })))))]
  models := []
  policies := []
  plugins := []
  columnTypes := []
  implementations := []

/-- A directive that refuses everything. -/
def refusing : Directive where
  name := "auth"
  arguments := []
  steps := [.raise "denied"]
  awaits := false

/-- An extension of the implementation by a guarded field. -/
def coded : Draft where
  extensions := { fields := [("Secret", [("code", .field (.config
    { returnType := .text "String", resolver := .callable ⟨.const (.text "open"), false⟩
      directives := .list [.directive refusing] }))])] }

/-- A query for the guarded field. -/
def codeQuery : String := "\x7b node \x7b ... on Secret \x7b code \x7d \x7d \x7d"

/-- Whether the fields of a type can be resolved by way of a field of the query root. -/
def leadsTo (s : Schema) (t : String) : Bool :=
  s.walkRoots.contains "Query"
    && (s.fields "Query").any fun f => (s.possibleTypes f.type.baseName).contains t

theorem resolvable_of_leadsTo {s : Schema} {t : String} (h : leadsTo s t = true) :
    s.Resolvable t := by
  obtain ⟨hroot, hfield⟩ := Bool.and_eq_true_iff.mp h
  obtain ⟨f, hf, ht⟩ := List.any_eq_true.mp hfield
  exact .possible (.root (List.contains_iff_mem.mp hroot)) hf (List.contains_iff_mem.mp ht)

/-- Where another field of the root returns the implementation itself, the walk comes to it,
and the guarded field is refused wherever it is asked for. -/
theorem visits_resolvable_iff_covers_returned : ∃ g d',
    generate (rootOf [("node", "Node"), ("secret", "Secret")]) coded = (.ok g, d')
    ∧ (rootOf [("node", "Node"), ("secret", "Secret")]).base.Proper
    ∧ g.schema.Resolvable "Secret" ∧ g.schema.Visited "Secret"
    ∧ g.Installs ((rootOf [("node", "Node"), ("secret", "Secret")]).setting d') d'.thunks
        ⟨"Secret", "code", .named "String"⟩
    ∧ g.dataOf codeQuery = some "\x7b\"node\": \x7b\"code\": null\x7d\x7d" := by
  have hgives : gives (fun g d' => leadsTo g.schema "Secret"
      && (g.schema.entered.all fun i => !g.schema.isKind i .interface
        || (g.schema.possibleTypes i).all g.schema.entered.contains)
      && g.schema.walk.contains ⟨"Secret", "code", .named "String"⟩
      && g.dataOf codeQuery == some "\x7b\"node\": \x7b\"code\": null\x7d\x7d")
      (rootOf [("node", "Node"), ("secret", "Secret")]) coded = true := by
    unfold gives viaDocument Generate.wire Schema.walk Schema.entered
    simp only [Schema.enter_eq_enterN]
    decide +kernel
  obtain ⟨g, d', h, -, -, hrun⟩ := eq_of_gives hgives
  simp only [Bool.and_eq_true, List.all_eq_true, Bool.or_eq_true, Bool.not_eq_true',
    List.contains_iff_mem, beq_iff_eq] at hrun
  obtain ⟨⟨⟨hleads, hentered⟩, hwalk⟩, hdata⟩ := hrun
  have hb : (rootOf [("node", "Node"), ("secret", "Secret")]).base.Proper := trivial
  obtain ⟨hcovers, hinstalls, -⟩ := visits_resolvable_iff_covers hb h
  have hresolvable := resolvable_of_leadsTo hleads
  refine ⟨g, d', h, hb, hresolvable, hcovers.mpr ?_ _ hresolvable, hinstalls _ hwalk, hdata⟩
  refine Schema.coversImplementations_of_entered fun i hi hinterface u hu => ?_
  exact (hentered i hi).resolve_left (by simp [hinterface]) u hu

/-- The text that shows the directive on the guarded field. -/
def codedText : String :=
  "directive @auth on OBJECT | FIELD_DEFINITION\n\ntype Query \x7b\n  node: Node\n\x7d\n\n"
    ++ "extend type Secret \x7b\n  code: String @auth\n\x7d"

/-- **An implementation that only its interface leads to is passed over.** A query resolves
its guarded field, which the text shows with its directive, from the parent value: neither
the resolver nor the directive that were declared for it are installed. -/
theorem not_visited_implementation : ∃ g d',
    generate (rootOf [("node", "Node")]) coded = (.ok g, d')
    ∧ g.schema.Resolvable "Secret" ∧ ¬g.schema.Visited "Secret"
    ∧ g.text = codedText ∧ (g.handlers.find? "Secret" "code").isNone
    ∧ g.dataOf codeQuery = some "\x7b\"node\": \x7b\"code\": \"raw\"\x7d\x7d" := by
  have hgives : gives (fun g _ => leadsTo g.schema "Secret"
      && !(g.schema.visitsOf "Secret").all g.schema.walk.contains
      && g.text == codedText && (g.handlers.find? "Secret" "code").isNone
      && g.dataOf codeQuery == some "\x7b\"node\": \x7b\"code\": \"raw\"\x7d\x7d")
      (rootOf [("node", "Node")]) coded = true := by
    unfold gives viaDocument Generate.wire Schema.walk Schema.entered
    simp only [Schema.enter_eq_enterN]
    decide +kernel
  obtain ⟨g, d', h, -, -, hrun⟩ := eq_of_gives hgives
  simp only [Bool.and_eq_true, Bool.not_eq_true', beq_iff_eq] at hrun
  obtain ⟨⟨⟨⟨hleads, hmissed⟩, htext⟩, hnone⟩, hdata⟩ := hrun
  refine ⟨g, d', h, resolvable_of_leadsTo hleads, fun hvisited => ?_, htext, hnone, hdata⟩
  obtain ⟨v, hv, hnot⟩ := List.all_eq_false.mp hmissed
  exact hnot (List.contains_iff_mem.mpr (hvisited v hv))

end Generate
end SchemaForge
