import SchemaForge.Execution.Fetching
import SchemaForge.Proofs.Generate
import SchemaForge.Proofs.Outcome

/-!
# Fields that are fetched from the store

A visited field is fetched from the store if the configuration that declarations left for it
says so; the fetch then works with this configuration and from the model that it names.
-/
namespace SchemaForge

namespace Yield

/-- What fetches the rows of a field, if they are fetched. -/
def fetch? : Yield → Option Fetch
  | fetch f => some f
  | _ => none

theorem eq_of_fetch? {y : Yield} {f : Fetch} (h : y.fetch? = some f) : y = .fetch f := by
  cases y with
  | fetch f' =>
    cases h
    rfl
  | member => cases h
  | resolver r => cases h

end Yield

namespace FieldConfig

/-- A field that is fetched has no callable of its own. -/
theorem callable?_of_isFetched {c : FieldConfig} (h : c.isFetched) : c.callable? = none := by
  unfold isFetched namesStore at h
  unfold callable? at h ⊢
  cases hr : c.resolver with
  | callable r => simp [hr] at h
  | value v => rfl

end FieldConfig

namespace Wiring

variable {s : Setting} {v : Visit} {c : FieldConfig}

theorem eq_of_same {m : ModelRef} {name : String} (h : m.same (.mapped name)) :
    m = .mapped name := by
  cases m with
  | mapped a => rw [beq_iff_eq.mp h]
  | plain id => cases h
  | other v => cases h

/-- A field is fetched from the model that its configuration names. -/
theorem model_of_exposureOf {name : String} {e : Exposure} (hmodel : c.model = some (.mapped name))
    (h : exposureOf s v c = .ok e) : e.model = .mapped name := by
  unfold exposureOf at h
  rw [hmodel] at h
  dsimp only at h
  cases hfind : s.models.find? fun e => e.2.model.same (.mapped name) with
  | some found =>
    have hsame := List.find?_some hfind
    rw [hfind] at h
    cases h
    exact eq_of_same hsame
  | none =>
    rw [hfind] at h
    obtain ⟨plugin, -, hplugin⟩ := Outcome.bind_eq_ok.mp h
    cases plugin with
    | none => cases hplugin
    | some p => cases hplugin; rfl

theorem fetchOf_eq_ok {f : Fetch} (h : fetchOf s v c = .ok f) : f.config = c
    ∧ ∀ name, c.model = some (.mapped name) → f.model = name := by
  obtain ⟨e, he, hrest⟩ := Outcome.bind_eq_ok.mp h
  split at hrest
  · rename_i own key model hplugin hexposed
    cases hrest
    refine ⟨rfl, fun name hname => ?_⟩
    rw [model_of_exposureOf hname he] at hexposed
    cases hexposed
    rfl
  · cases hrest

/-- The configuration of a fetched field says how its rows are fetched. -/
theorem yieldOf_fetched {stated : Option Yield} (hf : c.isFetched)
    (h : yieldOf s v c = .ok stated) : ∃ f, stated = some (.fetch f) ∧ fetchOf s v c = .ok f := by
  unfold yieldOf at h
  rw [FieldConfig.callable?_of_isFetched hf] at h
  dsimp only at h
  rw [if_pos hf] at h
  cases hfetch : fetchOf s v c with
  | error e => rw [hfetch] at h; cases h
  | ok f =>
    rw [hfetch] at h
    cases h
    exact ⟨f, rfl, rfl⟩

end Wiring

namespace Generate

variable {b : Blueprint} {d d' : Draft} {g : Generated} {v : Visit}

/-- What a draft has noted for a field is what the declarations leave. -/
theorem config_standing (ht : d.Tidy) (h : generate b d = (.ok g, d')) {type field : String}
    {c : FieldConfig} (hc : d'.configOf? type field = some c) :
    (b.standing d d'.thunks type field).config = some (c.settled d'.thunks) := by
  rw [← (standsAs_generated ht h (.refl _) type field).config, hc]
  rfl

/-- **A visited field that declarations leave to the store is fetched** with the configuration
that they leave. -/
theorem find?_fetched (hb : b.base.Proper) (ht : d.Tidy) (h : generate b d = (.ok g, d'))
    (hv : v ∈ g.schema.walk) {c : FieldConfig}
    (hc : (b.standing d d'.thunks v.parent v.field).config = some c) (hf : c.isFetched) :
    ∃ x f, g.handlers.find? v.parent v.field = some x ∧ x.yield = .fetch f
      ∧ f.config.settled d'.thunks = c ∧ ∀ name, c.model = some (.mapped name) → f.model = name := by
  obtain ⟨before, stated, -, hstated, hfind⟩ := find?_handlers hb h hv
  have hconfig := (standsAs_generated ht h (.refl _) v.parent v.field).config
  rw [hc] at hconfig
  obtain ⟨c0, hc0, hsettled⟩ := Option.map_eq_some_iff.mp hconfig
  rw [Wiring.statedOf, show Wiring.configOf (b.setting d') v = some c0 from hc0] at hstated
  have hf0 : c0.isFetched := by
    rw [← hsettled] at hf
    exact hf
  obtain ⟨f, rfl, hfetch⟩ := Wiring.yieldOf_fetched hf0 hstated
  obtain ⟨hconfigOf, hmodel⟩ := Wiring.fetchOf_eq_ok hfetch
  refine ⟨_, f, hfind, rfl, by rw [hconfigOf, hsettled], fun name hname => hmodel name ?_⟩
  rw [← hsettled] at hname
  exact hname

end Generate

/-! ### The shape of answers

A fetch takes the path for lists or the one for single rows as the return type of its own
configuration says. If that can be read the path shows in every answer, whatever the store
holds and the arguments ask for; if not, every call fails.
-/

open Language

/-- Whether an answer is a list. -/
def Value.isList : Value → Bool
  | .list _ => true
  | _ => false

/-- The return type of a configuration, as far as it can be read. -/
def FieldConfig.readType? (c : FieldConfig) : Option TypeRef :=
  match c.returnType with
  | .text s => (TypeRef.ofText? s).toOption
  | _ => none

/-- Whether the return type of a configuration can be read, and is a list just as another
type is. -/
def FieldConfig.Agrees (c : FieldConfig) (type? : Option TypeRef) : Prop :=
  ∃ t u, c.readType? = some t ∧ type? = some u ∧ t.isList = u.isList

namespace Fetch

variable {f : Fetch} {list : Bool}

/-- A fetch serves lists, or single rows: it never fails to know which, and every answer is
one. -/
structure Serves (f : Fetch) (list : Bool) : Prop where
  /-- The path is known. -/
  known : f.isList = .ok list
  /-- It shows in every answer. -/
  answers : ∀ scene source arguments value, f.run scene source arguments = .ok value →
    value.isList = list

/-- A fetch that knows its path answers by it. -/
theorem serves_of_isList (h : f.isList = .ok list) : f.Serves list where
  known := h
  answers scene source arguments value hrun := by
    obtain ⟨⟨q, list'⟩, hstatement, hrun⟩ := Outcome.bind_eq_ok.mp hrun
    obtain ⟨_, -, hrun⟩ := Outcome.bind_eq_ok.mp hrun
    obtain ⟨list'', hlist, hstatement⟩ := Outcome.bind_eq_ok.mp hstatement
    obtain ⟨clauses, -, hstatement⟩ := Outcome.bind_eq_ok.mp hstatement
    obtain ⟨q1, -, hstatement⟩ := Outcome.bind_eq_ok.mp hstatement
    obtain ⟨condition, -, hstatement⟩ := Outcome.bind_eq_ok.mp hstatement
    obtain ⟨order, -, hstatement⟩ := Outcome.bind_eq_ok.mp hstatement
    obtain ⟨q2, -, hstatement⟩ := Outcome.bind_eq_ok.mp hstatement
    obtain ⟨q3, -, hstatement⟩ := Outcome.bind_eq_ok.mp hstatement
    cases hstatement
    rw [h] at hlist
    cases hlist
    cases hrun
    cases list with
    | true => rfl
    | false =>
      rw [if_neg Bool.false_ne_true, List.head?_map]
      cases (scene.rows.select _).head? <;> rfl

/-- A fetch that does not know its path fails on every call. -/
theorem run_of_isList_error {e : Failure} (h : f.isList = .error e) (scene : Scene)
    (source : Value) (arguments : Fields) : f.run scene source arguments = .error e := by
  have hstatement : f.statement scene source arguments = .error e := by
    unfold statement
    rw [h]
    rfl
  unfold run
  rw [hstatement]
  rfl

/-- A fetch serves what the return type of its configuration says. -/
theorem serves_iff_readType? :
    f.Serves list ↔ ∃ t, f.config.readType? = some t ∧ t.isList = list := by
  have hknown : f.isList = .ok list ↔ ∃ t, f.config.readType? = some t ∧ t.isList = list := by
    unfold isList FieldConfig.readType?
    cases f.config.returnType with
    | text s =>
      dsimp only
      unfold Signature.isList
      cases TypeRef.ofText? s with
      | ok t => simp [Except.map, Except.toOption]
      | error e => simp [Except.map, Except.toOption]
    | _ => simp
  exact ⟨fun h => hknown.mp h.known, fun h => serves_of_isList (hknown.mpr h)⟩

/-- A fetch that does not serve this serves the other, or fails on every call. -/
theorem fails_or_serves (h : ¬f.Serves list) :
    (∃ e, ∀ scene source arguments, f.run scene source arguments = .error e)
      ∨ f.Serves (!list) := by
  cases hf : f.isList with
  | error e => exact .inl ⟨e, run_of_isList_error hf⟩
  | ok list' =>
    have hne : list' ≠ list := by
      rintro rfl
      exact h (serves_of_isList hf)
    rw [show (!list) = list' by cases list <;> cases list' <;> simp_all]
    exact .inr (serves_of_isList hf)

end Fetch

end SchemaForge
