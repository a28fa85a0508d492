import SchemaForge.Proofs.Synthesis.Standing
import SchemaForge.Wiring

/-!
# The handlers that a walk leaves

What wiring gives every field that is visited once: its value comes from the configuration
if that says anything, and the directives around it are those of the primary type, of the
returned type and of the configuration, in this order.
-/
namespace SchemaForge

namespace Handlers

theorem find?_set (hs : Handlers) (type field t f : String) (h : Handler) :
    (hs.set type field h).find? t f
      = if t = type ∧ f = field then some h else hs.find? t f := by
  rw [find?, set, Table.get?_update]
  by_cases ht : t = type
  · subst ht
    by_cases hf : f = field
    · simp [hf, Table.get?_put]
    · simp only [beq_self_eq_true, if_true, Option.bind_some, Table.get?_put, beq_iff_eq, hf,
        and_false, if_false, find?]
      cases hs.get? t <;> simp
  · simp [ht, find?]

end Handlers

/-- Around a handler without directives there are only those that it was wrapped in. -/
theorem Handler.directives_wrapped {before : Handler} (h : before.directives = [])
    (stated : Option Yield) (directives : List Directive) :
    (before.wrapped stated directives).directives = directives := by
  cases stated with
  | some y => rfl
  | none =>
    change directives ++ before.directives = directives
    rw [h, List.append_nil]

namespace Wiring

variable (s : Setting)

/-- The directives that the policy of a type means. -/
def policyMeaning (t : ThunkState) (type : String) : List Directive :=
  ((s.extensions.policy? type).map (·.meaning t)).getD []

/-- The directives around a field that returns a type. -/
def chainOf (t : ThunkState) (type : String) (c : Option FieldConfig) : List Directive :=
  ((s.extensions.primary? type).map (policyMeaning s t)).getD [] ++ policyMeaning s t type
    ++ (c.map (·.meaning t)).getD []

/-- What the configuration of a visited field says about its value. -/
def statedOf (v : Visit) : Except Failure (Option Yield) :=
  match configOf s v with
  | some c => yieldOf s v c
  | none => .ok none

/-- A field without anything stated and without directives keeps the handler that it had;
any other has it wrapped once. -/
def handlerOf (t : ThunkState) (before : Option Handler) (v : Visit) (stated : Option Yield) :
    Option Handler :=
  if stated.isNone && (chainOf s t v.returned (configOf s v)).isEmpty then before
  else some ((before.getD {}).wrapped stated (chainOf s t v.returned (configOf s v)))

variable {s} {t t' : ThunkState}

theorem typeDirectives_eq_ok {type : String} {ds : List Directive}
    (h : typeDirectives s type t = (.ok ds, t')) :
    t.Extends t' ∧ ∀ u, t'.Extends u → policyMeaning s u type = ds := by
  have hnone : (pure [] : Wire (List Directive)) t = (.ok ds, t') →
      t.Extends t' ∧ ∀ u : ThunkState, t'.Extends u → [] = ds := by
    intro hpure
    rw [Run.pure_apply] at hpure
    cases hpure
    exact ⟨.refl t, fun _ _ => rfl⟩
  unfold typeDirectives at h
  unfold policyMeaning
  cases hp : s.extensions.policy? type with
  | none =>
    rw [hp] at h
    exact hnone h
  | some p =>
    rw [hp] at h
    cases p with
    | policy p =>
      exact ⟨DirectiveOption.extends_of_resolve h,
        fun u hu => DirectiveOption.meaning_of_resolve h hu⟩
    | value v => cases v <;> first | exact hnone h | cases h

/-- The directives around a field, step by step. -/
theorem directivesOf_eq (s : Setting) (type : String) (c : Option FieldConfig) :
    directivesOf s type c = (do
      let primary ← ((s.extensions.primary? type).map (typeDirectives s)).getD (pure [])
      let own ← typeDirectives s type
      let field ← (c.map (·.directives.resolve)).getD (pure [])
      pure (primary ++ own ++ field)) := by
  unfold directivesOf
  cases s.extensions.primary? type <;> cases c <;> rfl

/-- The wiring of a field, step by step. -/
theorem wire_eq (s : Setting) (hs : Handlers) (v : Visit) : wire s hs v = (do
      let stated ← lift (statedOf s v)
      let directives ← directivesOf s v.returned (configOf s v)
      if stated.isNone && directives.isEmpty then pure hs
      else pure (hs.set v.parent v.field
        (((hs.find? v.parent v.field).getD {}).wrapped stated directives))) := by
  unfold wire statedOf
  cases configOf s v <;> rfl

theorem directivesOf_eq_ok {type : String} {c : Option FieldConfig} {ds : List Directive}
    (h : directivesOf s type c t = (.ok ds, t')) :
    t.Extends t' ∧ ∀ u, t'.Extends u → chainOf s u type c = ds := by
  rw [directivesOf_eq] at h
  obtain ⟨primary, t1, h1, h⟩ := Run.bind_eq_ok.mp h
  obtain ⟨own, t2, h2, h⟩ := Run.bind_eq_ok.mp h
  obtain ⟨field, t3, h3, h⟩ := Run.bind_eq_ok.mp h
  cases h
  have hprimary : t.Extends t1 ∧ ∀ u, t1.Extends u →
      ((s.extensions.primary? type).map (policyMeaning s u)).getD [] = primary := by
    cases hp : s.extensions.primary? type with
    | none =>
      rw [hp] at h1
      cases h1
      exact ⟨.refl t, fun _ _ => rfl⟩
    | some name =>
      rw [hp] at h1
      exact typeDirectives_eq_ok h1
  have hown := typeDirectives_eq_ok h2
  have hfield : t2.Extends t' ∧ ∀ u, t'.Extends u → (c.map (·.meaning u)).getD [] = field := by
    cases c with
    | none =>
      cases h3
      exact ⟨.refl _, fun _ _ => rfl⟩
    | some c =>
      exact ⟨DirectiveOption.extends_of_resolve h3,
        fun u hu => DirectiveOption.meaning_of_resolve h3 hu⟩
  refine ⟨hprimary.1.trans (hown.1.trans hfield.1), fun u hu => ?_⟩
  have hu2 := hfield.1.trans hu
  rw [chainOf, hprimary.2 u (hown.1.trans hu2), hown.2 u hu2, hfield.2 u hu]

/-- Wiring one field sets its handler and no other. -/
theorem wire_eq_ok {hs hs' : Handlers} {v : Visit} (h : wire s hs v t = (.ok hs', t')) :
    t.Extends t' ∧ (∃ stated, statedOf s v = .ok stated ∧ ∀ u, t'.Extends u →
        hs'.find? v.parent v.field = handlerOf s u (hs.find? v.parent v.field) v stated)
      ∧ ∀ p f, (p, f) ≠ (v.parent, v.field) → hs'.find? p f = hs.find? p f := by
  rw [wire_eq] at h
  obtain ⟨stated, t1, h1, hrest⟩ := Run.bind_eq_ok.mp h
  obtain ⟨ds, t2, h2, h3⟩ := Run.bind_eq_ok.mp hrest
  have hstated : statedOf s v = .ok stated ∧ t = t1 := by
    cases hs : statedOf s v with
    | error e => rw [hs] at h1; cases h1
    | ok y => rw [hs] at h1; cases h1; exact ⟨rfl, rfl⟩
  obtain ⟨hstated, rfl⟩ := hstated
  obtain ⟨hextends, hchain⟩ := directivesOf_eq_ok h2
  split at h3
  · rename_i hkeep
    cases h3
    refine ⟨hextends, ⟨stated, hstated, fun u hu => ?_⟩, fun _ _ _ => rfl⟩
    rw [handlerOf, hchain u hu, if_pos hkeep]
  · rename_i hset
    cases h3
    refine ⟨hextends, ⟨stated, hstated, fun u hu => ?_⟩, fun p f hne => ?_⟩
    · rw [handlerOf, hchain u hu, if_neg hset, Handlers.find?_set, if_pos ⟨rfl, rfl⟩]
    · rw [Handlers.find?_set, if_neg fun hpf => hne (Prod.ext hpf.1 hpf.2)]

/-- Wiring forgets no thunk. -/
theorem wireAll_extends {hs hs' : Handlers} {visits : List Visit}
    (h : wireAll s hs visits t = (.ok hs', t')) : t.Extends t' := by
  induction visits generalizing hs t with
  | nil =>
    cases h
    exact .refl _
  | cons v visits ih =>
    obtain ⟨hs1, t1, h1, h2⟩ := Run.bind_eq_ok.mp h
    exact (wire_eq_ok h1).1.trans (ih h2)

/-- **Wiring gives each field that is visited once its own handler**, over the one that it
had before. -/
theorem wireAll_eq_ok {hs hs' : Handlers} {visits : List Visit}
    (hnodup : (visits.map fun v => (v.parent, v.field)).Nodup)
    (h : wireAll s hs visits t = (.ok hs', t')) :
    (∀ v ∈ visits, ∃ stated, statedOf s v = .ok stated ∧ ∀ u, t'.Extends u →
        hs'.find? v.parent v.field = handlerOf s u (hs.find? v.parent v.field) v stated)
      ∧ ∀ p f, (p, f) ∉ visits.map (fun v => (v.parent, v.field)) →
        hs'.find? p f = hs.find? p f := by
  induction visits generalizing hs t with
  | nil =>
    cases h
    exact ⟨fun _ hv => absurd hv List.not_mem_nil, fun _ _ _ => rfl⟩
  | cons w visits ih =>
    obtain ⟨hw, hvisits⟩ := List.nodup_cons.mp hnodup
    obtain ⟨hs1, t1, h1, h2⟩ := Run.bind_eq_ok.mp h
    obtain ⟨-, ⟨stated, hstated, hset⟩, hother⟩ := wire_eq_ok h1
    obtain ⟨hrest, hkeep⟩ := ih hvisits h2
    refine ⟨fun v hv => ?_, fun p f hpf => ?_⟩
    · rcases List.mem_cons.mp hv with rfl | hv
      · refine ⟨stated, hstated, fun u hu => ?_⟩
        rw [hkeep _ _ hw, hset u ((wireAll_extends h2).trans hu)]
      · obtain ⟨stated, hstated, hset⟩ := hrest v hv
        refine ⟨stated, hstated, fun u hu => ?_⟩
        have hne : (v.parent, v.field) ≠ (w.parent, w.field) := fun he =>
          hw (List.mem_map.mpr ⟨v, hv, he⟩)
        rw [hset u hu, hother _ _ hne]
    · rw [List.map_cons, List.mem_cons, not_or] at hpf
      rw [hkeep p f hpf.2, hother p f hpf.1]

end Wiring
end SchemaForge
