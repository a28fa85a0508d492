import SchemaForge.Proofs.Synthesis.Standing

/-!
# How directives get lost

A directive that is written on a field is run around it as long as the configuration that
is noted for the field has it. Most deeds write and note the same directives. Only one that
takes a field over, and so puts its configuration in place of another, can lose some.
-/
namespace SchemaForge

/-- An option that is empty means no directives. -/
theorem DirectiveOption.meaning_of_not_truthy (s : ThunkState) {o : DirectiveOption}
    (h : o.truthy = false) : o.meaning s = [] := by
  cases o with
  | directive d => cases h
  | thunk key memo result => cases h
  | list entries =>
    have hnil : entries = [] := by simpa [truthy] using h
    rw [hnil]
    exact meaning_list s []
  | value v =>
    have hv : (value v).resolve s = (.ok [], s) := by
      have hentries : (value v).entries = .ok [] := by
        rw [entries, show v.truthy = false from h, if_neg Bool.false_ne_true]
      change ((liftExcept (value v).entries >>= fun es => es.mapM entry) : Thunked _) s = _
      rw [hentries]
      rfl
    rw [meaning, hv]

namespace FieldConfig

/-- A declaration without anything to note has no directives. -/
theorem meaning_of_not_active (s : ThunkState) {c : FieldConfig} (h : ¬c.isActive) :
    c.meaning s = [] := by
  refine DirectiveOption.meaning_of_not_truthy s ?_
  simp only [isActive, Bool.or_eq_true, not_or, Bool.not_eq_true] at h
  exact h.2

theorem not_addsOnly_of_takesOwner {owner : Option ModelRef} {c : FieldConfig}
    (h : c.takesOwner owner) : ¬c.addsOnly := by
  simp only [takesOwner, Bool.and_eq_true] at h
  simp [addsOnly, h.2]

end FieldConfig

/-- The configuration by which a deed takes over a field, if it does. -/
def Deed.takesOver (type field : String) : Deed → Option FieldConfig
  | .configured t f c => if t = type ∧ f = field then some c else none
  | .declared t f _ c =>
    if (t = type ∧ f = field) ∧ c.isActive ∧ ¬c.addsOnly then some c else none
  | _ => none

namespace Standing

variable {s : ThunkState} {type field : String} {v : Standing} {u : String}

/-- The uses of the directives that run around a field by its own configuration. -/
def runs (s : ThunkState) (v : Standing) : List String :=
  ((v.config.map (·.meaning s)).getD []).map Directive.use

theorem runs_some (s : ThunkState) {v : Standing} {c : FieldConfig} (h : v.config = some c) :
    v.runs s = (c.meaning s).map Directive.use := by
  rw [runs, h]
  rfl

/-- A configuration that is noted runs the directives of its declaration, and those that
ran before if the declaration only adds. -/
theorem mem_runs_resolvedBy {known : Option FieldConfig} {owner : Option ModelRef}
    {c : FieldConfig} : u ∈ ((resolvedBy s known owner c).meaning s).map Directive.use
      ↔ u ∈ (c.meaning s).map Directive.use
        ∨ c.addsOnly ∧ u ∈ ((known.map (·.meaning s)).getD []).map Directive.use := by
  by_cases howner : c.takesOwner owner
  · have hadds := FieldConfig.not_addsOnly_of_takesOwner howner
    rw [resolvedBy_owner known howner, FieldConfig.meaning_settled]
    simp only [hadds, Bool.false_eq_true, false_and, or_false]
    rfl
  · cases known with
    | none =>
      rw [resolvedBy_none howner, FieldConfig.meaning_settled]
      simp
    | some old =>
      rw [resolvedBy_some old howner]
      by_cases hadds : c.addsOnly
      · rw [if_pos hadds, FieldConfig.meaning_withDirectives, List.map_append, List.mem_append]
        simp only [hadds, true_and, Option.map_some, Option.getD_some]
        exact Or.comm
      · rw [if_neg hadds, FieldConfig.meaning_settled]
        simp [hadds]

/-- **A deed loses a directive only by taking over the field without it.** -/
theorem mem_runs_step {deed : Deed}
    (htakes : ∀ c ∈ deed.takesOver type field, u ∈ (c.meaning s).map Directive.use)
    (h : u ∈ v.uses → u ∈ v.runs s) :
    u ∈ (step s type field v deed).uses → u ∈ (step s type field v deed).runs s := by
  cases deed with
  | kind t k =>
    rw [step]
    split <;> exact h
  | typed t f signature =>
    rw [step]
    split <;> exact h
  | governed t p primary =>
    rw [step]
    split <;> exact h
  | directed t ps =>
    rw [step]
    split <;> exact h
  | replaced t lines =>
    rw [step]
    split
    · exact fun hu => absurd hu List.not_mem_nil
    · exact h
  | configured t f c =>
    rw [step]
    split
    · rename_i hc
      intro _
      rw [runs_some s rfl, FieldConfig.meaning_settled]
      exact htakes c (if_pos hc)
    · exact h
  | described t =>
    rw [step]
    split
    · intro hu
      rcases mem_addUses.mp hu with hu | hu
      · exact h hu
      · exact hu
    · exact h
  | declared t f owner c =>
    rw [step]
    split
    · rename_i hc
      intro hu
      by_cases hactive : c.isActive
      · dsimp only at hu ⊢
        rw [runs_some s (if_pos hactive), mem_runs_resolvedBy]
        by_cases hadds : c.addsOnly
        · rcases mem_addUses.mp hu with hu | hu
          · exact .inr ⟨hadds, h hu⟩
          · exact .inl hu
        · exact .inl (htakes c (if_pos ⟨hc.1, hactive, hadds⟩))
      · rw [FieldConfig.meaning_of_not_active s hactive, addUses_nil] at hu
        rw [runs, if_neg hactive]
        exact h hu
    · exact h

/-- If no deed loses a directive, it is run wherever it is written. -/
theorem mem_runs_after {deeds : List Deed}
    (htakes : ∀ deed ∈ deeds, ∀ c ∈ deed.takesOver type field, u ∈ (c.meaning s).map Directive.use)
    (h : u ∈ v.uses → u ∈ v.runs s) :
    u ∈ (after s type field deeds v).uses → u ∈ (after s type field deeds v).runs s := by
  induction deeds generalizing v with
  | nil => exact h
  | cons deed deeds ih =>
    exact ih (fun e he => htakes e (List.mem_cons_of_mem deed he))
      (mem_runs_step (htakes deed (List.mem_cons_self ..)) h)

/-! ### The rest of the configuration -/

/-- A deed that does not take over a field changes nothing of its configuration but the
directives. -/
theorem config_step {deed : Deed} {c : FieldConfig} {ds : List Directive}
    (hkeeps : deed.takesOver type field = none) (h : v.config = some (c.withDirectives ds)) :
    ∃ es, (step s type field v deed).config = some (c.withDirectives es) := by
  cases deed with
  | kind t k | typed t f signature | governed t p primary | directed t ps | replaced t lines
  | described t =>
    rw [step]
    split <;> exact ⟨ds, h⟩
  | configured t f c' =>
    rw [step]
    split
    · rename_i hc
      rw [Deed.takesOver, if_pos hc] at hkeeps
      cases hkeeps
    · exact ⟨ds, h⟩
  | declared t f owner c' =>
    rw [step]
    split
    · rename_i hc
      by_cases hactive : c'.isActive
      · have hadds : c'.addsOnly := by
          cases hadds : c'.addsOnly with
          | true => rfl
          | false =>
            rw [Deed.takesOver, if_pos ⟨hc.1, hactive, by simp [hadds]⟩] at hkeeps
            cases hkeeps
        have howner : ¬c'.takesOwner owner := fun ho =>
          FieldConfig.not_addsOnly_of_takesOwner ho hadds
        refine ⟨(c.withDirectives ds).meaning s ++ c'.meaning s, ?_⟩
        dsimp only
        rw [if_pos hactive, h, resolvedBy_some _ howner, if_pos hadds]
        rfl
      · dsimp only
        rw [if_neg hactive]
        exact ⟨ds, h⟩
    · exact ⟨ds, h⟩

/-- As long as no deed takes over a field, its configuration stays but for the directives. -/
theorem config_after {deeds : List Deed} {c : FieldConfig} {ds : List Directive}
    (hkeeps : ∀ deed ∈ deeds, deed.takesOver type field = none)
    (h : v.config = some (c.withDirectives ds)) :
    ∃ es, (after s type field deeds v).config = some (c.withDirectives es) := by
  induction deeds generalizing v ds with
  | nil => exact ⟨ds, h⟩
  | cons deed deeds ih =>
    obtain ⟨es, hstep⟩ := config_step (s := s) (hkeeps deed (List.mem_cons_self ..)) h
    exact ih (fun e he => hkeeps e (List.mem_cons_of_mem deed he)) hstep

end Standing

/-! ### Which deed gives a field its signature

The signature of a field is the one that was declared last. A declaration that gives both a
return type and a way to fetch the field leaves both to it, until another deed gives a new
signature or takes the field over.
-/

/-- Whether a deed gives a field a signature, or takes the one that it has. -/
def Deed.retypes (type field : String) : Deed → Bool
  | .typed t f _ => t = type ∧ f = field
  | .replaced t _ => t = type
  | .declared t f _ c => (t = type ∧ f = field) ∧ c.returnType.truthy
  | _ => false

namespace Standing

variable {s : ThunkState} {type field : String} {v : Standing}

/-- A deed that does not retype a field leaves its signature. -/
theorem signature_step {deed : Deed} (h : deed.retypes type field = false) :
    (step s type field v deed).signature = v.signature := by
  cases deed with
  | kind t k | governed t p primary | directed t ps | described t | configured t f c =>
    rw [step]
    split <;> rfl
  | typed t f signature | replaced t lines =>
    have hother := of_decide_eq_false h
    rw [step, if_neg hother]
  | declared t f owner c =>
    rw [step]
    split
    · rename_i hc
      have hnone : ¬(c.returnType.truthy = true) := fun htruthy =>
        of_decide_eq_false h ⟨hc.1, htruthy⟩
      dsimp only
      rw [if_neg hnone]
    · rfl

/-- The signature stays as long as no deed retypes the field. -/
theorem signature_after {deeds : List Deed}
    (h : ∀ deed ∈ deeds, deed.retypes type field = false) :
    (after s type field deeds v).signature = v.signature := by
  induction deeds generalizing v with
  | nil => rfl
  | cons deed deeds ih =>
    have hrest := ih (v := step s type field v deed) fun e he => h e (List.mem_cons_of_mem deed he)
    exact hrest.trans (signature_step (h deed (List.mem_cons_self ..)))

/-- A declaration of a fetched field with a return type leaves a configuration and a signature
that are both its own. -/
theorem step_fetched {owner : Option ModelRef} {c : FieldConfig} (hf : c.isFetched)
    (htype : c.returnType.truthy) (hkind : v.kind ≠ .union) :
    (∃ (c' : FieldConfig) (ds : List Directive),
        (step s type field v (.declared type field owner c)).config = some (c'.withDirectives ds)
          ∧ c'.isFetched ∧ c'.returnType = c.returnType)
      ∧ (step s type field v (.declared type field owner c)).signature = c.signature := by
  have hactive : c.isActive := by
    unfold FieldConfig.isActive
    rw [hf, Bool.or_true, Bool.true_or]
  have hadds : ¬c.addsOnly := by
    unfold FieldConfig.addsOnly
    rw [hf, Bool.not_true, Bool.and_false]
    exact Bool.false_ne_true
  rw [step, if_pos ⟨⟨rfl, rfl⟩, hkind⟩]
  dsimp only
  rw [if_pos hactive, if_pos htype]
  refine ⟨?_, rfl⟩
  by_cases howner : c.takesOwner owner
  · rw [resolvedBy_owner _ howner]
    exact ⟨_, _, rfl, hf, rfl⟩
  · cases v.config with
    | none =>
      rw [resolvedBy_none howner]
      exact ⟨_, _, rfl, hf, rfl⟩
    | some old =>
      rw [resolvedBy_some old howner, if_neg hadds]
      exact ⟨_, _, rfl, hf, rfl⟩

/-- **If the last deed that retypes a field is also the last that takes it over, it leaves a
configuration with the signature for return type.** -/
theorem config_of_last {pre post : List Deed} {owner : Option ModelRef} {c : FieldConfig}
    (hf : c.isFetched) (htype : c.returnType.truthy)
    (hkind : (after s type field pre v).kind ≠ .union)
    (hpost : ∀ deed ∈ post, deed.takesOver type field = none ∧ deed.retypes type field = false) :
    (∃ c', (after s type field (pre ++ .declared type field owner c :: post) v).config = some c'
        ∧ c'.isFetched ∧ c'.returnType = c.returnType)
      ∧ (after s type field (pre ++ .declared type field owner c :: post) v).signature
        = c.signature := by
  rw [after_append]
  obtain ⟨⟨c', ds, hconfig, hfetched, hreturn⟩, hsignature⟩ := step_fetched hf htype hkind
  obtain ⟨es, hes⟩ := config_after (s := s) (fun deed hd => (hpost deed hd).1) hconfig
  refine ⟨⟨_, hes, hfetched, hreturn⟩, ?_⟩
  exact (signature_after fun deed hd => (hpost deed hd).2).trans hsignature

end Standing
end SchemaForge
