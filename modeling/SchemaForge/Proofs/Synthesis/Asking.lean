import SchemaForge.Proofs.Registry.Revisiting
import SchemaForge.Proofs.Synthesis.Derived

/-!
# What a request asks for

A request for filters asks for those of several fields in turn. What is asked for one field does
not say more of its configuration than the signature, if there is one: so requests for the same
fields of the same types, made from different configurations, ask for the same.

If the derived types are apart from all others, then what is asked for is known from the registry
before any of the filters are written, and requests that ask for the same leave registries that
say the same (`fulfil_same`).
-/
namespace SchemaForge

/-- What is asked for of one field. -/
inductive FilterStep where
  /-- The filters of a field with the arguments of the store, by a signature or that of its line. -/
  | field (type field : String) (signature : Option String)
  /-- The filters of a field that follows an association to many rows of a type. -/
  | association (type field target : String)
  /-- Nothing that can be understood. -/
  | broken (e : Failure)

/-- What a configuration asks for. -/
def FieldConfig.step? (type field : String) (c : FieldConfig) : Option FilterStep :=
  if c.hasFetchArguments then
    some (.field type field (if c.returnType.truthy then some c.signature else none))
  else none

/-- What a declaration of a field asks for. -/
def FieldDeclaration.step? (type field : String) (d : FieldDeclaration) : Option FilterStep :=
  match d.normalize with
  | .ok c => c.step? type field
  | .error e => some (.broken e)

namespace FilterRequest

/-- What a request asks for, field by field. -/
def steps : FilterRequest → List FilterStep
  | .declared type (.fields entries) =>
    (fieldEntries entries).filterMap fun e => e.2.step? type e.1
  | .declared _ (.value _) => [.broken .noMember]
  | .configured type fields => fields.filterMap fun e => e.2.step? type e.1
  | .association type field target => [.association type field target]

end FilterRequest

namespace Synthesis

open Run

/-- Write the filters that are asked for of one field. -/
def ask : FilterStep → Synthesis Unit
  | .field type field signature => do
    let signature ← match signature with
      | some s => pure s
      | none => match (← get).registry.line? type field with
        | some line => pure line.type
        | none => throw .noKey
    let returned ← lift (Signature.baseName signature)
    let isList ← lift (Signature.isList signature)
    edit (Registry.addFilters type field returned isList)
  | .association type field target => edit (Registry.addFilters type field target true)
  | .broken e => throw e

theorem filterField_eq (type field : String) (c : FieldConfig) :
    filterField type field c = (c.step? type field).elim (pure ⟨⟩) ask := by
  unfold filterField FieldConfig.step?
  split
  · cases c.returnType.truthy <;> rfl
  · rfl

/-- Steps that do nothing for some members of a list can leave them out. -/
theorem forM_filterMap {α β : Type} {g : α → Synthesis PUnit} {h : α → Option β}
    {k : β → Synthesis PUnit} (hg : ∀ x, g x = (h x).elim (pure ⟨⟩) k) (xs : List α) :
    xs.forM g = (xs.filterMap h).forM k := by
  induction xs with
  | nil => rfl
  | cons x xs ih =>
    change (g x >>= fun _ => xs.forM g) = _
    rw [hg, ih]
    cases hx : h x with
    | none =>
      rw [List.filterMap_cons_none hx]
      exact pure_bind _ _
    | some y =>
      rw [List.filterMap_cons_some hx]
      rfl

/-- **A request is fulfilled field by field.** -/
theorem fulfil_eq (q : FilterRequest) : fulfil q = q.steps.forM ask := by
  have hconfigured : ∀ type (e : String × FieldConfig),
      filterField type e.1 e.2 = (e.2.step? type e.1).elim (pure ⟨⟩) ask :=
    fun type e => filterField_eq type e.1 e.2
  cases q with
  | declared type m =>
    cases m with
    | fields entries =>
      refine forM_filterMap (fun e => ?_) _
      change (lift e.2.normalize >>= fun c => filterField type e.1 c) = _
      unfold FieldDeclaration.step?
      cases e.2.normalize with
      | ok c => exact hconfigured type (e.1, c)
      | error e => rfl
    | value v => exact (bind_pure (throw Failure.noMember : Synthesis PUnit)).symm
  | configured type fields => exact forM_filterMap (hconfigured type) _
  | association type field target =>
    exact (bind_pure (edit (Registry.addFilters type field target true))).symm

/-- Requests are fulfilled field by field. -/
theorem fulfilAll_eq (qs : List FilterRequest) :
    qs.forM fulfil = (qs.flatMap FilterRequest.steps).forM ask := by
  induction qs with
  | nil => rfl
  | cons q qs ih =>
    have hsplit : (q.steps ++ qs.flatMap FilterRequest.steps).forM ask
        = q.steps.forM ask >>= fun _ => (qs.flatMap FilterRequest.steps).forM ask :=
      List.forM_append
    rw [List.flatMap_cons, hsplit, ← ih, ← fulfil_eq]
    rfl

end Synthesis

/-- What the requests of a draft ask for. -/
def Draft.steps (d : Draft) : List FilterStep := d.requests.flatMap FilterRequest.steps

/-- The configurations of the fields of a type. -/
def Draft.configsOf (d : Draft) (type : String) : Table FieldConfig := (d.configs.get? type).getD []

theorem Draft.configOf?_eq (d : Draft) (type field : String) :
    d.configOf? type field = (d.configsOf type).get? field := by
  rw [configOf?, configsOf]
  cases d.configs.get? type <;> rfl

/-! ### Calls that requests come to -/

namespace FilterStep

/-- The type whose field is asked for. -/
def type? : FilterStep → Option String
  | .field type _ _ | .association type _ _ => some type
  | .broken _ => none

/-- The signature that a field is asked for by, as a registry has it. -/
def signature? (r : Registry) (type key : String) : Option String → Except Failure String
  | some signature => .ok signature
  | none => match r.line? type key with
    | some line => .ok line.type
    | none => .error .noKey

/-- The call that is made for a step, as a registry has it. -/
def call? (r : Registry) : FilterStep → Except Failure FilterCall
  | .field type key signature => do
    let signature ← signature? r type key signature
    return ⟨type, key, ← Signature.baseName signature, ← Signature.isList signature⟩
  | .association type key target => .ok ⟨type, key, target, true⟩
  | .broken e => .error e

/-- It depends on the signatures of the type alone. -/
theorem call?_congr {r r' : Registry} {q : FilterStep} (h : ∀ type ∈ q.type?, ∀ field,
    (r'.line? type field).map (·.type) = (r.line? type field).map (·.type)) :
    q.call? r' = q.call? r := by
  cases q with
  | field type field signature =>
    have hsignature : signature? r' type field signature = signature? r type field signature := by
      cases signature with
      | some signature => rfl
      | none =>
        have hline := h type rfl field
        unfold signature?
        cases hr : r.line? type field with
        | none =>
          rw [hr, Option.map_none, Option.map_eq_none_iff] at hline
          rw [hline]
        | some line =>
          rw [hr, Option.map_some, Option.map_eq_some_iff] at hline
          obtain ⟨line', hr', htype⟩ := hline
          rw [hr']
          exact congrArg Except.ok htype
    rw [call?, call?, hsignature]
  | association type field target => rfl
  | broken e => rfl

/-- The calls that are made for steps, as far as they can be made. -/
def calls (r : Registry) (steps : List FilterStep) : List FilterCall :=
  steps.filterMap fun q => (q.call? r).toOption

theorem mem_calls {r : Registry} {steps : List FilterStep} {c : FilterCall} :
    c ∈ calls r steps ↔ ∃ q ∈ steps, q.call? r = .ok c := by
  rw [calls, List.mem_filterMap]
  refine exists_congr fun q => and_congr_right fun _ => ?_
  cases q.call? r <;> simp [Except.toOption]

end FilterStep

namespace Synthesis

open Run Registry

variable {own : String → Prop} {met : FilterCall → Prop} {calls : List FilterCall} {r : Registry}
  {q : FilterStep} {steps : List FilterStep} {d d' e : Draft} {α : Type}

/-- **What is asked for is a call**, if it can be understood. -/
theorem ask_apply (q : FilterStep) (d : Draft) : ask q d = match q.call? d.registry with
    | .ok c => edit c.run d
    | .error e => (.error e, d) := by
  have hwrite : ∀ type field signature, (do
      let returned ← lift (Signature.baseName signature)
      let isList ← lift (Signature.isList signature)
      edit (addFilters type field returned isList)) d
        = match (do
            return (⟨type, field, ← Signature.baseName signature,
              ← Signature.isList signature⟩ : FilterCall)) with
          | .ok c => edit c.run d
          | .error e => (.error e, d) := by
    intro type field signature
    rcases Signature.baseName signature with e | returned
    · rfl
    · rcases Signature.isList signature with e | isList <;> rfl
  cases q with
  | field type field signature =>
    cases signature with
    | some signature => exact hwrite type field signature
    | none =>
      rw [ask, FilterStep.call?, FilterStep.signature?, bind_of_ok (get_apply d)]
      cases d.registry.line? type field with
      | none => rfl
      | some line => exact hwrite type field line.type
  | association type field target => rfl
  | broken e => rfl

theorem edit_apply (m : Edit α) (d : Draft) :
    edit m d = ((m d.registry).1, { d with registry := (m d.registry).2 }) := rfl

/-- Types that are neither derived nor inputs for operators. -/
def Outer (own : String → Prop) (steps : List FilterStep) : Prop :=
  ∀ q ∈ steps, ∀ type ∈ q.type?, ¬own type ∧ type ∉ operatorNames

/-- What comes in while filters are written does not change what is asked for elsewhere. -/
theorem call?_of_widens {s : Registry} (h : Widens own r s)
    (hq : ∀ type ∈ q.type?, ¬own type ∧ type ∉ operatorNames) : q.call? s = q.call? r := by
  refine FilterStep.call?_congr fun type htype field => type_of_outline? ?_ field
  obtain ⟨hown, hplain⟩ := hq type htype
  rcases h type hown with hsame | ⟨-, kind, hkind, rfl, -⟩
  · exact hsame
  · exact absurd (List.mem_map_of_mem hkind) hplain

/-- **Steps succeed if they can be understood, and the calls that are made for them do.** -/
theorem asks_eq_ok_iff (hs : FilterCall.Separate own calls r) (houter : Outer own steps)
    (hcalls : FilterStep.calls r steps ⊆ calls)
    (h : FilterCall.Visited own calls met r d.registry) :
    steps.forM ask d = (.ok ⟨⟩, d') ↔ (∀ q ∈ steps, ∃ c, q.call? r = .ok c)
      ∧ edit ((FilterStep.calls r steps).forM FilterCall.run) d = (.ok ⟨⟩, d') := by
  induction steps generalizing d met with
  | nil => exact ⟨fun hrun => ⟨by simp, hrun⟩, And.right⟩
  | cons q steps ih =>
    obtain ⟨hq, houter⟩ := List.forall_mem_cons.mp houter
    have hloop : (q :: steps).forM ask = ask q >>= fun _ => steps.forM ask := rfl
    have hcall : ask q d = match q.call? r with
        | .ok c => edit c.run d
        | .error e => (.error e, d) := by
      rw [ask_apply, call?_of_widens h.widens hq]
    rw [List.forall_mem_cons]
    cases hc : q.call? r with
    | error e =>
      rw [hc] at hcall
      rw [hloop, bind_of_error hcall]
      constructor
      · rintro ⟨⟩
      · rintro ⟨⟨⟨_, ⟨⟩⟩, -⟩, -⟩
    | ok c =>
      rw [hc] at hcall
      have hlist : FilterStep.calls r (q :: steps) = c :: FilterStep.calls r steps :=
        List.filterMap_cons_some (by rw [hc]; rfl)
      rw [hlist] at hcalls ⊢
      obtain ⟨hmem, hcalls⟩ := List.cons_subset.mp hcalls
      have hruns : (c :: FilterStep.calls r steps).forM FilterCall.run
          = c.run >>= fun _ => (FilterStep.calls r steps).forM FilterCall.run := rfl
      rcases h.run hs hmem with ⟨-, s, hrun, -, hvisited⟩ | ⟨-, e, s, hfails⟩
      · have hok : ask q d = (.ok ⟨⟩, { d with registry := s }) := by
          rw [hcall]
          exact (edit_apply c.run d).trans (by rw [hrun])
        have hedit : edit ((c :: FilterStep.calls r steps).forM FilterCall.run) d
            = edit ((FilterStep.calls r steps).forM FilterCall.run) { d with registry := s } := by
          rw [edit_apply, edit_apply, hruns, bind_of_ok hrun]
        rw [hloop, bind_of_ok hok, hedit, ih houter hcalls hvisited]
        exact ⟨fun ⟨hall, hend⟩ => ⟨⟨⟨c, rfl⟩, hall⟩, hend⟩, fun ⟨⟨_, hall⟩, hend⟩ => ⟨hall, hend⟩⟩
      · have hbad : ask q d = (.error e, { d with registry := s }) := by
          rw [hcall]
          exact (edit_apply c.run d).trans (by rw [hfails])
        have hedit : edit ((c :: FilterStep.calls r steps).forM FilterCall.run) d
            = (.error e, { d with registry := s }) := by
          rw [edit_apply, hruns, bind_of_error hfails]
        rw [hloop, bind_of_error hbad, hedit]
        constructor
        · rintro ⟨⟩
        · rintro ⟨-, ⟨⟩⟩

/-- **Requests that ask for the same leave registries that say the same.** -/
theorem fulfil_same {qs qs' : List FilterRequest} (hsame : d.registry.Same d'.registry)
    (hs : FilterCall.Separate own calls d.registry) (honce : d'.registry.Once)
    (hqs : ∀ q, q ∈ qs.flatMap FilterRequest.steps ↔ q ∈ qs'.flatMap FilterRequest.steps)
    (houter : Outer own (qs.flatMap FilterRequest.steps))
    (hcalls : FilterStep.calls d.registry (qs.flatMap FilterRequest.steps) ⊆ calls)
    (hrun : qs.forM fulfil d = (.ok ⟨⟩, e)) :
    ∃ e', qs'.forM fulfil d' = (.ok ⟨⟩, e') ∧ e.registry.Same e'.registry := by
  rw [fulfilAll_eq] at hrun ⊢
  have hcall : ∀ q : FilterStep, q.call? d'.registry = q.call? d.registry := fun q =>
    FilterStep.call?_congr fun type _ field => by rw [hsame.line?]
  have hmembers : ∀ c, c ∈ FilterStep.calls d.registry (qs.flatMap FilterRequest.steps)
      ↔ c ∈ FilterStep.calls d'.registry (qs'.flatMap FilterRequest.steps) := by
    intro c
    simp only [FilterStep.mem_calls, hqs, hcall]
  have hs' := FilterCall.Separate.same hsame honce hs
  have houter' : Outer own (qs'.flatMap FilterRequest.steps) := fun q hq =>
    houter q ((hqs q).mpr hq)
  have hcalls' : FilterStep.calls d'.registry (qs'.flatMap FilterRequest.steps) ⊆ calls :=
    fun c hc => hcalls ((hmembers c).mpr hc)
  obtain ⟨hall, hedit⟩ :=
    (asks_eq_ok_iff hs houter hcalls (FilterCall.visited_refl own calls _)).mp hrun
  obtain ⟨s, hcallsRun, rfl⟩ := edit_eq_ok hedit
  rcases FilterCall.runs_same hsame honce hs hcalls hmembers with
    ⟨_, _, _, _, hfails, -⟩ | ⟨_, s', hok, hok', hsames⟩
  · rw [hcallsRun] at hfails
    cases hfails
  · rw [hcallsRun] at hok
    cases hok
    refine ⟨{ d' with registry := s' }, ?_, hsames⟩
    refine (asks_eq_ok_iff hs' houter' hcalls' (FilterCall.visited_refl own calls _)).mpr
      ⟨fun q hq => ?_, ?_⟩
    · obtain ⟨c, hc⟩ := hall q ((hqs q).mpr hq)
      exact ⟨c, (hcall q).trans hc⟩
    · exact (edit_apply _ d').trans (by rw [hok'])

end Synthesis
end SchemaForge
