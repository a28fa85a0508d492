import SchemaForge.Execution.Fetching
import SchemaForge.Proofs.Outcome

/-!
# The rows that a fetch gives

A fetch selects rows on which all clauses of its statement are true. Arguments and hooks only
add clauses, so what ties a field to its parent stays in force; and where they add nothing and
the page is long enough, the rows are all those that are tied to the parent.
-/
namespace SchemaForge

/-! ### Selections -/

namespace Store

variable (s : Store)

theorem scan_perm (m : Model) : (s.scan m).Perm (s.rows m.name) := by
  unfold scan
  split
  · exact List.mergeSort_perm _ _
  · exact List.Perm.refl _

theorem matching_perm (q : Select) :
    (s.matching q).Perm ((s.scan q.model).filter fun r => q.clauses.all (·.selects r.2)) := by
  unfold matching
  split
  · exact List.Perm.refl _
  · exact List.mergeSort_perm _ _

theorem window_sublist {α : Type} (offset : Int) (limit : Option Int) (xs : List α) :
    (window offset limit xs).Sublist xs := by
  unfold window
  split
  · split
    · exact List.drop_sublist _ _
    · exact (List.take_sublist _ _).trans (List.drop_sublist _ _)
  · exact List.drop_sublist _ _

/-- A window from the start that is long enough is everything. -/
theorem window_of_length_le {α : Type} {n : Int} {xs : List α} (h : (xs.length : Int) ≤ n) :
    window 0 (some n) xs = xs := by
  have hn : ¬n < 0 := by omega
  rw [window, if_neg hn, Int.toNat_zero, List.drop_zero]
  exact List.take_of_length_le (by omega)

/-- What is selected are rows of the model on which every clause is true. -/
theorem mem_select {q : Select} {r : Nat × Row} (h : r ∈ s.select q) :
    r ∈ s.rows q.model.name ∧ ∀ c ∈ q.clauses, c.selects r.2 := by
  have hm := (s.matching_perm q).subset ((window_sublist _ _ _).subset h)
  obtain ⟨hscan, hall⟩ := List.mem_filter.mp hm
  exact ⟨(s.scan_perm q.model).subset hscan, by simpa using hall⟩

end Store

namespace Fetch

variable {scene : Scene} {f : Fetch} {source : Value} {arguments : Fields} {q q' : Select}

/-! ### Clauses that stay -/

/-- A statement keeps what another asks for. -/
def Narrows (q q' : Select) : Prop := q'.model = q.model ∧ q.clauses ⊆ q'.clauses

theorem Narrows.refl (q : Select) : Narrows q q := ⟨rfl, List.Subset.refl _⟩

theorem Narrows.trans {q q' q'' : Select} (h : Narrows q q') (k : Narrows q' q'') :
    Narrows q q'' := ⟨k.1.trans h.1, List.Subset.trans h.2 k.2⟩

/-- A hook adds a condition, then sets the order, then the limit, where it says so. -/
theorem hooked_callable (scene : Scene) (arguments : Fields) (q : Select) (h : FetchHook) :
    hooked scene arguments q (some (.callable h)) = (do
      let q ← (h.condition.map fun w => do
        let c ← Clause.ofCondition scene.models q.model w
        pure { q with clauses := q.clauses ++ c.toList }).getD (pure q)
      let q ← (h.order.map fun v => do
        pure { q with order := ← OrderTerm.ofValues q.model v }).getD (pure q)
      let q ← (h.limit.map fun v => do pure { q with limit := ← limitOf v }).getD (pure q)
      (h.limitArgument.map fun name => do
        pure { q with limit := ← limitOf (Fields.get arguments name) }).getD (pure q)) := by
  obtain ⟨condition, order, limit, limitArgument⟩ := h
  cases condition <;> cases order <;> cases limit <;> cases limitArgument <;> simp [hooked]

/-- A step that is taken only where something is said keeps what a statement asks for if it
does so where it is taken. -/
theorem narrows_getD {α : Type} {said : Option α} {step : α → Except Failure Select}
    (hstep : ∀ x q', step x = .ok q' → Narrows q q')
    (h : (said.map step).getD (pure q) = .ok q') : Narrows q q' := by
  cases said with
  | none =>
    cases h
    exact .refl q
  | some x => exact hstep x q' h

theorem narrows_hooked {hook : Option HookOption} (h : hooked scene arguments q hook = .ok q') :
    Narrows q q' := by
  match hook with
  | none =>
    cases h
    exact .refl q
  | some (.callable x) =>
    rw [hooked_callable] at h
    obtain ⟨q1, h1, hrest⟩ := Outcome.bind_eq_ok.mp h
    obtain ⟨q2, h2, hrest⟩ := Outcome.bind_eq_ok.mp hrest
    obtain ⟨q3, h3, h4⟩ := Outcome.bind_eq_ok.mp hrest
    have hlimit : ∀ (q : Select) (v : Value) (q' : Select),
        (do pure { q with limit := ← limitOf v } : Except Failure Select) = .ok q' →
          Narrows q q' := by
      intro q v q' hq
      obtain ⟨n, -, hn⟩ := Outcome.bind_eq_ok.mp hq
      cases hn
      exact .refl q
    have n1 : Narrows q q1 := by
      refine narrows_getD (fun w q' hw => ?_) h1
      obtain ⟨c, -, hc⟩ := Outcome.bind_eq_ok.mp hw
      cases hc
      exact ⟨rfl, List.subset_append_left _ _⟩
    have n2 : Narrows q1 q2 := by
      refine narrows_getD (fun v q' hv => ?_) h2
      obtain ⟨ts, -, hts⟩ := Outcome.bind_eq_ok.mp hv
      cases hts
      exact .refl q1
    have n3 : Narrows q2 q3 := narrows_getD (fun v q' => hlimit q2 v q') h3
    have n4 : Narrows q3 q' :=
      narrows_getD (fun name q' => hlimit q3 (Fields.get arguments name) q') h4
    exact n1.trans (n2.trans (n3.trans n4))
  | some (.value v) =>
    unfold hooked at h
    split at h
    · rename_i hv
      cases hv
    · cases h
      exact .refl q
    · cases h
    · rename_i hv
      cases hv

theorem narrows_chosen {isList : Bool} (h : chosen isList arguments q = .ok q') :
    Narrows q q' := by
  unfold chosen at h
  split at h
  · obtain ⟨page, -, h1⟩ := Outcome.bind_eq_ok.mp h
    obtain ⟨length, -, h2⟩ := Outcome.bind_eq_ok.mp h1
    cases h2
    exact .refl q
  · dsimp only at h
    split at h
    · cases h
      exact .refl q
    · cases h
      exact ⟨rfl, List.subset_append_left _ _⟩

/-- A statement asks for all that ties the field to its parent, whatever the arguments and
the hooks say. -/
theorem tied_of_statement {isList : Bool}
    (h : f.statement scene source arguments = .ok (q, isList)) : ∃ clauses,
      f.tied scene source = .ok clauses ∧ clauses ⊆ q.clauses
      ∧ q.model = (scene.models.get? f.model).getD default := by
  obtain ⟨isList', hlist, h1⟩ := Outcome.bind_eq_ok.mp h
  obtain ⟨clauses, htied, h2⟩ := Outcome.bind_eq_ok.mp h1
  obtain ⟨q1, hchosen, h3⟩ := Outcome.bind_eq_ok.mp h2
  obtain ⟨condition, -, h4⟩ := Outcome.bind_eq_ok.mp h3
  obtain ⟨order, -, h5⟩ := Outcome.bind_eq_ok.mp h4
  obtain ⟨q2, hmodel, h6⟩ := Outcome.bind_eq_ok.mp h5
  obtain ⟨q3, hfield, h7⟩ := Outcome.bind_eq_ok.mp h6
  have n1 := narrows_chosen hchosen
  have n2 := narrows_hooked hmodel
  have n3 := narrows_hooked hfield
  have hall : Narrows { model := (scene.models.get? f.model).getD default, clauses } q3 := by
    refine n1.trans (Narrows.trans ?_ (n2.trans n3))
    exact ⟨rfl, List.subset_append_left _ _⟩
  refine ⟨clauses, htied, ?_⟩
  have hq : q.model = q3.model ∧ q.clauses = q3.clauses := by
    cases h7
    split <;> exact ⟨rfl, rfl⟩
  rw [hq.1, hq.2]
  exact ⟨hall.2, hall.1⟩

/-- **Every row that a fetch gives satisfies what ties the field to its parent.** -/
theorem mem_of_run {vs : List Value} (h : f.run scene source arguments = .ok (.list vs)) :
    ∃ clauses, f.tied scene source = .ok clauses ∧ ∀ v ∈ vs,
      let m := (scene.models.get? f.model).getD default
      ∃ r ∈ scene.rows.rows m.name, v = .entity m.name r.1 ∧ ∀ c ∈ clauses, c.selects r.2 := by
  obtain ⟨⟨q, isList⟩, hstatement, h1⟩ := Outcome.bind_eq_ok.mp h
  obtain ⟨_, -, h2⟩ := Outcome.bind_eq_ok.mp h1
  obtain ⟨clauses, htied, hclauses, hmodel⟩ := tied_of_statement hstatement
  refine ⟨clauses, htied, fun v hv => ?_⟩
  have hvs : vs = (scene.rows.select q).map fun r => .entity q.model.name r.1 := by
    cases isList with
    | true =>
      cases h2
      rfl
    | false =>
      have hhead := Except.ok.inj h2
      rw [if_neg Bool.false_ne_true, List.head?_map] at hhead
      cases hr : (scene.rows.select q).head? with
      | none => rw [hr] at hhead; cases hhead
      | some r => rw [hr] at hhead; cases hhead
  rw [hvs] at hv
  obtain ⟨r, hr, rfl⟩ := List.mem_map.mp hv
  obtain ⟨hrow, hselects⟩ := scene.rows.mem_select hr
  rw [hmodel] at hrow ⊢
  exact ⟨r, hrow, rfl, fun c hc => hselects c (hclauses hc)⟩

/-! ### Fetches that nothing restricts -/

/-- A hook that leaves the rows and the number of rows alone. -/
def Lenient (scene : Scene) (arguments : Fields) (m : Model) (hook : Option HookOption) : Prop :=
  ∀ q : Select, q.model = m → ∃ order, hooked scene arguments q hook = .ok { q with order }

/-- A call that answers with a list, asks for no condition, and for a first page of this
many rows at least. -/
structure Unrestricted (scene : Scene) (f : Fetch) (arguments : Fields) (count : Nat) : Prop where
  /-- The field returns a list. -/
  isList : f.isList = .ok true
  /-- The page is the first one. -/
  page : ∃ n ≤ 1, numberOr arguments "page" firstPage = .ok n
  /-- The page is long enough. -/
  perPage : ∃ n : Int, count ≤ n ∧ numberOr arguments "perPage" usualLength = .ok n
  /-- There is no condition. -/
  condition : Clause.ofCondition scene.models ((scene.models.get? f.model).getD default)
    (Fields.get arguments "where") = .ok none
  /-- The order can be read. -/
  order : ∃ ts, OrderTerm.ofValues ((scene.models.get? f.model).getD default)
    (Fields.get arguments "order") = .ok ts
  /-- The hook of the model restricts nothing. -/
  modelHook : Lenient scene arguments ((scene.models.get? f.model).getD default) f.hook
  /-- The hook of the field restricts nothing. -/
  fieldHook : Lenient scene arguments ((scene.models.get? f.model).getD default) f.config.hook
  /-- There is a session. -/
  session : f.checkSession scene = .ok ()

/-- The statement of a call that nothing restricts asks for what ties the field to its
parent, and for a window from the start. -/
theorem statement_of_unrestricted {clauses : List Clause} {count : Nat}
    (htied : f.tied scene source = .ok clauses) (h : Unrestricted scene f arguments count) :
    ∃ order, ∃ n : Int, count ≤ n ∧ f.statement scene source arguments = .ok
      ({ model := (scene.models.get? f.model).getD default, clauses, order, limit := some n }, true) := by
  obtain ⟨page, hpage, hpageOk⟩ := h.page
  obtain ⟨n, hn, hnOk⟩ := h.perPage
  obtain ⟨ts, hts⟩ := h.order
  let m := (scene.models.get? f.model).getD default
  have hoffset : max (page - 1) 0 * n = 0 := by
    rw [Int.max_eq_right (by omega), Int.zero_mul]
  have hchosen : chosen true arguments { model := m, clauses }
      = .ok { model := m, clauses, limit := some n } := by
    refine Outcome.bind_eq_ok.mpr ⟨page, hpageOk, Outcome.bind_eq_ok.mpr ⟨n, hnOk, ?_⟩⟩
    rw [paged, hoffset]
    rfl
  obtain ⟨o1, h1⟩ := h.modelHook
    { model := m, clauses := clauses ++ [], order := if ts.isEmpty && true then keyOrder m else ts,
      limit := some n } rfl
  obtain ⟨o2, h2⟩ := h.fieldHook
    { model := m, clauses := clauses ++ [], order := o1, limit := some n } rfl
  refine ⟨o2, n, hn, ?_⟩
  refine Outcome.bind_eq_ok.mpr ⟨true, h.isList, Outcome.bind_eq_ok.mpr ⟨clauses, htied, ?_⟩⟩
  refine Outcome.bind_eq_ok.mpr ⟨_, hchosen, Outcome.bind_eq_ok.mpr ⟨none, h.condition, ?_⟩⟩
  refine Outcome.bind_eq_ok.mpr ⟨ts, hts, Outcome.bind_eq_ok.mpr ⟨_, h1, ?_⟩⟩
  refine Outcome.bind_eq_ok.mpr ⟨_, h2, ?_⟩
  rw [List.append_nil]
  rfl

/-- **A fetch that nothing restricts gives all rows that are tied to the parent**, each
once, in some order. -/
theorem run_of_unrestricted (arguments : Fields) {clauses : List Clause}
    (htied : f.tied scene source = .ok clauses)
    (h : Unrestricted scene f arguments (((scene.rows.scan
      ((scene.models.get? f.model).getD default)).filter fun r =>
        clauses.all (·.selects r.2)).length)) :
    ∃ vs, f.run scene source arguments = .ok (.list vs)
      ∧ vs.Perm (((scene.rows.scan ((scene.models.get? f.model).getD default)).filter fun r =>
          clauses.all (·.selects r.2)).map fun r =>
            .entity ((scene.models.get? f.model).getD default).name r.1) := by
  obtain ⟨order, n, hn, hstatement⟩ := statement_of_unrestricted htied h
  refine ⟨_, Outcome.bind_eq_ok.mpr ⟨_, hstatement,
    Outcome.bind_eq_ok.mpr ⟨⟨⟩, h.session, rfl⟩⟩, List.Perm.map _ ?_⟩
  have hmatching := scene.rows.matching_perm
    { model := (scene.models.get? f.model).getD default, clauses, order, limit := some n }
  have hlength := hmatching.length_eq
  rw [Store.select, Store.window_of_length_le (by rw [hlength]; exact hn)]
  exact hmatching

end Fetch
end SchemaForge
