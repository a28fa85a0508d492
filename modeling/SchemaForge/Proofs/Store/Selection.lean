import SchemaForge.Store.Statement

/-!
# What connected clauses select

A row is selected by a conjunction if every part selects it, and by a disjunction if some
part does, however the parts are flattened and however many there are. Nothing in a clause
negates another, so an unknown truth never selects anything.
-/
namespace SchemaForge

namespace Clause

variable (row : Row)

theorem truths_eq_map (cs : List Clause) : truths row cs = cs.map (truth row) := by
  induction cs with
  | nil => rfl
  | cons c cs ih => rw [truths, ih, List.map_cons]

theorem allTrue_eq_some_true {ts : List (Option Bool)} :
    allTrue ts = some true ↔ ∀ t ∈ ts, t = some true := by
  simp only [allTrue, List.contains_iff_mem]
  constructor
  · intro h t ht
    split at h
    · cases h
    · rename_i hfalse
      split at h
      · cases h
      · rename_i hnone
        rcases t with _ | _ | _
        · exact absurd ht hnone
        · exact absurd ht hfalse
        · rfl
  · intro h
    have hfalse : some false ∉ ts := fun hmem => by cases h _ hmem
    have hnone : none ∉ ts := fun hmem => by cases h _ hmem
    rw [if_neg hfalse, if_neg hnone]

theorem anyTrue_eq_some_true {ts : List (Option Bool)} :
    anyTrue ts = some true ↔ some true ∈ ts := by
  simp only [anyTrue, List.contains_iff_mem]
  by_cases h : some true ∈ ts
  · simp [h]
  · rw [if_neg h]
    split <;> simp [h]

theorem selects_iff {c : Clause} : c.selects row = true ↔ truth row c = some true := by
  rw [selects, beq_iff_eq]

@[simp] theorem selects_always (b : Bool) : (always b).selects row = b := by
  cases b <;> rfl

@[simp] theorem selects_all (cs : List Clause) :
    (all cs).selects row = cs.all (·.selects row) := by
  rw [Bool.eq_iff_iff, selects_iff, truth, truths_eq_map, allTrue_eq_some_true, List.all_eq_true]
  simp only [List.mem_map, forall_exists_index, and_imp, forall_apply_eq_imp_iff₂, selects_iff]

@[simp] theorem selects_any (cs : List Clause) :
    (any cs).selects row = cs.any (·.selects row) := by
  rw [Bool.eq_iff_iff, selects_iff, truth, truths_eq_map, anyTrue_eq_some_true, List.any_eq_true]
  simp only [List.mem_map, selects_iff]

theorem isAlways_eq_true {b : Bool} {c : Clause} : c.isAlways b = true ↔ c = always b := by
  cases c <;> simp [isAlways]

/-- The parts of a clause in a conjunction select what it selects. -/
theorem all_conjuncts (c : Clause) : c.conjuncts.all (·.selects row) = c.selects row := by
  cases c with
  | always b => cases b <;> simp [conjuncts]
  | all cs => simp [conjuncts]
  | any cs => simp [conjuncts]
  | compare op column operand => simp [conjuncts]

/-- The parts of a clause in a disjunction select what it selects. -/
theorem any_disjuncts (c : Clause) : c.disjuncts.any (·.selects row) = c.selects row := by
  cases c with
  | always b => cases b <;> simp [disjuncts]
  | all cs => simp [disjuncts]
  | any cs => simp [disjuncts]
  | compare op column operand => simp [disjuncts]

/-- **A conjunction selects what every part selects.** -/
@[simp] theorem selects_conj (cs : List Clause) :
    (conj cs).selects row = cs.all (·.selects row) := by
  unfold conj
  split
  · rename_i hnever
    obtain ⟨c, hc, hfalse⟩ := List.any_eq_true.mp hnever
    obtain rfl := isAlways_eq_true.mp hfalse
    rw [selects_always, eq_comm, List.all_eq_false]
    exact ⟨_, hc, by simp⟩
  · have hparts : (cs.flatMap conjuncts).all (·.selects row) = cs.all (·.selects row) := by
      rw [List.all_flatMap]
      exact congrArg cs.all (funext (all_conjuncts row))
    rw [← hparts]
    split
    · rename_i hnil
      rw [hnil, selects_always, List.all_nil]
    · rename_i c hone
      rw [hone, List.all_cons, List.all_nil, Bool.and_true]
    · exact selects_all row _

/-- **A disjunction selects what some part selects.** -/
@[simp] theorem selects_disj (cs : List Clause) :
    (disj cs).selects row = cs.any (·.selects row) := by
  unfold disj
  split
  · rename_i hever
    obtain ⟨c, hc, htrue⟩ := List.any_eq_true.mp hever
    obtain rfl := isAlways_eq_true.mp htrue
    rw [selects_always, eq_comm, List.any_eq_true]
    exact ⟨_, hc, by simp⟩
  · have hparts : (cs.flatMap disjuncts).any (·.selects row) = cs.any (·.selects row) := by
      rw [List.any_flatMap]
      exact congrArg cs.any (funext (any_disjuncts row))
    rw [← hparts]
    split
    · rename_i hnil
      rw [hnil, selects_always, List.any_nil]
    · rename_i c hone
      rw [hone, List.any_cons, List.any_nil, Bool.or_false]
    · exact selects_any row _

/-- All of the clauses of a condition select what each of them selects. -/
theorem selects_whole (cs : List Clause) :
    (whole cs).all (·.selects row) = cs.all (·.selects row) := by
  rcases cs with _ | ⟨c, _ | ⟨d, cs⟩⟩
  · rfl
  · simp
  · exact selects_conj row _

theorem isSome_whole (cs : List Clause) : (whole cs).isSome = !cs.isEmpty := by
  rcases cs with _ | ⟨c, _ | ⟨d, cs⟩⟩ <;> rfl

end Clause
end SchemaForge
