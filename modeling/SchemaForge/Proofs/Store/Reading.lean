import Mathlib.Data.List.Basic
import SchemaForge.Condition
import SchemaForge.Proofs.Outcome

/-!
# Conditions read as they are written

`Condition.reads` is the Boolean reading of a condition over the truth of its operators: an
input is the conjunction of its entries that are not null, `and` is the conjunction of its
branches, and `or` is the disjunction of its branches, or true if it has none. Conditions on
values in memory are evaluated by this reading. `Condition.reading` lets only some branches
count; where those that do not are true, this makes a difference only under an `or` that
mixes them with others.
-/
namespace SchemaForge

namespace Condition

/-- The truth of the operators of a condition, by name, operator and operand. -/
abbrev Leaves := String → String → Value → Bool

/-- Whether all operators on one name hold. -/
def operatorsHold (leaf : Leaves) (key : String) : Value → Bool
  | .record ops => ops.all fun o => leaf key o.1 o.2
  | _ => false

mutual

/-- The truth of a condition by the truth of its operators, if only some branches count. -/
def reading (counts : Value → Bool) (leaf : Leaves) : Value → Bool
  | .record fs => readingEntries counts leaf fs
  | w => !w.truthy

/-- The truth of the entries of a condition. -/
def readingEntries (counts : Value → Bool) (leaf : Leaves) : List (String × Value) → Bool
  | [] => true
  | (key, condition) :: rest =>
    (condition.isNull ||
      if isConnective key then connect key (readingBranches counts leaf condition)
      else operatorsHold leaf key condition) && readingEntries counts leaf rest

/-- The truth of the branches of a connective that count. -/
def readingBranches (counts : Value → Bool) (leaf : Leaves) : Value → List Bool
  | .list ws => readingAll counts leaf ws
  | .tuple ws => readingAll counts leaf ws
  | _ => []

/-- The truth of the conditions of a list that count. -/
def readingAll (counts : Value → Bool) (leaf : Leaves) : List Value → List Bool
  | [] => []
  | w :: ws =>
    if counts w then reading counts leaf w :: readingAll counts leaf ws
    else readingAll counts leaf ws

end

/-- The Boolean reading of a condition: every branch counts. -/
def reads (leaf : Leaves) (w : Value) : Bool := reading (fun _ => true) leaf w

/-- Whether some operator on a name is known. -/
def demandsOperators : Value → Bool
  | .record ops => ops.any fun o => (Operator.ofName? o.1).isSome
  | _ => false

mutual

/-- Whether a condition says anything: some operator that is known stands in it. -/
def demands : Value → Bool
  | .record fs => demandsEntries fs
  | _ => false

/-- Whether some entry of a condition says anything. -/
def demandsEntries : List (String × Value) → Bool
  | [] => false
  | (key, condition) :: rest =>
    (if isConnective key then demandsBranches condition else demandsOperators condition)
      || demandsEntries rest

/-- Whether some branch of a connective says anything. -/
def demandsBranches : Value → Bool
  | .list ws => demandsAny ws
  | .tuple ws => demandsAny ws
  | _ => false

/-- Whether some condition of a list says anything. -/
def demandsAny : List Value → Bool
  | [] => false
  | w :: ws => demands w || demandsAny ws

end

mutual

/-- Whether in every `or` of a condition all branches say something, or none does. -/
def uniform : Value → Bool
  | .record fs => uniformEntries fs
  | _ => true

/-- Whether the entries of a condition are so. -/
def uniformEntries : List (String × Value) → Bool
  | [] => true
  | (key, condition) :: rest =>
    (!isConnective key || uniformBranches (key == "or") condition) && uniformEntries rest

/-- Whether the branches of a connective are so. -/
def uniformBranches (disjunctive : Bool) : Value → Bool
  | .list ws => (!disjunctive || ws.all demands || !demandsAny ws) && uniformAll ws
  | .tuple ws => (!disjunctive || ws.all demands || !demandsAny ws) && uniformAll ws
  | _ => true

/-- Whether the conditions of a list are so. -/
def uniformAll : List Value → Bool
  | [] => true
  | w :: ws => uniform w && uniformAll ws

end

/-! ### Branches -/

/-- The conditions that a connective connects. -/
def branches : Value → List Value
  | .list ws => ws
  | .tuple ws => ws
  | _ => []

variable {counts : Value → Bool} {leaf : Leaves}

theorem readingAll_eq (ws : List Value) :
    readingAll counts leaf ws = (ws.filter counts).map (reading counts leaf) := by
  induction ws with
  | nil => rfl
  | cons w ws ih =>
    rw [readingAll, List.filter_cons]
    split <;> simp [ih]

theorem readingBranches_eq (w : Value) : readingBranches counts leaf w
    = ((branches w).filter counts).map (reading counts leaf) := by
  cases w <;> first | exact readingAll_eq _ | rfl

theorem demandsAny_eq (ws : List Value) : demandsAny ws = ws.any demands := by
  induction ws with
  | nil => rfl
  | cons w ws ih => rw [demandsAny, ih, List.any_cons]

theorem demandsBranches_eq (w : Value) : demandsBranches w = (branches w).any demands := by
  cases w <;> first | exact demandsAny_eq _ | rfl

theorem uniformAll_eq (ws : List Value) : uniformAll ws = ws.all uniform := by
  induction ws with
  | nil => rfl
  | cons w ws ih => rw [uniformAll, ih, List.all_cons]

theorem uniformBranches_eq (disjunctive : Bool) (w : Value) : uniformBranches disjunctive w
    = ((!disjunctive || (branches w).all demands || !(branches w).any demands)
      && (branches w).all uniform) := by
  cases w <;> first
    | (simp only [uniformBranches, uniformAll_eq, demandsAny_eq]; rfl)
    | simp [uniformBranches, branches]

/-- A connective that is true without the branches that do not count is true with them, if
these are true. -/
theorem connect_of_filter {key : String} {ws : List Value} {r r' : Value → Bool}
    (hr : ∀ w ∈ ws, r' w = true → r w = true) (htrue : ∀ w ∈ ws, counts w = false → r w = true)
    (h : connect key ((ws.filter counts).map r') = true) : connect key (ws.map r) = true := by
  by_cases hand : key = "and"
  · simp only [connect, hand, beq_self_eq_true, if_true, List.all_map, List.all_filter,
      List.all_eq_true, Function.comp_apply, id_eq, Bool.or_eq_true, Bool.not_eq_true'] at h ⊢
    intro w hw
    exact (h w hw).elim (htrue w hw) (hr w hw)
  · simp only [connect, beq_eq_false_iff_ne.mpr hand, Bool.false_eq_true, if_false,
      Bool.or_eq_true, List.isEmpty_iff, List.map_eq_nil_iff, List.any_map, List.any_eq_true,
      List.filter_eq_nil_iff, List.mem_filter, Function.comp_apply, id_eq] at h ⊢
    rcases h with hnone | ⟨w, ⟨hw, -⟩, hrw⟩
    · cases ws with
      | nil => exact .inl rfl
      | cons w ws =>
        have hw := List.mem_cons_self (a := w) (l := ws)
        exact .inr ⟨w, hw, htrue w hw (by simpa using hnone w hw)⟩
    · exact .inr ⟨w, hw, hr w hw hrw⟩

/-- A connective that is true is so without the branches that do not count, if it is no `or`
that mixes these with others. -/
theorem connect_filter {key : String} {ws : List Value} {r r' : Value → Bool}
    (hr : ∀ w ∈ ws, r w = true → r' w = true)
    (hmix : key = "and" ∨ ws.all counts = true ∨ ws.any counts = false)
    (h : connect key (ws.map r) = true) : connect key ((ws.filter counts).map r') = true := by
  by_cases hand : key = "and"
  · simp only [connect, hand, beq_self_eq_true, if_true, List.all_map, List.all_eq_true,
      List.mem_filter, Function.comp_apply, id_eq] at h ⊢
    exact fun w hw => hr w hw.1 (h w hw.1)
  · simp only [connect, beq_eq_false_iff_ne.mpr hand, Bool.false_eq_true, if_false,
      Bool.or_eq_true, List.isEmpty_iff, List.map_eq_nil_iff, List.any_map, List.any_eq_true,
      List.filter_eq_nil_iff, List.mem_filter, Function.comp_apply, id_eq] at h ⊢
    rcases hmix with heq | hall | hnone
    · exact absurd heq hand
    · rcases h with rfl | ⟨w, hw, hrw⟩
      · exact .inl fun w hw => by cases hw
      · exact .inr ⟨w, ⟨hw, List.all_eq_true.mp hall w hw⟩, hr w hw hrw⟩
    · exact .inl fun w hw => by simpa using List.any_eq_false.mp hnone w hw

/-- What holds of a condition if it holds of all branches of its connectives holds of every
condition; `Q` says what it means for the entries. -/
theorem induction {P : Value → Prop} {Q : Fields → Prop} (record : ∀ fs, Q fs → P (.record fs))
    (other : ∀ w, (∀ fs, w = .record fs → False) → P w) (nil : Q [])
    (cons : ∀ key condition rest, (∀ w ∈ branches condition, P w) → Q rest →
      Q ((key, condition) :: rest)) : ∀ w, P w :=
  (demands.mutual_induct P Q (fun w => ∀ v ∈ branches w, P v) (fun ws => ∀ w ∈ ws, P w)
    record other (fun _ h => h) (fun _ h => h)
    (fun w hlist htuple v hv => by
      cases w <;> first | exact absurd rfl (hlist _) | exact absurd rfl (htuple _) | cases hv)
    (fun w hw => by cases hw)
    (fun w ws hw hws v hv => by
      rcases List.mem_cons.mp hv with rfl | hv
      · exact hw
      · exact hws v hv)
    nil cons).1

/-! ### Values in memory -/

/-- Whether an attribute satisfies an operator: it is offered for the value and holds. -/
def attributeSatisfies (get : String → Value) : Leaves := fun key name operand =>
  ((Operator.offered (get key)).find? (·.name == name)).any fun o =>
    (o.test (get key) operand).toOption.any id

theorem allOperators_eq_ok {get : String → Value} {key : String} {ops : Fields} {b : Bool}
    (h : allOperators (get key) ops = .ok b) :
    b = operatorsHold (attributeSatisfies get) key (.record ops) := by
  induction ops generalizing b with
  | nil =>
    cases h
    rfl
  | cons op ops ih =>
    obtain ⟨name, operand⟩ := op
    unfold allOperators at h
    simp only [operatorsHold, List.all_cons] at ih ⊢
    cases ho : (Operator.offered (get key)).find? (·.name == name) with
    | none =>
      simp only [ho] at h
      cases h
      simp [attributeSatisfies, ho]
    | some o =>
      simp only [ho] at h
      have hleaf : attributeSatisfies get key name operand
          = (o.test (get key) operand).toOption.any id := by
        simp [attributeSatisfies, ho]
      rw [hleaf]
      cases ht : o.test (get key) operand with
      | error e =>
        rw [ht] at h
        cases h
      | ok holds =>
        rw [ht] at h
        cases holds with
        | false =>
          cases h
          rfl
        | true =>
          rw [ih h]
          rfl

theorem truths_eq_ok {get : String → Value} {ws : List Value} {bs : List Bool}
    (heach : ∀ v ∈ ws, ∀ b, holds get v = .ok b → b = reads (attributeSatisfies get) v)
    (h : truths get ws = .ok bs) : bs = ws.map (reads (attributeSatisfies get)) := by
  induction ws generalizing bs with
  | nil =>
    cases h
    rfl
  | cons v ws ih =>
    rw [truths] at h
    cases hv : holds get v with
    | error e =>
      rw [hv] at h
      cases h
    | ok b =>
      simp only [hv] at h
      obtain ⟨rest, hrest, rfl⟩ := Outcome.map_eq_ok.mp h
      rw [List.map_cons, ← heach v List.mem_cons_self b hv,
        ih (fun w hw => heach w (List.mem_cons_of_mem _ hw)) hrest]

/-- What the evaluation of branches gives is what the branches mean. -/
theorem connect_branchesOf {get : String → Value} {key : String} {w : Value} {bs : List Bool}
    (heach : ∀ v ∈ branches w, ∀ b, holds get v = .ok b → b = reads (attributeSatisfies get) v)
    (h : branchesOf get w = .ok bs) :
    connect key bs = connect key ((branches w).map (reads (attributeSatisfies get))) := by
  unfold branchesOf at h
  split at h
  · rw [truths_eq_ok heach h, branches]
  · rw [truths_eq_ok heach h, branches]
  · split at h
    · cases h
      simp only [connect, branches]
      split <;> simp
    · cases h
  · split at h
    · cases h
      rfl
    · cases h
  · cases h

/-- An entry is passed over, or it has a truth of its own, and what is after it counts only if that
is so. -/
theorem allEntries_cons_eq_ok {get : String → Value} {key : String} {condition : Value}
    {rest : Fields} {b : Bool} (h : allEntries get ((key, condition) :: rest) = .ok b) :
    (condition.isNull = true ∧ allEntries get rest = .ok b)
    ∨ (condition.isNull = false ∧ ∃ own,
      ((isConnective key = true ∧ ∃ bs, branchesOf get condition = .ok bs ∧ connect key bs = own)
        ∨ (isConnective key = false ∧ ∃ ops, condition = .record ops
          ∧ allOperators (get key) ops = .ok own))
      ∧ ((own = true ∧ allEntries get rest = .ok b) ∨ (own = false ∧ b = false))) := by
  unfold allEntries at h
  cases hnull : condition.isNull with
  | true => exact .inl ⟨rfl, by rwa [if_pos hnull] at h⟩
  | false =>
    rw [if_neg (by simp [hnull])] at h
    refine .inr ⟨rfl, ?_⟩
    split at h
    · rename_i hkey
      split at h
      · cases h
      · rename_i bs hbs
        refine ⟨connect key bs, .inl ⟨hkey, bs, hbs, rfl⟩, ?_⟩
        split at h
        · rename_i htrue
          exact .inl ⟨htrue, h⟩
        · rename_i hfalse
          cases h
          exact .inr ⟨eq_false_of_ne_true hfalse, rfl⟩
    · rename_i hkey
      have hkey := eq_false_of_ne_true hkey
      split at h
      · rename_i ops
        cases ho : allOperators (get key) ops with
        | error e =>
          rw [ho] at h
          cases h
        | ok own =>
          rw [ho] at h
          refine ⟨own, .inr ⟨hkey, ops, rfl, ho⟩, ?_⟩
          cases own with
          | true => exact .inl ⟨rfl, h⟩
          | false =>
            cases h
            exact .inr ⟨rfl, rfl⟩
      · cases h

/-- **Conditions on values in memory are evaluated by the Boolean reading.** -/
theorem holds_eq_ok {get : String → Value} (w : Value) : ∀ b, holds get w = .ok b →
    b = reads (attributeSatisfies get) w := by
  refine induction (P := fun w => ∀ b, holds get w = .ok b → b = reads (attributeSatisfies get) w)
    (Q := fun fs => ∀ b, allEntries get fs = .ok b →
      b = readingEntries (fun _ => true) (attributeSatisfies get) fs) ?record ?other ?nil ?cons w
  case record =>
    intro fs ih b h
    rw [holds_record] at h
    exact ih b h
  case other =>
    intro w hw b h
    rw [holds.eq_2 _ _ hw] at h
    rw [reads, reading.eq_2 _ _ _ hw]
    split at h
    · cases h
    · rename_i hfalse
      cases h
      simpa using hfalse
  case nil =>
    intro b h
    cases h
    rfl
  case cons =>
    intro key condition rest hbranches hrest b h
    rw [readingEntries, readingBranches_eq, List.filter_true]
    rcases allEntries_cons_eq_ok h with ⟨hnull, h⟩ | ⟨hnull, own, hown, h⟩
    · rw [hnull, Bool.true_or, Bool.true_and]
      exact hrest b h
    have hsame : own = if isConnective key then connect key ((branches condition).map
          (reading (fun _ => true) (attributeSatisfies get)))
        else operatorsHold (attributeSatisfies get) key condition := by
      rcases hown with ⟨hkey, bs, hbs, rfl⟩ | ⟨hkey, ops, rfl, ho⟩
      · rw [if_pos hkey]
        exact connect_branchesOf hbranches hbs
      · rw [if_neg (by simp [hkey])]
        exact allOperators_eq_ok ho
    rw [hnull, Bool.false_or, ← hsame]
    rcases h with ⟨rfl, h⟩ | ⟨rfl, rfl⟩
    · rw [Bool.true_and]
      exact hrest b h
    · rfl

end Condition
end SchemaForge
