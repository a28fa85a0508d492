import SchemaForge.Proofs.Schema.Fitting
import SchemaForge.Proofs.Store.Reading
import SchemaForge.Store.Clause

/-!
# Conditions that the store takes

The store takes a condition that fits an input type if every name that the condition compares
stands for a column, and no operator that needs a value is given null or a truth value. Where an
input type offers a name that stands for no column, some condition that fits is refused.
-/
namespace SchemaForge

open Language

/-- Whether an operator takes null and truth values. -/
def Operator.takesConstants : Operator → Bool
  | .eq | .ne | .isIn | .notIn | .null => true
  | _ => false

/-- Names by which conditions on a model can compare: they stand for columns. -/
def Models.Filters (models : Models) (m : Model) (key : String) : Prop :=
  Condition.isConnective key = false ∧ ∃ c, Clause.subject models m key = .ok (.column c)

namespace Condition

mutual

/-- Whether something holds of every operator of a condition. -/
def every (p : Leaves) : Value → Bool
  | .record fs => everyEntry p fs
  | _ => true

/-- Whether it holds of every operator of the entries of a condition. -/
def everyEntry (p : Leaves) : List (String × Value) → Bool
  | [] => true
  | (key, condition) :: rest =>
    (condition.isNull ||
      if isConnective key then everyBranch p condition else operatorsHold p key condition)
      && everyEntry p rest

/-- Whether it holds of every operator of the branches of a connective. -/
def everyBranch (p : Leaves) : Value → Bool
  | .list ws => everyAll p ws
  | .tuple ws => everyAll p ws
  | _ => true

/-- Whether it holds of every operator of the conditions of a list. -/
def everyAll (p : Leaves) : List Value → Bool
  | [] => true
  | w :: ws => every p w && everyAll p ws

end

end Condition

namespace Clause

open Condition

/-- Whether the store can compare a column by an operator with an operand. -/
def comparable : Leaves := fun _ name operand =>
  (Operator.ofName? name).all fun o => o.takesConstants || !isConstant operand

variable {models : Models} {m : Model}

/-! ### Operators -/

theorem isConstant_coerce (type : ColumnType) (v : Value) :
    isConstant (coerce type v) = isConstant v := by
  cases v with
  | text s =>
    have hread : ∀ o : Option Value, (∀ v ∈ o, isConstant v = false) →
        isConstant (o.getD (.text s)) = false := by
      intro o ho
      cases o with
      | none => rfl
      | some v => exact ho v rfl
    refine hread _ fun v hv => ?_
    split at hv
    · obtain ⟨_, -, rfl⟩ := Option.map_eq_some_iff.mp hv
      rfl
    · split at hv
      · obtain ⟨_, -, rfl⟩ := Option.map_eq_some_iff.mp hv
        rfl
      · split at hv
        · obtain ⟨_, -, rfl⟩ := Option.map_eq_some_iff.mp hv
          rfl
        · cases hv
  | _ => rfl

/-- A list, or null for the empty one. -/
def IsListed (v : Value) : Prop := v = .null ∨ ∃ xs, v = .list xs

theorem isOk_withList {op : Comparison} {c : ColumnRef} {type : ColumnType} {v : Value}
    (h : IsListed v) : (withList op c (coerce type v)).isOk = true := by
  rcases h with rfl | ⟨xs, rfl⟩
  · rfl
  · rw [coerce]
    unfold withList
    split <;> rfl

/-- An operator on a column takes every operand but null and truth values, which only some
operators take; membership needs a list. -/
theorem isOk_onColumn {o : Operator} {c : ColumnRef} {v : Value}
    (h : o = .isIn ∨ o = .notIn → IsListed v) :
    (ofOperator (.column c) o v).isOk = (o.takesConstants || !isConstant v) := by
  have hordinary : ∀ op, (ordinary op c (coerce c.column.type v)).isOk = !isConstant v := by
    intro op
    rw [← isConstant_coerce c.column.type v]
    unfold ordinary
    split <;> simp_all [Except.isOk, Except.toBool]
  cases o with
  | eq | ne | null => rfl
  | isIn => exact isOk_withList (h (.inl rfl))
  | notIn => exact isOk_withList (h (.inr rfl))
  | like | notLike | lt | lte | gt | gte => exact hordinary _

/-- The store takes the operators on a column if it takes each of them. -/
theorem isOk_ofOperators {c : ColumnRef} (key : String) {ops : Fields}
    (h : ∀ op ∈ ops, op.1 = "in" ∨ op.1 = "notIn" → IsListed op.2) :
    (ofOperators (.column c) ops).isOk = operatorsHold comparable key (.record ops) := by
  induction ops with
  | nil => rfl
  | cons op ops ih =>
    have hrest := ih fun op hop => h op (List.mem_cons_of_mem _ hop)
    obtain ⟨name, operand⟩ := op
    simp only [operatorsHold, List.all_cons] at hrest ⊢
    rw [ofOperators, ← hrest, comparable]
    cases ho : Operator.ofName? name with
    | none => rw [Option.all_none, Bool.true_and]
    | some o =>
      have hname : o.name = name :=
        beq_iff_eq.mp (List.find?_some (p := fun o : Operator => o.name == name) ho)
      have hone : (ofOperator (.column c) o operand).isOk
          = (o.takesConstants || !isConstant operand) := by
        refine isOk_onColumn fun hlist => h (name, operand) List.mem_cons_self ?_
        rcases hlist with rfl | rfl
        · exact .inl hname.symm
        · exact .inr hname.symm
      rw [Option.all_some, ← hone]
      cases hclause : ofOperator (.column c) o operand with
      | error e => simp only [hclause, Outcome.isOk_error, Bool.false_and]
      | ok clause => simp only [hclause, Outcome.isOk_map, Outcome.isOk_ok, Bool.true_and]

end Clause

/-! ### Input types -/

namespace Schema

variable (s : Schema) (leaves : Implementations)

/-- An input type that is no leaf. -/
structure IsInput (name : String) : Prop where
  /-- Its kind. -/
  input : s.isKind name .input = true
  /-- Its values are records. -/
  bare : ∀ l, ¬s.LeafOf leaves name l

/-- An input type that takes the operators on a kind of value. -/
structure OperatorInput (name : String) : Prop extends IsInput s leaves name where
  /-- Membership is in lists. -/
  lists : ∀ i ∈ s.inputs name, i.name = "in" ∨ i.name = "notIn" → ∃ t, i.type = .list t
  /-- There is membership. -/
  among : ∃ i ∈ s.inputs name, i.name = "in"

/-- An input type that takes conditions: connectives, and names with operators. -/
structure ConditionInput (name : String) : Prop extends IsInput s leaves name where
  /-- Its fields. -/
  entries : ∀ i ∈ s.inputs name,
    (Condition.isConnective i.name = true ∧ i.type = .list (.nonNull (.named name)))
      ∨ ∃ op, i.type = .named op ∧ OperatorInput s leaves op

variable {s leaves} {name : String}

/-- What fits an input type is null or a record of what fits its fields. -/
theorem IsInput.of_fits (h : s.IsInput leaves name) {v : Value}
    (hv : s.Fits leaves (.named name) v) :
    v = .null ∨ ∃ fs, v = .record fs ∧ ∀ f ∈ fs, s.FitsInput leaves name f.1 f.2 := by
  cases hv with
  | null => exact .inl rfl
  | some hv =>
    cases hv with
    | record hinput hfs => exact .inr ⟨_, rfl, hfs⟩
    | leaf hlist hleaf hhas => exact absurd hleaf (h.bare _)

theorem IsInput.of_fits_nonNull (h : s.IsInput leaves name) {v : Value}
    (hv : s.Fits leaves (.nonNull (.named name)) v) : s.Fits leaves (.named name) v := by
  cases hv with
  | null hnull => cases hnull
  | some hv =>
    cases hv with
    | nonNull hv => exact .some hv
    | leaf hlist hleaf hhas => exact absurd hleaf (h.bare _)

/-- What fits a list type is null or a list of what fits its items. -/
theorem Fits.of_list {t : TypeRef} {v : Value} (h : s.Fits leaves (.list t) v) :
    v = .null ∨ ∃ xs, v = .list xs ∧ ∀ x ∈ xs, s.Fits leaves t x := by
  cases h with
  | null => exact .inl rfl
  | some h =>
    cases h with
    | list h => exact .inr ⟨_, rfl, h⟩
    | leaf hlist hleaf hhas => exact absurd rfl (hlist t)

end Schema

/-! ### Conditions -/

namespace Clause

open Condition Schema

variable {models : Models} {m : Model} {s : Schema} {leaves : Implementations} {name : String}

/-- What fits an input for operators has lists, or null, for membership. -/
theorem isListed_of_fits (h : s.OperatorInput leaves name) {key : String} {v : Value}
    (hfits : s.FitsInput leaves name key v) (hkey : key = "in" ∨ key = "notIn") : IsListed v := by
  cases hfits with
  | input hi hfits =>
    obtain ⟨t, ht⟩ := h.lists _ hi hkey
    rw [ht] at hfits
    exact hfits.of_list.imp id fun ⟨xs, hxs, _⟩ => ⟨xs, hxs⟩

theorem isOk_ofAll {ws : List Value}
    (h : ∀ w ∈ ws, (ofCondition models m w).isOk = every comparable w) :
    (ofAll models m ws).isOk = everyAll comparable ws := by
  induction ws with
  | nil => rfl
  | cons w ws ih =>
    rw [ofAll, everyAll, ← h w List.mem_cons_self,
      ← ih fun w hw => h w (List.mem_cons_of_mem _ hw)]
    cases ofCondition models m w with
    | error e => rfl
    | ok c => simp only [Outcome.isOk_map, Outcome.isOk_ok, Bool.true_and]

/-- The clauses of a connective are there if those of its branches are. -/
theorem isOk_cons_connective {key : String} {condition : Value} {rest : Fields}
    (hnull : condition.isNull = false) (hkey : isConnective key = true) :
    (ofEntries models m ((key, condition) :: rest)).isOk
      = ((ofBranches models m condition).isOk && (ofEntries models m rest).isOk) := by
  rw [ofEntries, hnull, if_neg Bool.false_ne_true, if_pos hkey]
  cases ofBranches models m condition with
  | error e => rfl
  | ok bs => simp only [Outcome.isOk_map, Outcome.isOk_ok, Bool.true_and]

/-- The clauses of the operators on a name are there if they are on what it stands for. -/
theorem isOk_cons_operators {key : String} {ops rest : Fields} {subject : Subject}
    (hkey : ¬isConnective key = true) (hsubject : Clause.subject models m key = .ok subject) :
    (ofEntries models m ((key, .record ops) :: rest)).isOk
      = ((ofOperators subject ops).isOk && (ofEntries models m rest).isOk) := by
  rw [ofEntries, show (Value.record ops).isNull = false from rfl, if_neg Bool.false_ne_true,
    if_neg hkey, hsubject]
  dsimp only
  cases ofOperators subject ops with
  | error e => rfl
  | ok cs => simp only [Outcome.isOk_map, Outcome.isOk_ok, Bool.true_and]

/-- **The store takes a condition that fits an input type of columns exactly if it can compare
each column in the way that the condition says.** -/
theorem isOk_ofCondition (h : s.ConditionInput leaves name)
    (hfilters : ∀ i ∈ s.inputs name, i.type.isList = false → models.Filters m i.name) (w : Value) :
    s.Fits leaves (.named name) w →
      (ofCondition models m w).isOk = every comparable w := by
  refine Condition.induction
    (P := fun w => s.Fits leaves (.named name) w →
      (ofCondition models m w).isOk = every comparable w)
    (Q := fun fs => (∀ f ∈ fs, s.FitsInput leaves name f.1 f.2) →
      (ofEntries models m fs).isOk = everyEntry comparable fs) ?record ?other ?nil ?cons w
  case record =>
    intro fs ih hfits
    obtain hnull | ⟨fs', hrecord, hfs⟩ := h.of_fits hfits
    · cases hnull
    · cases hrecord
      rw [ofCondition, every, Outcome.isOk_map]
      exact ih hfs
  case other =>
    intro w hw hfits
    obtain rfl | ⟨fs, rfl, -⟩ := h.of_fits hfits
    · rfl
    · exact absurd rfl (hw fs)
  case nil => exact fun _ => rfl
  case cons =>
    intro key condition rest hbranches hrest hfits
    rw [everyEntry, ← hrest fun f hf => hfits f (List.mem_cons_of_mem _ hf)]
    cases hnull : condition.isNull with
    | true =>
      rw [ofEntries, if_pos hnull, Bool.true_or, Bool.true_and]
    | false =>
      rw [Bool.false_or]
      cases hfits (key, condition) List.mem_cons_self with
      | @input _ i _ hi hentry =>
        rcases h.entries i hi with ⟨hkey, htype⟩ | ⟨op, htype, hop⟩
        · rw [isOk_cons_connective hnull hkey, if_pos hkey]
          rw [htype] at hentry
          obtain rfl | ⟨ws, rfl, hws⟩ := hentry.of_list
          · cases hnull
          · have hall : (ofAll models m ws).isOk = everyAll comparable ws := isOk_ofAll fun w hw =>
              hbranches w hw (h.toIsInput.of_fits_nonNull (hws w hw))
            rw [ofBranches, everyBranch, hall]
        · have hkey := hfilters i hi (by rw [htype]; rfl)
          obtain ⟨hkey, c, hsubject⟩ := hkey
          rw [htype] at hentry
          obtain rfl | ⟨ops, rfl, hops⟩ := hop.toIsInput.of_fits hentry
          · cases hnull
          · rw [isOk_cons_operators (by simp [hkey]) hsubject, hkey, if_neg Bool.false_ne_true,
              isOk_ofOperators i.name fun op hin => isListed_of_fits hop (hops op hin)]

/-- Membership in the empty list, on one name. -/
def nowhere (key : String) : Value := .record [(key, .record [("in", .list [])])]

/-- **A name that does not stand for a column is offered in vain.** That it is in an empty list
fits, and the store could compare a column so, but refuses this condition. -/
theorem refuses_nowhere (h : s.ConditionInput leaves name) {i : InputNode} (hi : i ∈ s.inputs name)
    (hlist : i.type.isList = false) (hnot : ¬models.Filters m i.name) :
    s.Fits leaves (.named name) (nowhere i.name) ∧ every comparable (nowhere i.name) = true
      ∧ (ofCondition models m (nowhere i.name)).isOk = false := by
  have hop : ∃ op, i.type = .named op ∧ s.OperatorInput leaves op := by
    refine (h.entries i hi).resolve_left fun hconnective => ?_
    rw [hconnective.2] at hlist
    cases hlist
  obtain ⟨op, htype, hop⟩ := hop
  refine ⟨?_, ?_, ?_⟩
  · obtain ⟨j, hj, hname⟩ := hop.among
    obtain ⟨t, ht⟩ := hop.lists j hj (.inl hname)
    have hin : s.FitsInput leaves op "in" (.list []) := by
      rw [← hname]
      refine .input hj ?_
      rw [ht]
      exact .some (.list fun x hx => by cases hx)
    have hrecord : s.Fits leaves i.type (.record [("in", .list [])]) := by
      rw [htype]
      refine .some (.record hop.input fun f hf => ?_)
      rw [List.mem_singleton.mp hf]
      exact hin
    refine .some (.record h.input fun f hf => ?_)
    rw [List.mem_singleton.mp hf]
    exact .input hi hrecord
  · rw [nowhere, every, everyEntry, everyEntry, Bool.and_true, Bool.or_eq_true]
    refine .inr ?_
    split <;> rfl
  · rw [nowhere, ofCondition, Outcome.isOk_map]
    cases hkey : isConnective i.name with
    | true =>
      rw [isOk_cons_connective rfl hkey]
      rfl
    | false =>
      cases hsubject : Clause.subject models m i.name with
      | error e =>
        rw [ofEntries, show (Value.record [("in", .list [])]).isNull = false from rfl,
          if_neg Bool.false_ne_true, hkey, if_neg Bool.false_ne_true, hsubject]
        rfl
      | ok subject =>
        rw [isOk_cons_operators (by simp [hkey]) hsubject]
        cases subject with
        | column c => exact absurd ⟨hkey, c, hsubject⟩ hnot
        | plain v => rfl

end Clause

end SchemaForge
