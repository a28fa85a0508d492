import Mathlib.Data.List.Forall2
import SchemaForge.Proofs.Store.Reading
import SchemaForge.Proofs.Store.Selection

/-!
# What the clause of a condition selects

The clause of a condition is evaluated by nearly the Boolean reading of the condition. A
branch that says nothing has no clause, and it is left out of the connective. Under `and` this
changes nothing, as such a branch is true; under `or` it takes away a branch that is true, so
that fewer rows are selected than the condition describes.
-/
namespace SchemaForge

namespace Clause

variable (models : Models) (m : Model) (row : Row)

/-- Whether a row satisfies an operator on a name: its clause selects the row. An operator
that is not known asks for nothing. -/
def satisfies (key name : String) (operand : Value) : Bool :=
  (Operator.ofName? name).all fun o =>
    (subject models m key >>= fun s => ofOperator s o operand).toOption.any (·.selects row)

variable {models m}

/-- The clauses of the operators on a name are those of the known ones. -/
theorem ofOperators_eq_ok {key : String} {s : Subject} (hs : subject models m key = .ok s)
    {ops : Fields} {cs : List Clause} (h : ofOperators s ops = .ok cs) :
    (!cs.isEmpty) = Condition.demandsOperators (.record ops)
      ∧ cs.all (·.selects row)
        = Condition.operatorsHold (satisfies models m row) key (.record ops) := by
  induction ops generalizing cs with
  | nil =>
    cases h
    exact ⟨rfl, rfl⟩
  | cons op ops ih =>
    obtain ⟨name, operand⟩ := op
    simp only [Condition.demandsOperators, Condition.operatorsHold, List.any_cons,
      List.all_cons] at ih ⊢
    unfold ofOperators at h
    cases ho : Operator.ofName? name with
    | none =>
      simp only [ho] at h
      obtain ⟨hdemands, hholds⟩ := ih h
      refine ⟨hdemands, ?_⟩
      rw [hholds, satisfies, ho]
      rfl
    | some o =>
      simp only [ho] at h
      cases hc : ofOperator s o operand with
      | error e =>
        rw [hc] at h
        cases h
      | ok c =>
        simp only [hc] at h
        obtain ⟨rest, hrest, rfl⟩ := Outcome.map_eq_ok.mp h
        have hclause : (subject models m key >>= fun s => ofOperator s o operand) = .ok c := by
          rw [hs]
          exact hc
        have hsatisfies : satisfies models m row key name operand = c.selects row := by
          rw [satisfies, ho, Option.all_some, hclause]
          rfl
        refine ⟨rfl, ?_⟩
        rw [List.all_cons, hsatisfies, (ih hrest).2]

/-- A connective has a clause if some branch has one, and connects what these select. -/
theorem connect_eq (key : String) (bs : List (Option Clause)) :
    (connect key bs).isEmpty = (bs.filterMap id).isEmpty
      ∧ (connect key bs).all (·.selects row)
        = Condition.connect key ((bs.filterMap id).map (·.selects row)) := by
  rw [connect, Condition.connect]
  cases bs.filterMap id with
  | nil => simp
  | cons c cs => by_cases hand : key = "and" <;> simp [hand]

theorem forall₂_of_ofAll {ws : List Value} {bs : List (Option Clause)}
    (h : ofAll models m ws = .ok bs) :
    List.Forall₂ (fun w b => ofCondition models m w = .ok b) ws bs := by
  induction ws generalizing bs with
  | nil =>
    cases h
    exact .nil
  | cons w ws ih =>
    rw [ofAll] at h
    cases hb : ofCondition models m w with
    | error e =>
      rw [hb] at h
      cases h
    | ok b =>
      simp only [hb] at h
      obtain ⟨rest, hrest, rfl⟩ := Outcome.map_eq_ok.mp h
      exact .cons hb (ih hrest)

/-- The clauses of a connective are those of its branches. -/
theorem ofBranches_eq_ok {w : Value} {bs : List (Option Clause)}
    (h : ofBranches models m w = .ok bs) :
    ∃ cs, List.Forall₂ (fun w c => ofCondition models m w = .ok c) (Condition.branches w) cs
      ∧ bs.filterMap id = cs.filterMap id := by
  unfold ofBranches at h
  split at h
  · exact ⟨bs, forall₂_of_ofAll h, rfl⟩
  · exact ⟨bs, forall₂_of_ofAll h, rfl⟩
  · split at h
    · cases h
      exact ⟨[], .nil, by simp⟩
    · cases h
  · split at h
    · cases h
      exact ⟨[], .nil, rfl⟩
    · cases h
  · cases h

/-- The clauses of an entry: none for null, those of a connective over its branches, or those
of the operators on a name. -/
theorem ofEntries_cons {key : String} {condition : Value} {rest : Fields} {cs : List Clause}
    (h : ofEntries models m ((key, condition) :: rest) = .ok cs) :
    ∃ own others, ((condition = .null ∧ own = [])
        ∨ (condition.isNull = false ∧ Condition.isConnective key = true
          ∧ ∃ bs, ofBranches models m condition = .ok bs ∧ own = connect key bs)
        ∨ (condition.isNull = false ∧ ¬Condition.isConnective key = true
          ∧ ∃ s ops, subject models m key = .ok s ∧ condition = .record ops
            ∧ ofOperators s ops = .ok own))
      ∧ ofEntries models m rest = .ok others ∧ cs = own ++ others := by
  rw [ofEntries] at h
  cases hnull : condition.isNull with
  | true =>
    rw [if_pos hnull] at h
    obtain rfl : condition = .null := by
      cases condition <;> first | rfl | cases hnull
    exact ⟨[], cs, .inl ⟨rfl, rfl⟩, h, rfl⟩
  | false =>
    rw [if_neg (by simp [hnull])] at h
    split at h
    · rename_i hkey
      cases hb : ofBranches models m condition with
      | error e =>
        rw [hb] at h
        cases h
      | ok bs =>
        simp only [hb] at h
        obtain ⟨others, hothers, rfl⟩ := Outcome.map_eq_ok.mp h
        exact ⟨_, others, .inr (.inl ⟨rfl, hkey, bs, rfl, rfl⟩), hothers, rfl⟩
    · rename_i hkey
      cases hs : subject models m key with
      | error e =>
        rw [hs] at h
        cases h
      | ok s =>
        simp only [hs] at h
        split at h
        · rename_i ops
          cases ho : ofOperators s ops with
          | error e =>
            rw [ho] at h
            cases h
          | ok own =>
            simp only [ho] at h
            obtain ⟨others, hothers, rfl⟩ := Outcome.map_eq_ok.mp h
            exact ⟨own, others, .inr (.inr ⟨rfl, hkey, s, ops, rfl, rfl, ho⟩), hothers, rfl⟩
        · cases h

theorem not_isEmpty_append (cs ds : List Clause) :
    (!(cs ++ ds).isEmpty) = (!cs.isEmpty || !ds.isEmpty) := by
  cases cs <;> simp

/-- Of the branches those that say something have clauses, and these select what the branches
describe. -/
theorem filterMap_of_forall₂ {ws : List Value} {cs : List (Option Clause)}
    (h : List.Forall₂ (fun w c => ofCondition models m w = .ok c) ws cs)
    (heach : ∀ w ∈ ws, ∀ c, ofCondition models m w = .ok c → c.isSome = Condition.demands w
      ∧ c.all (·.selects row)
        = Condition.reading Condition.demands (satisfies models m row) w) :
    (!(cs.filterMap id).isEmpty) = ws.any Condition.demands
      ∧ (cs.filterMap id).map (·.selects row) = (ws.filter Condition.demands).map
          (Condition.reading Condition.demands (satisfies models m row)) := by
  induction h with
  | nil => exact ⟨rfl, rfl⟩
  | @cons w c ws cs hw _ ih =>
    obtain ⟨hany, hall⟩ := ih fun w hmem => heach w (List.mem_cons_of_mem _ hmem)
    obtain ⟨hsome, hselects⟩ := heach w List.mem_cons_self c hw
    rw [List.any_cons, ← hsome, List.filter_cons, ← hsome]
    cases c with
    | none => exact ⟨by simpa using hany, by simpa using hall⟩
    | some c => exact ⟨rfl, congrArg₂ List.cons hselects hall⟩

/-- **What the clause of a condition selects.** It is there exactly if the condition says
anything, and selects the rows of which the condition is true if the branches that say
nothing do not count. -/
theorem ofCondition_eq_ok (w : Value) : ∀ c, ofCondition models m w = .ok c →
    c.isSome = Condition.demands w
    ∧ c.all (·.selects row) = Condition.reading Condition.demands (satisfies models m row) w := by
  refine Condition.induction
    (P := fun w => ∀ c, ofCondition models m w = .ok c → c.isSome = Condition.demands w
      ∧ c.all (·.selects row)
        = Condition.reading Condition.demands (satisfies models m row) w)
    (Q := fun fs => ∀ cs, ofEntries models m fs = .ok cs →
      (!cs.isEmpty) = Condition.demandsEntries fs
      ∧ cs.all (·.selects row)
        = Condition.readingEntries Condition.demands (satisfies models m row) fs)
    ?record ?other ?nil ?cons w
  case record =>
    intro fs ih c h
    rw [ofCondition] at h
    obtain ⟨cs, hcs, rfl⟩ := Outcome.map_eq_ok.mp h
    rw [isSome_whole, selects_whole]
    exact ih cs hcs
  case other =>
    intro w hw c h
    rw [ofCondition.eq_2 _ _ _ hw] at h
    rw [Condition.demands.eq_2 _ hw, Condition.reading.eq_2 _ _ _ hw]
    split at h
    · cases h
    · rename_i hfalse
      cases h
      exact ⟨rfl, by simpa using hfalse⟩
  case nil =>
    intro cs h
    cases h
    exact ⟨rfl, rfl⟩
  case cons =>
    intro key condition rest hbranches hrest cs h
    obtain ⟨own, others, hown, hothers, rfl⟩ := ofEntries_cons h
    obtain ⟨hdemands, hselects⟩ := hrest others hothers
    rw [Condition.demandsEntries, Condition.readingEntries, ← hdemands, ← hselects,
      not_isEmpty_append, List.all_append]
    rcases hown with ⟨rfl, rfl⟩ | ⟨hnull, hkey, bs, hbs, rfl⟩ | ⟨hnull, hkey, s, ops, hs, rfl, ho⟩
    · exact ⟨by simp [Condition.demandsBranches, Condition.demandsOperators],
        by simp [Value.isNull]⟩
    · obtain ⟨cs, hcs, hsame⟩ := ofBranches_eq_ok hbs
      obtain ⟨hany, hall⟩ := filterMap_of_forall₂ row hcs hbranches
      obtain ⟨hconnected, htrue⟩ := connect_eq row key bs
      rw [if_pos hkey, if_pos hkey, hnull, Condition.demandsBranches_eq,
        Condition.readingBranches_eq, hconnected, htrue, hsame, hany, hall, Bool.false_or]
      exact ⟨rfl, rfl⟩
    · obtain ⟨hknown, hholds⟩ := ofOperators_eq_ok row hs ho
      rw [if_neg hkey, if_neg hkey, hnull, ← hknown, ← hholds, Bool.false_or]
      exact ⟨rfl, rfl⟩

/-- A condition that a row satisfies where branches that say nothing do not count is one that
it satisfies as written; and the other way round if no `or` mixes such branches with others. -/
theorem reads_of_reading (w : Value) : ∀ c, ofCondition models m w = .ok c →
    (Condition.reading Condition.demands (satisfies models m row) w = true →
      Condition.reads (satisfies models m row) w = true)
    ∧ (Condition.uniform w = true → Condition.reads (satisfies models m row) w = true →
      Condition.reading Condition.demands (satisfies models m row) w = true) := by
  refine Condition.induction
    (P := fun w => ∀ c, ofCondition models m w = .ok c →
      (Condition.reading Condition.demands (satisfies models m row) w = true →
        Condition.reads (satisfies models m row) w = true)
      ∧ (Condition.uniform w = true → Condition.reads (satisfies models m row) w = true →
        Condition.reading Condition.demands (satisfies models m row) w = true))
    (Q := fun fs => ∀ cs, ofEntries models m fs = .ok cs →
      (Condition.readingEntries Condition.demands (satisfies models m row) fs = true →
        Condition.readingEntries (fun _ => true) (satisfies models m row) fs = true)
      ∧ (Condition.uniformEntries fs = true →
        Condition.readingEntries (fun _ => true) (satisfies models m row) fs = true →
        Condition.readingEntries Condition.demands (satisfies models m row) fs = true))
    ?record ?other ?nil ?cons w
  case record =>
    intro fs ih c h
    rw [ofCondition] at h
    obtain ⟨cs, hcs, rfl⟩ := Outcome.map_eq_ok.mp h
    exact ih cs hcs
  case other =>
    intro w hw c h
    rw [Condition.reads, Condition.reading.eq_2 _ _ _ hw, Condition.reading.eq_2 _ _ _ hw]
    exact ⟨id, fun _ => id⟩
  case nil => exact fun _ _ => ⟨id, fun _ => id⟩
  case cons =>
    intro key condition rest hbranches hrest cs h
    obtain ⟨own, others, hown, hothers, -⟩ := ofEntries_cons h
    obtain ⟨hsound, hfull⟩ := hrest others hothers
    simp only [Condition.readingEntries, Condition.uniformEntries, Bool.and_eq_true,
      Bool.or_eq_true]
    rcases hown with ⟨rfl, rfl⟩ | ⟨hnull, hkey, bs, hbs, rfl⟩ | ⟨hnull, hkey, s, ops, hs, rfl, ho⟩
    · exact ⟨fun h => ⟨.inl rfl, hsound h.2⟩, fun hu h => ⟨.inl rfl, hfull hu.2 h.2⟩⟩
    · obtain ⟨cs, hcs, -⟩ := ofBranches_eq_ok hbs
      have heach : ∀ w ∈ Condition.branches condition, ∃ c, ofCondition models m w = .ok c := by
        intro w hw
        obtain ⟨n, hn, rfl⟩ := List.getElem_of_mem hw
        exact ⟨_, List.forall₂_iff_get.mp hcs |>.2 n hn (hcs.length_eq ▸ hn)⟩
      have htrue : ∀ w ∈ Condition.branches condition, Condition.demands w = false →
          Condition.reads (satisfies models m row) w = true := by
        intro w hw hnone
        obtain ⟨c, hc⟩ := heach w hw
        obtain ⟨hsome, hselects⟩ := ofCondition_eq_ok row w c hc
        rw [hnone, Option.isSome_eq_false_iff, Option.isNone_iff_eq_none] at hsome
        exact (hbranches w hw c hc).1 (hselects ▸ hsome ▸ rfl)
      simp only [if_pos hkey, Condition.readingBranches_eq, List.filter_true,
        Condition.uniformBranches_eq, Bool.and_eq_true]
      constructor
      · rintro ⟨hentry, htail⟩
        refine ⟨hentry.imp_right fun h => ?_, hsound htail⟩
        refine Condition.connect_of_filter (fun w hw => ?_) htrue h
        obtain ⟨c, hc⟩ := heach w hw
        exact (hbranches w hw c hc).1
      · rintro ⟨huniform, hutail⟩ ⟨hentry, htail⟩
        refine ⟨hentry.imp_right fun h => ?_, hfull hutail htail⟩
        have hparts := huniform.resolve_left (by simp [hkey])
        have hmix : key = "and" ∨ (Condition.branches condition).all Condition.demands = true
            ∨ (Condition.branches condition).any Condition.demands = false := by
          simp only [Condition.isConnective, Bool.or_eq_true, beq_iff_eq] at hkey
          rcases hkey with rfl | rfl
          · exact .inl rfl
          · exact .inr (by simpa using hparts.1)
        refine Condition.connect_filter (fun w hw => ?_) hmix h
        obtain ⟨c, hc⟩ := heach w hw
        exact (hbranches w hw c hc).2 (List.all_eq_true.mp hparts.2 w hw)
    · simp only [if_neg hkey]
      exact ⟨fun h => ⟨h.1, hsound h.2⟩, fun hu h => ⟨h.1, hfull hu.2 h.2⟩⟩

/-- **The clause of a condition selects the rows that the condition describes, less those
that an `or` describes by nothing but a branch that says nothing.** There is a clause exactly
if the condition says anything, and it selects by the reading in which branches that say
nothing do not count. So what it selects satisfies the Boolean reading; and if every `or` has
only branches that say something, or none, it selects all that does. On values in memory a
condition is evaluated by the Boolean reading itself. -/
theorem selects_by_reading {w : Value} {c : Option Clause}
    (h : ofCondition models m w = .ok c) :
    (c = none ↔ Condition.demands w = false)
    ∧ (∀ row, c.all (·.selects row)
        = Condition.reading Condition.demands (satisfies models m row) w)
    ∧ (∀ row, c.all (·.selects row) = true →
        Condition.reads (satisfies models m row) w = true)
    ∧ (Condition.uniform w = true → ∀ row,
        c.all (·.selects row) = Condition.reads (satisfies models m row) w)
    ∧ ∀ get b, Condition.holds get w = .ok b →
        b = Condition.reads (Condition.attributeSatisfies get) w := by
  have hsome : c.isSome = Condition.demands w := (ofCondition_eq_ok [] w c h).1
  have hselects := fun row => (ofCondition_eq_ok row w c h).2
  refine ⟨?_, hselects, fun row => ?_, fun huniform row => ?_,
    fun get b => Condition.holds_eq_ok w b⟩
  · rw [← hsome, Option.isSome_eq_false_iff, Option.isNone_iff_eq_none]
  · rw [hselects row]
    exact (reads_of_reading row w c h).1
  · obtain ⟨hsound, hfull⟩ := reads_of_reading row w c h
    rw [hselects row, Bool.eq_iff_iff]
    exact ⟨hsound, hfull huniform⟩

/-- A model with a number and a name. -/
private def shelf : Model where
  name := "Item"
  table := "items"
  columns := [⟨"id", "id", .base "Integer", true, false, none⟩,
    ⟨"name", "name", .base "String", false, true, none⟩]
  virtuals := []
  associations := []

/-- A number, or a name that begins so and for the rest nothing. -/
private def numbered : Value :=
  .record [("or", .list [.record [("id", .record [("eq", .int 1)])],
    .record [("name", .record [("like", .text "b%")]), ("and", .list [.record [], .null])]]),
    ("id", .null)]

/-- One row is selected by its name, and one whose name is unknown is not. -/
theorem selects_by_reading_nested : ∃ c, ofCondition [] shelf numbered = .ok c
    ∧ Condition.uniform numbered = true
    ∧ c.all (·.selects [("id", .int 2), ("name", .text "box")]) = true
    ∧ c.all (·.selects [("id", .int 2), ("name", .null)]) = false := by
  obtain ⟨c, h⟩ : ∃ c, ofCondition [] shelf numbered = .ok c := ⟨_, rfl⟩
  have huniform : Condition.uniform numbered = true := by decide +kernel
  obtain ⟨-, -, -, hreads, -⟩ := selects_by_reading h
  refine ⟨c, h, huniform, ?_, ?_⟩
  · rw [hreads huniform]
    decide +kernel
  · rw [hreads huniform]
    decide +kernel

/-- Anything, or the number one. -/
private def vacuous : Value :=
  .record [("or", .list [.record [], .record [("id", .record [("eq", .int 1)])]])]

/-- **An empty branch of an `or` is passed over.** The reading of the condition is true of the
row with the number two, in memory too, and the clause does not select it. -/
theorem not_selects_vacuous : ∃ c, ofCondition [] shelf vacuous = .ok c
    ∧ c.all (·.selects [("id", .int 2)]) = false
    ∧ Condition.reads (satisfies [] shelf [("id", .int 2)]) vacuous = true
    ∧ Condition.holds (Fields.get [("id", .int 2)]) vacuous = .ok true := by
  obtain ⟨c, h⟩ : ∃ c, ofCondition [] shelf vacuous = .ok c := ⟨_, rfl⟩
  refine ⟨c, h, ?_, by decide +kernel, rfl⟩
  rw [(ofCondition_eq_ok _ _ c h).2]
  decide +kernel

end Clause
end SchemaForge
