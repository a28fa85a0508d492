import SchemaForge.Proofs.Number.Comparing
import SchemaForge.Proofs.Store.Agreement
import SchemaForge.Store.Entity

/-!
# Conditions on associations

A condition on an association is a condition on the column that holds it, and the operators are
those of the `id` of the rows that it leads to. Both mean the same if the column refers to this
`id` and no operator holds of null: a row is selected if the row that it leads to is there and its
`id` satisfies the condition.
-/
namespace SchemaForge

theorem Stored.eq_of_compare?_text {s t : String} (h : compare? (.text s) (.text t) = some .eq) :
    s = t := by
  have hcompare : Value.compareText s t = .eq := Option.some.inj h
  rw [← beq_iff_eq, ← ColumnKind.compareText_eq_iff, hcompare]
  rfl

/-- Stored values that are equal compare alike with any other. -/
theorem Stored.compare?_congr {a b : Stored} (h : compare? a b = some .eq) (s : Stored) :
    compare? a s = compare? b s := by
  cases a with
  | null => cases h
  | number m =>
    cases b with
    | null | text t => cases h
    | number n =>
      cases s with
      | null | text t => rfl
      | number l => exact Numeral.compare?_congr h l
  | text t =>
    cases b with
    | null | number n => cases h
    | text t' => rw [eq_of_compare?_text h]

namespace Operator

/-- The operators that null satisfies with no value. -/
def demanding : List Operator := [eq, isIn, lt, lte, gt, gte]

end Operator

namespace ColumnKind

variable {k : ColumnKind} {o : Operator} {v x : Value}

theorem Holds.exists_text (h : ColumnKind.string.Holds v) : ∃ s, v = .text s := by
  cases h
  exact ⟨_, rfl⟩

/-- An operator with an operand of a kind that null does not satisfy. -/
structure Demands (k : ColumnKind) (o : Operator) (x : Value) : Prop where
  /-- The operator is one of these. -/
  demanding : o ∈ Operator.demanding
  /-- The kind offers it. -/
  offers : k.Offers o
  /-- The operator takes the operand. -/
  takes : k.Takes o x
  /-- The operand is null only for an empty list. -/
  value : o = .isIn ∨ x ≠ .null

theorem Demands.not_differs (h : k.Demands o x) : ¬Operator.Differs o v x := by
  have hnot : o ∉ [Operator.ne, .notIn, .like, .notLike] := by
    have hdemanding := h.demanding
    cases o <;> first | exact absurd hdemanding (by decide) | decide
  exact Operator.not_differs hnot

theorem Demands.not_open (h : k.Demands o x) : ¬Operator.Open o v x := by
  intro hopen
  cases hopen with
  | null hneeds =>
    rcases h.value with rfl | hx
    · cases hneeds
    · exact hx rfl
  | empty hlike =>
    have hdemanding := h.demanding
    rcases hlike with rfl | rfl <;> exact absurd hdemanding (by decide)

theorem Demands.inMemory_null (h : k.Demands o x) : o.inMemory .null x = .ok false := by
  have hdemanding := h.demanding
  cases o with
  | eq =>
    cases h.takes with
    | list ho | nothing ho => rcases ho with ho | ho <;> cases ho
    | value _ hx =>
      have hx := hx.resolve_left (h.value.resolve_left (by decide))
      exact congrArg Except.ok hx.null_same
  | isIn | lt | lte | gt | gte => rfl
  | _ => exact absurd hdemanding (by decide)

end ColumnKind

/-- A column of a model holds an association by the `id` of the rows that it leads to. -/
structure Models.HoldsById (models : Models) (m : Model) (a : Association) (c : Column) : Prop where
  /-- The association is found by its name. -/
  found : m.association? a.key = some a
  /-- The column refers to the column of the `id`. -/
  refers : ∃ t name i, models.target? a = some t ∧ models.ownReference? m a = some (c, name)
    ∧ Store.columnNamed? t name = some i ∧ i.key = "id"

/-- The rows that it leads to have the `id` that the column holds. -/
theorem Models.HoldsById.compare?_id {models : Models} {store : Store} {m : Model}
    {a : Association} {c : Column} {row : Row} (h : models.HoldsById m a c) {r : Nat × Row}
    (hr : r ∈ store.related models m row a) :
    Stored.compare? (Stored.ofValue (Fields.get r.2 "id"))
      (Stored.ofValue (Fields.get row c.key)) = some .eq := by
  obtain ⟨t, name, i, htarget, href, hnamed, hi⟩ := h.refers
  unfold Store.related at hr
  rw [htarget, href] at hr
  dsimp only at hr
  rw [hnamed] at hr
  rw [← hi]
  exact beq_iff_eq.mp (List.mem_filter.mp hr).2

namespace Condition

/-- Several operators with their operands. -/
def operators (ops : List (Operator × Value)) : Fields := ops.map fun p => (p.1.name, p.2)

end Condition

namespace Clause

open ColumnKind

variable {k k' : ColumnKind} {r : ColumnRef} {row : Row} {v x : Value}

/-- A column that is null has this value. -/
theorem hasValue_null (h : Fields.get row r.column.key = .null) : HasValue k r row .null := by
  have hcell : cell r row = .null := by rw [cell, h]; rfl
  exact ⟨.inl rfl, by rw [hcell]; rfl, fun _ => by rw [hcell]; rfl, fun _ => hcell⟩

/-- An operand of one kind stays as it is in a column of another if a value of its kind is
stored there. -/
theorem operandOf_referring (hdescribes : k'.Describes r.column.type)
    (htext : k = .string → k' = .string) (hvalue : k'.Holds (Fields.get row r.column.key))
    (hv : k.Holds v) (hsame : Stored.compare? (Stored.ofValue v) (cell r row) = some .eq)
    (hx : k.Holds x) : operandOf r x = Stored.ofValue x := by
  by_cases hk : k' = .string
  · subst hk
    rw [operandOf, hdescribes.affinity, if_pos rfl]
    obtain ⟨s, hs⟩ := hvalue.exists_text
    rw [cell, hs] at hsame
    cases hx with
    | string | date | dateTime => rfl
    | _ =>
      cases hv
      cases hsame
  · refine adapted_ofValue ?_ hx
    rw [hdescribes.affinity, if_neg hk, if_neg fun heq => hk (htext heq)]

/-- **A column has the value that it refers to.** -/
theorem hasValue_referring (hdescribes : k'.Describes r.column.type)
    (htext : k = .string → k' = .string) (hvalue : k'.Holds (Fields.get row r.column.key))
    (hv : k.Holds v) (hsame : Stored.compare? (Stored.ofValue v) (cell r row) = some .eq) :
    HasValue k r row v where
  holds := .inr hv
  isNull := by
    rw [hv.isNull, cell, HoldsOrNull.isNull_ofValue (.inr hvalue), hvalue.isNull]
  compares hx := by
    rw [operandOf_referring hdescribes htext hvalue hv hsame hx, Stored.compare?_congr hsame]
  text hk := by
    obtain rfl := htext hk
    subst hk
    obtain ⟨s, hs⟩ := hvalue.exists_text
    obtain ⟨t, rfl⟩ := hv.exists_text
    rw [cell, hs] at hsame ⊢
    rw [Stored.eq_of_compare?_text hsame]

/-- **Several operators agree** if each of them does. -/
theorem ofOperators_operators {ops : List (Operator × Value)}
    (h : ∀ p ∈ ops, coerce r.column.type p.2 = p.2 ∧ Agrees p.1 r row v p.2
      ∧ ¬Operator.Differs p.1 v p.2) :
    ∃ b clauses, Condition.allOperators v (Condition.operators ops) = .ok b
      ∧ ofOperators (.column r) (Condition.operators ops) = .ok clauses
      ∧ clauses.length = ops.length ∧ clauses.all (·.selects row) = b := by
  induction ops with
  | nil => exact ⟨true, [], rfl, rfl, rfl, rfl⟩
  | cons p ops ih =>
    rw [List.forall_mem_cons] at h
    obtain ⟨⟨hcoerce, ⟨b, clause, hmemory, hstore, hagree⟩, hdiffers⟩, hrest⟩ := h
    obtain ⟨b', clauses, hmemory', hstore', hlength, hall⟩ := ih hrest
    refine ⟨b && b', clause :: clauses, ?_, ?_, ?_, ?_⟩
    · rw [Condition.operators, List.map_cons, Condition.allOperators_cons, hmemory]
      cases b with
      | true => exact hmemory'
      | false => rfl
    · rw [Condition.operators, List.map_cons, ofOperators, Operator.ofName?_name]
      dsimp only
      rw [ofOperator, hcoerce, hstore]
      exact congrArg (Except.map (clause :: ·)) hstore'
    · rw [List.length_cons, List.length_cons, hlength]
    · rw [List.all_cons, hall, hagree.mpr hdiffers]

variable {models : Models} {store : Store} {m : Model} {a : Association} {c : Column}
  {ops : List (Operator × Value)}

/-- Null does not satisfy operators that demand a value. -/
theorem allOperators_null (hops : ops ≠ []) (hdemands : ∀ p ∈ ops, k.Demands p.1 p.2) :
    Condition.allOperators .null (Condition.operators ops) = .ok false := by
  cases ops with
  | nil => exact absurd rfl hops
  | cons p ops =>
    have hp := (hdemands p (List.mem_cons_self ..)).inMemory_null
    rw [Condition.operators, List.map_cons, Condition.allOperators_cons, hp]

/-- A condition by some operators on an association selects what all of them select. -/
theorem ofCondition_association (ha : models.HoldsById m a c)
    (hkey : Condition.isConnective a.key = false) (hops : ops ≠ [])
    (h : ∀ p ∈ ops, coerce c.type p.2 = p.2 ∧ Agrees p.1 ⟨m.table, c⟩ row v p.2
      ∧ ¬Operator.Differs p.1 v p.2) :
    ∃ b clause, Condition.allOperators v (Condition.operators ops) = .ok b
      ∧ ofCondition models m (.record [(a.key, .record (Condition.operators ops))])
        = .ok (some clause) ∧ clause.selects row = b := by
  obtain ⟨t, name, i, -, href, -⟩ := ha.refers
  have hsubject : subject models m a.key = .ok (.column ⟨m.table, c⟩) := by
    simp only [subject, ha.found, href]
  obtain ⟨b, clauses, hmemory, hstore, hlength, hall⟩ :=
    ofOperators_operators (r := ⟨m.table, c⟩) h
  obtain ⟨clause, hwhole⟩ : ∃ clause, whole clauses = some clause := by
    rw [← Option.isSome_iff_exists, isSome_whole]
    cases clauses with
    | nil => exact absurd (List.length_eq_zero_iff.mp hlength.symm) hops
    | cons => rfl
  refine ⟨b, clause, hmemory, ?_, ?_⟩
  · rw [ofCondition_attribute hkey hsubject, hstore]
    exact congrArg Except.ok hwhole
  · rw [← hall, ← selects_whole, hwhole]
    rfl

/-- **A condition on an association selects a row exactly if the row that it leads to is there
and its `id` satisfies the condition**, where the column refers to this `id` and only texts refer
to texts. -/
theorem selects_iff_related (ha : models.HoldsById m a c)
    (hkey : Condition.isConnective a.key = false) (hdescribes : k'.Describes c.type)
    (htext : k = .string → k' = .string) (hvalue : k'.HoldsOrNull (Fields.get row c.key))
    (hid : ∀ r ∈ store.related models m row a, k.HoldsOrNull (Fields.get r.2 "id"))
    (hintegrity : Fields.get row c.key ≠ .null → store.related models m row a ≠ [])
    (hops : ops ≠ []) (hdemands : ∀ p ∈ ops, k.Demands p.1 p.2) :
    ∃ clause, ofCondition models m (.record [(a.key, .record (Condition.operators ops))])
        = .ok (some clause)
      ∧ (clause.selects row = true ↔ ∃ r, (store.related models m row a).head? = some r
          ∧ Condition.satisfied (.record r.2) (.record [("id", .record (Condition.operators ops))])
            = .ok true) := by
  have hcondition : ∀ v, HasValue k ⟨m.table, c⟩ row v → ∃ b clause,
      Condition.allOperators v (Condition.operators ops) = .ok b
        ∧ ofCondition models m (.record [(a.key, .record (Condition.operators ops))])
          = .ok (some clause) ∧ clause.selects row = b := by
    refine fun v hv => ofCondition_association ha hkey hops fun p hp => ?_
    have hp := hdemands p hp
    exact ⟨hp.takes.coerce fun hk => hk ▸ htext hk ▸ hdescribes,
      hv.agrees hp.offers hp.takes hp.not_open, hp.not_differs⟩
  rcases hvalue with hvalue | hvalue
  · obtain ⟨b, clause, hmemory, hclause, hselects⟩ := hcondition .null (hasValue_null hvalue)
    rw [allOperators_null hops hdemands] at hmemory
    cases hmemory
    refine ⟨clause, hclause, iff_of_false (by rw [hselects]; decide) ?_⟩
    rintro ⟨r, hr, -⟩
    have hsame := ha.compare?_id (List.mem_of_mem_head? hr)
    rw [hvalue] at hsame
    cases hid : Stored.ofValue (Fields.get r.2 "id") <;> rw [hid] at hsame <;> cases hsame
  · cases hrows : store.related models m row a with
    | nil => exact absurd hrows (hintegrity hvalue.ne_null)
    | cons r rows =>
      have hr : r ∈ store.related models m row a := hrows ▸ List.mem_cons_self ..
      have hsame := ha.compare?_id hr
      have hv : k.Holds (Fields.get r.2 "id") := by
        refine (hid r hr).resolve_left fun heq => ?_
        rw [heq] at hsame
        cases hsame
      obtain ⟨b, clause, hmemory, hclause, hselects⟩ :=
        hcondition _ (hasValue_referring hdescribes htext hvalue hv hsame)
      refine ⟨clause, hclause, ?_⟩
      rw [hselects]
      constructor
      · rintro rfl
        refine ⟨r, rfl, ?_⟩
        exact (Condition.holds_attribute rfl _).trans hmemory
      · rintro ⟨r', hhead, hsatisfied⟩
        cases hhead
        rw [Condition.satisfied, Condition.holds_attribute rfl] at hsatisfied
        exact Except.ok.inj (hmemory.symm.trans hsatisfied)

/-- A column of integers. -/
private def number (key : String) (foreign : Option (String × String)) : Column :=
  ⟨key, key, .base "Integer", false, true, foreign⟩

/-- Items of an order, which is known by its number, of a customer, who is known by a code, and of
a day, which is known by its name. -/
private def item : Model where
  name := "Item"
  table := "items"
  columns := [number "order_id" (some ("orders", "id")),
    number "customer_code" (some ("customers", "code")),
    ⟨"day_name", "day_name", .base "Date", false, true, some ("days", "id")⟩]
  virtuals := []
  associations := [⟨"order", "Order", none⟩, ⟨"customer", "Customer", none⟩, ⟨"day", "Day", none⟩]

private def shop : Models :=
  [("Item", item), ("Order", ⟨"Order", "orders", [number "id" none], [], []⟩),
    ("Customer", ⟨"Customer", "customers", [number "id" none, number "code" none], [], []⟩),
    ("Day", ⟨"Day", "days", [⟨"id", "id", .base "String", false, false, none⟩], [], []⟩)]

private def stock : Store :=
  [("Order", [[("id", .int 1)], [("id", .int 2)]]),
    ("Customer", [[("id", .int 1), ("code", .int 7)]]), ("Day", [[("id", .text "2024-05-02")]])]

/-- A condition on an association of items by one operator. -/
private def onItem (key : String) (o : Operator) (operand : Value) : Value :=
  .record [(key, .record (Condition.operators [(o, operand)]))]

/-- An item of the second order is selected by its number. -/
theorem selects_iff_related_order : ∃ clause,
    ofCondition shop item (.record [("order", .record (Condition.operators
      [(.gt, .int 1), (.isIn, .list [.null, .int 2])]))]) = .ok (some clause)
      ∧ clause.selects [("order_id", .int 2)] = true := by
  have hrelated : stock.related shop item [("order_id", .int 2)] ⟨"order", "Order", none⟩
      = [(1, [("id", .int 2)])] := rfl
  have hdemands : ∀ p ∈ [(Operator.gt, Value.int 1), (.isIn, .list [.null, .int 2])],
      ColumnKind.int.Demands p.1 p.2 := by
    refine List.forall_mem_cons.mpr ⟨?_, List.forall_mem_singleton.mpr ?_⟩
    · exact ⟨by decide, by decide, .value (by decide) (.inr (.int 1)), .inr nofun⟩
    · refine ⟨by decide, by decide, .list (.inl rfl) ?_, .inl rfl⟩
      exact List.forall_mem_cons.mpr ⟨.inl rfl, List.forall_mem_singleton.mpr (.inr (.int 2))⟩
  obtain ⟨clause, hclause, hiff⟩ :=
    @selects_iff_related .int .int [("order_id", .int 2)] shop stock item ⟨"order", "Order", none⟩
      (number "order_id" (some ("orders", "id"))) [(.gt, .int 1), (.isIn, .list [.null, .int 2])]
      ⟨rfl, _, _, _, rfl, rfl, rfl, rfl⟩ rfl (by decide) nofun (.inr (.int 2))
      (hrelated ▸ List.forall_mem_singleton.mpr (.inr (.int 2))) (hrelated ▸ nofun) nofun hdemands
  refine ⟨clause, hclause, hiff.mpr ⟨_, congrArg List.head? hrelated, ?_⟩⟩
  decide +kernel

/-- The second of May. -/
private def secondOfMay : Date := ⟨2024, 5, 2, by decide⟩

/-- **Conditions on associations apart from their rows**: null selects the rows that lead nowhere.
A column that refers to something else than the `id` is compared with what it refers to, and a day
with the days that texts denote. No operators at all select every row. -/
theorem selects_apart_from_related :
    (∃ clause, ofCondition shop item (onItem "order" .eq .null) = .ok (some clause)
        ∧ clause.selects [("order_id", .null)] = true
        ∧ stock.related shop item [("order_id", .null)] ⟨"order", "Order", none⟩ = [])
      ∧ (∃ clause r, ofCondition shop item (onItem "customer" .eq (.int 1)) = .ok (some clause)
        ∧ clause.selects [("customer_code", .int 7)] = false
        ∧ stock.related shop item [("customer_code", .int 7)] ⟨"customer", "Customer", none⟩ = [r]
        ∧ Condition.satisfied (.record r.2) (onItem "id" .eq (.int 1)) = .ok true)
      ∧ (∃ clause r, ofCondition shop item (onItem "day" .eq (.text "20240502"))
          = .ok (some clause)
        ∧ clause.selects [("day_name", .date secondOfMay)] = true
        ∧ stock.related shop item [("day_name", .date secondOfMay)] ⟨"day", "Day", none⟩ = [r]
        ∧ Condition.satisfied (.record r.2) (onItem "id" .eq (.text "20240502")) = .ok false)
      ∧ ofCondition shop item (.record [("order", .record [])]) = .ok none :=
  ⟨⟨_, rfl, rfl, rfl⟩, ⟨_, (0, [("id", .int 1), ("code", .int 7)]), rfl, rfl, rfl, rfl⟩,
    ⟨_, (0, [("id", .text "2024-05-02")]), rfl, by decide +kernel, by with_unfolding_all rfl, rfl⟩,
    rfl⟩

end Clause
end SchemaForge
