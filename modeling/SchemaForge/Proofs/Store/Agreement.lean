import SchemaForge.Proofs.Store.Kinds
import SchemaForge.Proofs.Store.Selection
import SchemaForge.Proofs.Text.Matching

/-!
# One operator in memory and in the store

A condition by one operator on a column is evaluated in memory on the value of the column, and in
the store by a clause. Both agree on values and operands of the kind of the column, except where
the store does not know: whether null differs from a value or is none of some, and whether a value
is none of some others and null. In memory this counts as true. Besides, patterns ignore the case
of all letters in memory, and that of ASCII letters in the store.
-/
namespace SchemaForge

/-! ### Conditions by one operator -/

/-- A column that is found by its name. -/
structure Model.HasColumn (m : Model) (c : Column) : Prop where
  /-- It is the column with its name. -/
  column : m.column? c.key = some c
  /-- No association has this name. -/
  plain : m.association? c.key = none

namespace Operator

theorem name_inj {o o' : Operator} (h : o.name = o'.name) : o = o' := by
  have heq := congrArg ofName? h
  rw [ofName?_name, ofName?_name] at heq
  exact Option.some.inj heq

/-- An operator is found by its name where it is offered. -/
theorem find?_name (o : Operator) (os : List Operator) :
    os.find? (·.name == o.name) = if o ∈ os then some o else none := by
  induction os with
  | nil => rfl
  | cons o' os ih =>
    by_cases h : o' = o
    · subst h
      simp
    · have hname : (o'.name == o.name) = false :=
        beq_eq_false_iff_ne.mpr fun heq => h (name_inj heq)
      rw [List.find?_cons_of_neg (by simp [hname]), ih]
      simp [Ne.symm h]

/-- The answer of an operator in memory: it does not hold where it is not offered. -/
def inMemory (o : Operator) (v operand : Value) : Except Failure Bool :=
  if o ∈ offered v then o.test v operand else .ok false

theorem inMemory_of_offered {o : Operator} {v : Value} (h : o ∈ offered v) (operand : Value) :
    o.inMemory v operand = o.test v operand := if_pos h

theorem inMemory_of_not_offered {o : Operator} {v : Value} (h : o ∉ offered v) (operand : Value) :
    o.inMemory v operand = .ok false := if_neg h

/-- The first operators are offered for every value. -/
theorem inMemory_common {o : Operator} (h : o ∈ [eq, ne, isIn, notIn, null]) (v operand : Value) :
    o.inMemory v operand = o.test v operand :=
  inMemory_of_offered (List.mem_append_left _ (List.mem_append_left _ h)) operand

end Operator

namespace Condition

/-- An operator is evaluated first, and the rest only if it holds. -/
theorem allOperators_cons (v : Value) (o : Operator) (operand : Value) (rest : Fields) :
    allOperators v ((o.name, operand) :: rest)
      = match o.inMemory v operand with
        | .ok true => allOperators v rest
        | other => other := by
  rw [allOperators, Operator.find?_name]
  by_cases ho : o ∈ Operator.offered v
  · rw [if_pos ho]
    exact (Operator.inMemory_of_offered ho operand).symm ▸ rfl
  · rw [if_neg ho]
    exact (Operator.inMemory_of_not_offered ho operand).symm ▸ rfl

/-- In memory a condition on one name is one on its value. -/
theorem holds_attribute {get : String → Value} {key : String} (hkey : isConnective key = false)
    (ops : Fields) :
    holds get (.record [(key, .record ops)]) = allOperators (get key) ops := by
  have hnull : (Value.record ops).isNull = false := rfl
  rw [holds_record, allEntries, hnull, if_neg Bool.false_ne_true, hkey, if_neg Bool.false_ne_true]
  split
  · rename_i hall
    rw [hall]
    rfl
  · rfl

/-- A condition on one name by one operator. -/
def single (key : String) (o : Operator) (operand : Value) : Value :=
  .record [(key, .record [(o.name, operand)])]

/-- In memory a condition by one operator is the answer of the operator for the value. -/
theorem holds_single {get : String → Value} {key : String} (hkey : isConnective key = false)
    (o : Operator) (operand : Value) :
    holds get (single key o operand) = o.inMemory (get key) operand := by
  rw [single, holds_attribute hkey, allOperators_cons]
  split
  · rename_i hall
    rw [hall]
    rfl
  · rfl

end Condition

namespace Clause

variable {models : Models} {m : Model} {c : Column}

theorem subject_column (h : m.HasColumn c) :
    subject models m c.key = .ok (.column ⟨m.table, c⟩) := by
  simp only [subject, h.plain, Model.member?, h.column]

/-- In the store a condition on one name is one on what the name stands for. -/
theorem ofCondition_attribute {key : String} {s : Subject}
    (hkey : Condition.isConnective key = false) (hsubject : subject models m key = .ok s)
    (ops : Fields) :
    ofCondition models m (.record [(key, .record ops)]) = (ofOperators s ops).map whole := by
  simp only [ofCondition, ofEntries, hsubject, hkey, Value.isNull]
  cases ofOperators s ops with
  | error e => rfl
  | ok cs => exact congrArg (Except.ok ∘ whole) (List.append_nil cs)

/-- In the store a condition by one operator on a name is the clause of the operator. -/
theorem ofCondition_single {key : String} {r : ColumnRef}
    (hkey : Condition.isConnective key = false)
    (hsubject : subject models m key = .ok (.column r)) (o : Operator) (operand : Value) :
    ofCondition models m (Condition.single key o operand)
      = (onColumn o r (coerce r.column.type operand)).map some := by
  rw [Condition.single, ofCondition_attribute hkey hsubject, ofOperators, Operator.ofName?_name]
  dsimp only
  rw [ofOperator]
  cases onColumn o r (coerce r.column.type operand) <;> rfl

end Clause

/-! ### Operands -/

namespace ColumnKind

/-- The operators that the operator input of a kind offers. -/
def Offers (k : ColumnKind) (o : Operator) : Prop :=
  o.name ∈ (Registry.operatorTypes k.name).map Prod.fst

instance (k : ColumnKind) (o : Operator) : Decidable (k.Offers o) :=
  inferInstanceAs (Decidable (_ ∈ _))

/-- The operands that an operator takes on values of a kind: a truth value, a list or a single
value, each of which may be null. -/
inductive Takes (k : ColumnKind) : Operator → Value → Prop
  /-- Whether there is a value. -/
  | null {x : Value} (h : x = .null ∨ ∃ b, x = .bool b) : Takes k .null x
  /-- One of some, or none of them. -/
  | list {o : Operator} {xs : List Value} (ho : o = .isIn ∨ o = .notIn)
      (h : ∀ x ∈ xs, x = .null ∨ k.Holds x) : Takes k o (.list xs)
  /-- One of nothing, or none of it. -/
  | nothing {o : Operator} (ho : o = .isIn ∨ o = .notIn) : Takes k o .null
  /-- A comparison with a value. -/
  | value {o : Operator} {x : Value} (ho : o ∉ [Operator.isIn, .notIn, .null])
      (h : x = .null ∨ k.Holds x) : Takes k o x

end ColumnKind

namespace Operator

/-- The operators that compare with a value and cannot compare with null. -/
def needsValue (o : Operator) : Bool := [like, notLike, lt, lte, gt, gte].contains o

/-- The test of an ordering operator in memory, and its comparison in the store. -/
def ordering? : Operator → Option ((Ordering → Bool) × Comparison)
  | lt => some (Ordering.isLT, .lt)
  | lte => some (Ordering.isLE, .le)
  | gt => some (Ordering.isGT, .gt)
  | gte => some (Ordering.isGE, .ge)
  | _ => none

/-- Where an operator on a value is true in memory and unknown in the store, or where the two
differ in the letters that a pattern takes for the same. -/
inductive Differs : Operator → Value → Value → Prop
  /-- Null differs from a value. -/
  | ne {x : Value} (h : x ≠ .null) : Differs .ne .null x
  /-- Null is none of some values. -/
  | notIn {xs : List Value} (h : xs ≠ []) : Differs .notIn .null (.list xs)
  /-- A value is none of some, among them null. -/
  | notInNull {v : Value} {xs : List Value} (hv : v ≠ .null) (hnull : .null ∈ xs)
      (h : ∀ x ∈ xs, Value.same v x = false) : Differs .notIn v (.list xs)
  /-- A pattern matches by letters outside ASCII. -/
  | letters {o : Operator} {s p : String} (ho : o = .like ∨ o = .notLike)
      (hmemory : Like.folded p s = true) (hstore : Like.ascii p s = false) :
      Differs o (.text s) (.text p)

/-- Where nothing is said of an operator: null where it needs a value, which only the store
refuses, and the empty text, which in memory is like no pattern. -/
inductive Open : Operator → Value → Value → Prop
  /-- A comparison with null. -/
  | null {o : Operator} {v : Value} (h : o.needsValue = true) : Open o v .null
  /-- An empty text and a pattern that it matches. -/
  | empty {o : Operator} {p : String} (ho : o = .like ∨ o = .notLike)
      (h : Like.ascii p "" = true) : Open o (.text "") (.text p)

/-- The other operators do not differ. -/
theorem not_differs {o : Operator} {v x : Value} (h : o ∉ [ne, .notIn, like, notLike]) :
    ¬Differs o v x := by
  intro hd
  cases hd with
  | letters ho hmemory hstore => rcases ho with rfl | rfl <;> exact h (by decide)
  | _ => exact h (by decide)

/-- Patterns differ exactly if they match by different letters. -/
theorem not_differs_pattern {o : Operator} (ho : o = .like ∨ o = .notLike) (s p : String) :
    ¬Differs o (.text s) (.text p) ↔ Like.ascii p s = Like.folded p s := by
  constructor
  · intro hnot
    cases hascii : Like.ascii p s with
    | true => rw [Like.folded_of_ascii hascii]
    | false => exact (Bool.eq_false_iff.mpr fun hmemory => hnot (.letters ho hmemory hascii)).symm
  · rintro heq hd
    cases hd with
    | letters _ hmemory hascii =>
      rw [heq, hmemory] at hascii
      cases hascii

end Operator

/-! ### Agreement, operator by operator -/

namespace ColumnKind

variable {k : ColumnKind} {r : ColumnRef} {row : Row} {v x : Value}

/-- A value or an operand of a kind: null, or a value of the kind. -/
abbrev HoldsOrNull (k : ColumnKind) (v : Value) : Prop := v = .null ∨ k.Holds v

theorem Holds.ne_null (h : k.Holds v) : v ≠ .null := by
  rintro rfl
  cases h

theorem Holds.isNull (h : k.Holds v) : v.isNull = false := by
  cases h <;> rfl

/-- The stored form of a value is null if the value is. -/
theorem HoldsOrNull.isNull_ofValue (h : k.HoldsOrNull v) : (Stored.ofValue v).isNull = v.isNull := by
  rcases h with rfl | h
  · rfl
  · cases h <;> rfl

/-- A value is equal to null if it is null. -/
theorem HoldsOrNull.same_null (h : k.HoldsOrNull v) : Value.same v .null = v.isNull := by
  rcases h with rfl | h
  · simp [Value.same, Value.sameLeaf, Value.numeral?, Value.isNull]
  · cases h <;> simp [Value.same, Value.sameLeaf, Value.numeral?, Value.isNull]

theorem Holds.null_same (h : k.Holds x) : Value.same .null x = false := by
  cases h <;> simp [Value.same, Value.sameLeaf, Value.numeral?]

theorem compare?_null (s : Stored) : Stored.compare? s .null = none := by
  cases s <;> rfl

/-- What an operator takes is an operand as it is, a text in a column of texts. -/
theorem Takes.coerce {t : ColumnType} {o : Operator} (ht : k = .string → k.Describes t)
    (h : k.Takes o x) : Clause.coerce t x = x := by
  have hone : ∀ {x}, k.HoldsOrNull x → Clause.coerce t x = x := by
    rintro x (rfl | hx)
    · rfl
    · exact hx.coerce ht
  cases h with
  | null h =>
    obtain rfl | ⟨b, rfl⟩ := h
    · rfl
    · rfl
  | @list o xs ho h =>
    have hall : Clause.coerceAll t xs = xs := by
      clear ho
      induction xs with
      | nil => rfl
      | cons x xs ih =>
        rw [List.forall_mem_cons] at h
        rw [Clause.coerceAll, hone h.1, ih h.2]
    rw [Clause.coerce, hall]
  | nothing ho => rfl
  | value ho h => exact hone h

end ColumnKind

namespace Clause

open ColumnKind

variable {k : ColumnKind} {r : ColumnRef} {row : Row} {v x : Value}

/-- A row has a value of a kind in a column: with the values of the kind it compares there as the
value does, and a text stands there as it is. -/
structure HasValue (k : ColumnKind) (r : ColumnRef) (row : Row) (v : Value) : Prop where
  /-- The value is null or of the kind. -/
  holds : k.HoldsOrNull v
  /-- The column is null if the value is. -/
  isNull : (cell r row).isNull = v.isNull
  /-- The column compares as the value does. -/
  compares : ∀ {x}, k.Holds x → Stored.compare? (cell r row) (operandOf r x)
    = Stored.compare? (Stored.ofValue v) (Stored.ofValue x)
  /-- A text stands in the column as it is. -/
  text : k = .string → cell r row = Stored.ofValue v

/-- A column of a kind has the value that stands in it. -/
theorem hasValue (hdescribes : k.Describes r.column.type)
    (hvalue : k.HoldsOrNull (Fields.get row r.column.key)) :
    HasValue k r row (Fields.get row r.column.key) where
  holds := hvalue
  isNull := hvalue.isNull_ofValue
  compares hx := by rw [operandOf, adapted_ofValue hdescribes.affinity hx, cell]
  text _ := rfl

theorem operandOf_null (r : ColumnRef) : operandOf r .null = .null := by
  unfold operandOf
  cases r.column.type.affinity <;> rfl

theorem isNull_operandOf (hx : k.HoldsOrNull x) : (operandOf r x).isNull = x.isNull := by
  rw [← hx.isNull_ofValue]
  unfold operandOf
  cases Stored.ofValue x with
  | null => cases r.column.type.affinity <;> rfl
  | number n => cases r.column.type.affinity <;> rfl
  | text s =>
    cases r.column.type.affinity with
    | number =>
      rw [Stored.adapted]
      cases Stored.textNumber? s <;> rfl
    | _ => rfl

/-- Whether an operator on a value and its clause agree on a row. -/
def Agrees (o : Operator) (r : ColumnRef) (row : Row) (v x : Value) : Prop :=
  ∃ b clause, o.inMemory v x = .ok b ∧ onColumn o r x = .ok clause
    ∧ (clause.selects row = b ↔ ¬Operator.Differs o v x)

theorem selects_compare (op : Comparison) (row : Row) :
    (compare op r x).selects row = (holds row op r x == some true) := rfl

/-- Null is compared by its own clauses. -/
theorem HasValue.selects_is (h : HasValue k r row v) :
    (compare .is r .null).selects row = v.isNull
      ∧ (compare .isNot r .null).selects row = !v.isNull := by
  constructor <;> rw [selects_compare] <;> simp only [Clause.holds, h.isNull] <;>
    cases v.isNull <;> rfl

theorem HasValue.agrees_null (h : HasValue k r row v) : Agrees .null r row v x := by
  obtain ⟨his, hisNot⟩ := h.selects_is
  have hdiffers := Operator.not_differs (v := v) (x := x) (o := .null) (by decide)
  refine ⟨_, _, Operator.inMemory_common (by decide) _ _, rfl, iff_of_true ?_ hdiffers⟩
  cases x.truthy with
  | true => exact his
  | false => exact hisNot

/-- Null is compared in no order. -/
theorem HasValue.compare?_eq_none (h : HasValue k r row .null) (s : Stored) :
    Stored.compare? (cell r row) s = none := by
  have hnull : (cell r row).isNull = true := h.isNull
  cases hcell : cell r row with
  | null => rfl
  | number n => simp [hcell, Stored.isNull] at hnull
  | text t => simp [hcell, Stored.isNull] at hnull

/-- A value that is compared in the store compares as it does in memory. -/
theorem HasValue.compare? (h : HasValue k r row v) (hv : k.Holds v) (hx : k.Holds x) : ∃ o,
    Stored.compare? (cell r row) (operandOf r x) = some o ∧ Value.same v x = (o == .eq)
      ∧ Value.order? v x = some (some o) := by
  rw [h.compares hx]
  exact hv.compare hx

/-- A value is equal to an operand in the store if it is in memory. -/
theorem HasValue.same_eq (h : HasValue k r row v) (hv : k.Holds v) (hx : k.HoldsOrNull x) :
    (Stored.compare? (cell r row) (operandOf r x) == some .eq) = Value.same v x := by
  rcases hx with rfl | hx
  · rw [operandOf_null, compare?_null, HoldsOrNull.same_null (.inr hv), hv.isNull]
    rfl
  · obtain ⟨o, hcompare, hsame, -⟩ := h.compare? hv hx
    rw [hcompare, hsame, Option.some_beq_some]

theorem HasValue.agrees_eq (h : HasValue k r row v) (hx : k.HoldsOrNull x) :
    Agrees .eq r row v x := by
  have hdiffers := Operator.not_differs (v := v) (x := x) (o := .eq) (by decide)
  rcases hx with rfl | hx
  · refine ⟨_, _, Operator.inMemory_common (by decide) _ _, rfl, iff_of_true ?_ hdiffers⟩
    rw [h.holds.same_null]
    exact h.selects_is.1
  · refine ⟨_, compare .eq r x, Operator.inMemory_common (by decide) _ _, ?_,
      iff_of_true ?_ hdiffers⟩
    · rw [onColumn, hx.isNull, if_neg Bool.false_ne_true]
    · rw [selects_compare]
      rcases h.holds with rfl | hv
      · simp only [Clause.holds, h.compare?_eq_none, hx.null_same]
        rfl
      · obtain ⟨o, hcompare, hsame, -⟩ := h.compare? hv hx
        simp only [Clause.holds, hcompare, hsame, Option.map_some, Option.some_beq_some, beq_true]

/-- That null differs from a value is unknown to the store. -/
theorem HasValue.agrees_ne (h : HasValue k r row v) (hx : k.HoldsOrNull x) :
    Agrees .ne r row v x := by
  rcases hx with rfl | hx
  · have hdiffers : ¬Operator.Differs .ne v .null := by
      intro hd
      cases hd with
      | ne hne => exact hne rfl
    refine ⟨_, _, Operator.inMemory_common (by decide) _ _, rfl, iff_of_true ?_ hdiffers⟩
    rw [h.holds.same_null]
    exact h.selects_is.2
  · refine ⟨_, compare .ne r x, Operator.inMemory_common (by decide) _ _, ?_, ?_⟩
    · rw [onColumn, hx.isNull, if_neg Bool.false_ne_true]
    · rw [selects_compare]
      rcases h.holds with rfl | hv
      · refine iff_of_false ?_ (not_not.mpr (.ne hx.ne_null))
        simp only [Clause.holds, h.compare?_eq_none, hx.null_same]
        decide
      · have hdiffers : ¬Operator.Differs .ne v x := by
          intro hd
          cases hd with
          | ne hne => cases hv
          | letters ho => rcases ho with ho | ho <;> cases ho
        refine iff_of_true ?_ hdiffers
        obtain ⟨o, hcompare, hsame, -⟩ := h.compare? hv hx
        simp only [Clause.holds, hcompare, hsame, Option.map_some, Option.some_beq_some, beq_true]
        rfl

/-! ### Membership -/

/-- A list as an operand of membership. -/
theorem onColumn_isIn (xs : List Value) :
    onColumn .isIn r (.list xs) = .ok (compare .isIn r (.list xs))
    ∧ onColumn .notIn r (.list xs) = .ok (compare .notIn r (.list xs)) := by
  cases xs <;> exact ⟨rfl, rfl⟩

/-- Membership in memory. -/
theorem among_list (v : Value) (xs : List Value) :
    Operator.among v (.list xs) = .ok (!v.isNull && xs.any (Value.same v)) := by
  unfold Operator.among
  cases v.isNull with
  | true => rfl
  | false => cases xs <;> rfl

theorem any_isNull (xs : List Value) : xs.any Value.isNull = true ↔ .null ∈ xs := by
  rw [List.any_eq_true]
  constructor
  · rintro ⟨x, hx, hnull⟩
    cases x with
    | null => exact hx
    | _ => cases hnull
  · intro h
    exact ⟨_, h, rfl⟩

theorem any_congr_of_mem {α : Type} {f g : α → Bool} {xs : List α} (h : ∀ x ∈ xs, f x = g x) :
    xs.any f = xs.any g := by
  rw [Bool.eq_iff_iff, List.any_eq_true, List.any_eq_true]
  exact exists_congr fun x => and_congr_right fun hx => by rw [h x hx]

/-- **Membership in the store**: of nothing it is false, of null it is unknown, and a value that
is none of some may be null if null is among them. -/
theorem HasValue.among? (h : HasValue k r row v) {xs : List Value} (hxs : ∀ x ∈ xs, k.HoldsOrNull x) :
    Stored.among? (cell r row) (xs.map (operandOf r))
      = if xs.isEmpty then some false
        else if v.isNull then none
        else if xs.any (Value.same v) then some true
        else if xs.any Value.isNull then none
        else some false := by
  have hnull : (xs.map (operandOf r)).any Stored.isNull = xs.any Value.isNull := by
    rw [List.any_map]
    refine any_congr_of_mem fun x hx => ?_
    exact isNull_operandOf (hxs x hx)
  unfold Stored.among?
  rw [h.isNull, hnull, List.isEmpty_map]
  rcases h.holds with rfl | hv
  · rfl
  · have hany : (xs.map (operandOf r)).any (fun o => Stored.compare? (cell r row) o == some .eq)
        = xs.any (Value.same v) := by
      rw [List.any_map]
      refine any_congr_of_mem fun x hx => ?_
      exact h.same_eq hv (hxs x hx)
    rw [hany]

/-- That a value is one of some is true in the store if it is in memory. -/
theorem HasValue.agrees_isIn (h : HasValue k r row v) {xs : List Value}
    (hxs : ∀ x ∈ xs, k.HoldsOrNull x) : Agrees .isIn r row v (.list xs) := by
  refine ⟨_, _, (Operator.inMemory_common (by decide) _ _).trans (among_list v xs),
    (onColumn_isIn xs).1, iff_of_true ?_ (Operator.not_differs (by decide))⟩
  rw [selects_compare]
  simp only [Clause.holds, Value.items?, Option.getD_some, h.among? hxs]
  cases v.isNull <;> cases hany : xs.any (Value.same v) <;> cases xs.any Value.isNull <;>
    cases xs <;> first | rfl | cases hany

/-- **That a value is none of some** is unknown to the store if it is null, or null is one of
them. -/
theorem HasValue.agrees_notIn (h : HasValue k r row v) {xs : List Value}
    (hxs : ∀ x ∈ xs, k.HoldsOrNull x) : Agrees .notIn r row v (.list xs) := by
  have htest : Operator.notIn.inMemory v (.list xs)
      = .ok !(!v.isNull && xs.any (Value.same v)) := by
    rw [Operator.inMemory_common (by decide), Operator.test, among_list]
    rfl
  refine ⟨_, _, htest, (onColumn_isIn xs).2, ?_⟩
  rw [selects_compare]
  simp only [Clause.holds, Value.items?, Option.getD_some, h.among? hxs]
  cases xs with
  | nil =>
    refine iff_of_true ?_ ?_
    · cases v.isNull <;> rfl
    · intro hd
      cases hd with
      | notIn hne => exact hne rfl
      | notInNull _ hnull => cases hnull
  | cons x xs =>
    rw [List.isEmpty_cons, if_neg Bool.false_ne_true]
    rcases h.holds with rfl | hv
    · exact iff_of_false Bool.false_ne_true (not_not.mpr (.notIn (List.cons_ne_nil _ _)))
    · rw [hv.isNull, if_neg Bool.false_ne_true]
      cases hany : (x :: xs).any (Value.same v) with
      | true =>
        refine iff_of_true rfl fun hd => ?_
        cases hd with
        | notIn => cases hv
        | notInNull _ _ hnone =>
          obtain ⟨y, hy, hsame⟩ := List.any_eq_true.mp hany
          rw [hnone y hy] at hsame
          cases hsame
      | false =>
        rw [if_neg Bool.false_ne_true]
        cases hnull : (x :: xs).any Value.isNull with
        | true =>
          refine iff_of_false Bool.false_ne_true (not_not.mpr ?_)
          refine .notInNull hv.ne_null ((any_isNull _).mp hnull) fun y hy => ?_
          exact Bool.eq_false_iff.mpr (List.any_eq_false.mp hany y hy)
        | false =>
          refine iff_of_true rfl fun hd => ?_
          cases hd with
          | notIn => cases hv
          | notInNull _ hmem =>
            rw [(any_isNull _).mpr hmem] at hnull
            cases hnull

/-- That a value is one of nothing is false, and that it is none of it is true. -/
theorem HasValue.agrees_nothing (h : HasValue k r row v) {o : Operator} (ho : o = .isIn ∨ o = .notIn) :
    Agrees o r row v .null := by
  have hamong : Operator.among v .null = .ok false := by
    unfold Operator.among
    cases v.isNull <;> rfl
  rcases ho with rfl | rfl
  · refine ⟨_, _, (Operator.inMemory_common (by decide) _ _).trans hamong, rfl,
      iff_of_true rfl (Operator.not_differs (by decide))⟩
  · refine ⟨_, _, (Operator.inMemory_common (by decide) _ _).trans
      (congrArg (Except.map not) hamong), rfl, iff_of_true rfl ?_⟩
    intro hd
    cases hd

/-! ### Order -/

/-- The kinds with ordering operators have values in order. -/
theorem ordered_of_offers {o : Operator} {check : Ordering → Bool} {op : Comparison}
    (ho : o.ordering? = some (check, op)) (hoffers : k.Offers o) (hx : k.Holds x) :
    o ∈ Operator.offered x ∧ isConstant x = false := by
  have hkind : k ≠ .string ∧ k ≠ .boolean := by
    constructor <;> rintro rfl <;> cases o <;> cases ho <;> exact absurd hoffers (by decide)
  have hordered : Operator.ordered x = true ∧ isConstant x = false := by
    cases hx with
    | string => exact absurd rfl hkind.1
    | boolean => exact absurd rfl hkind.2
    | _ => exact ⟨rfl, rfl⟩
  refine ⟨List.mem_append_right _ ?_, hordered.2⟩
  rw [hordered.1]
  cases o <;> cases ho <;> decide

/-- **A value is before or after another in the store if it is in memory**, and null is neither. -/
theorem HasValue.agrees_ordering (h : HasValue k r row v) {o : Operator} {check : Ordering → Bool}
    {op : Comparison} (ho : o.ordering? = some (check, op)) (hoffers : k.Offers o)
    (hx : k.Holds x) : Agrees o r row v x := by
  obtain ⟨htest, hclause, hholds, hdiffers⟩ : o.test v x = Operator.compares check v x
      ∧ onColumn o r x = ordinary op r x
      ∧ Clause.holds row op r x = (Stored.compare? (cell r row) (operandOf r x)).map check
      ∧ ¬Operator.Differs o v x := by
    cases o <;> cases ho <;> exact ⟨rfl, rfl, rfl, Operator.not_differs (by decide)⟩
  obtain ⟨-, hconstant⟩ := ordered_of_offers ho hoffers hx
  have hcolumn : onColumn o r x = .ok (compare op r x) := by
    rw [hclause, ordinary, hconstant, if_neg Bool.false_ne_true]
  rcases h.holds with rfl | hv
  · refine ⟨false, _, Operator.inMemory_of_not_offered ?_ _, hcolumn, iff_of_true ?_ hdiffers⟩
    · cases o <;> cases ho <;> decide
    · rw [selects_compare, hholds, h.compare?_eq_none]
      rfl
  · obtain ⟨ordering, hcompare, -, horder⟩ := h.compare? hv hx
    have hmemory : o.inMemory v x = .ok (check ordering) := by
      rw [Operator.inMemory_of_offered (ordered_of_offers ho hoffers hv).1, htest,
        Operator.compares, hv.isNull, hx.isNull, horder]
      rfl
    refine ⟨_, _, hmemory, hcolumn, iff_of_true ?_ hdiffers⟩
    rw [selects_compare, hholds, hcompare, Option.map_some, Option.some_beq_some, beq_true]

/-! ### Patterns -/

/-- **A text is like a pattern in the store if it is in memory**, unless they differ in the case
of letters outside ASCII. -/
theorem HasValue.agrees_like (h : HasValue .string r row v) {o : Operator} {p : String}
    (ho : o = .like ∨ o = .notLike) (hempty : v = .text "" → Like.ascii p "" = false) :
    Agrees o r row v (.text p) := by
  rcases h.holds with rfl | hv
  · have hdiffers : ¬Operator.Differs o .null (.text p) := by
      intro hd
      rcases ho with rfl | rfl <;> cases hd
    rcases ho with rfl | rfl
    all_goals
      refine ⟨false, _, Operator.inMemory_of_not_offered (by decide) _, rfl,
        iff_of_true ?_ hdiffers⟩
      rw [selects_compare]
      simp only [Clause.holds, h.text rfl]
      rfl
  · cases hv with
    | string s =>
      have hlike := Operator.isLike_text (p := p) fun heq => hempty (congrArg Value.text heq)
      have hstore : Stored.like? (cell r row) (Stored.ofValue (.text p))
          = some (Like.ascii p s) := by
        rw [h.text rfl]
        rfl
      rcases ho with rfl | rfl
      · refine ⟨_, _, hlike, rfl, ?_⟩
        rw [selects_compare, Operator.not_differs_pattern (.inl rfl)]
        simp only [Clause.holds, hstore, Option.some_beq_some, beq_true]
      · refine ⟨_, _, congrArg (Except.map not) hlike, rfl, ?_⟩
        rw [selects_compare, Operator.not_differs_pattern (.inr rfl)]
        simp only [Clause.holds, hstore, Option.map_some, Option.some_beq_some, beq_true]
        exact Bool.not_inj_iff

/-! ### All operators -/

/-- The operators of patterns are offered for texts. -/
theorem string_of_offers {o : Operator} (ho : o = .like ∨ o = .notLike) (h : k.Offers o) :
    k = .string := by
  rcases ho with rfl | rfl <;> cases k <;> first | rfl | exact absurd h (by decide)

/-- **Each operator agrees** on a value and what it takes. -/
theorem HasValue.agrees (h : HasValue k r row v) {o : Operator} (hoffers : k.Offers o)
    (htakes : k.Takes o x) (hopen : ¬Operator.Open o v x) : Agrees o r row v x := by
  cases htakes with
  | null => exact h.agrees_null
  | list ho hxs =>
    rcases ho with rfl | rfl
    · exact h.agrees_isIn hxs
    · exact h.agrees_notIn hxs
  | nothing ho => exact h.agrees_nothing ho
  | value ho hx =>
    have hvalue : o.needsValue = true → k.Holds x := fun hneeds => hx.resolve_left fun heq =>
      hopen (heq ▸ .null hneeds)
    have hpattern : o = .like ∨ o = .notLike → Agrees o r row v x := by
      intro hlike
      obtain rfl := string_of_offers hlike hoffers
      have hx : ColumnKind.string.Holds x := hvalue (by rcases hlike with rfl | rfl <;> rfl)
      cases hx with
      | string p =>
        refine h.agrees_like hlike fun heq => Bool.eq_false_iff.mpr fun hascii => ?_
        exact hopen (heq ▸ .empty hlike hascii)
    cases o with
    | eq => exact h.agrees_eq hx
    | ne => exact h.agrees_ne hx
    | isIn => exact absurd (by decide) ho
    | notIn => exact absurd (by decide) ho
    | null => exact absurd (by decide) ho
    | like => exact hpattern (.inl rfl)
    | notLike => exact hpattern (.inr rfl)
    | lt => exact h.agrees_ordering rfl hoffers (hvalue rfl)
    | lte => exact h.agrees_ordering rfl hoffers (hvalue rfl)
    | gt => exact h.agrees_ordering rfl hoffers (hvalue rfl)
    | gte => exact h.agrees_ordering rfl hoffers (hvalue rfl)

variable {models : Models} {m : Model} {c : Column}

/-- **A condition by one operator on a column is satisfied in memory exactly if its clause is
true on the row**, unless null or letters outside ASCII make them differ, and neither of them
fails. -/
theorem selects_eq_satisfied {o : Operator} {operand : Value} (hcolumn : m.HasColumn c)
    (hkey : Condition.isConnective c.key = false) (hdescribes : k.Describes c.type)
    (hvalue : k.HoldsOrNull (Fields.get row c.key)) (hoffers : k.Offers o)
    (htakes : k.Takes o operand) (hopen : ¬Operator.Open o (Fields.get row c.key) operand) :
    ∃ b clause, Condition.satisfied (.record row) (Condition.single c.key o operand) = .ok b
      ∧ ofCondition models m (Condition.single c.key o operand) = .ok (some clause)
      ∧ (clause.selects row = b ↔ ¬Operator.Differs o (Fields.get row c.key) operand) := by
  have h : HasValue k ⟨m.table, c⟩ row (Fields.get row c.key) := hasValue hdescribes hvalue
  obtain ⟨b, clause, hmemory, hstore, hagree⟩ := h.agrees hoffers htakes hopen
  refine ⟨b, clause, ?_, ?_, hagree⟩
  · rw [Condition.satisfied, Condition.holds_single hkey]
    exact hmemory
  · rw [ofCondition_single hkey (subject_column hcolumn), htakes.coerce fun _ => hdescribes, hstore]
    rfl

/-- A model with a number, a name and a time, and of the days only the texts. -/
private def parcel : Model where
  name := "Parcel"
  table := "parcels"
  columns := [⟨"weight", "weight", .base "Integer", false, true, none⟩,
    ⟨"label", "label", .derived (.base "String") "Label", false, true, none⟩,
    ⟨"sent", "sent", .base "DateTime", false, true, none⟩,
    ⟨"due", "due", .base "Date", false, true, none⟩]
  virtuals := []
  associations := []

/-- The first of May. -/
private def mayDay : Date := ⟨2024, 5, 1, by decide⟩

/-- Noon of this day, by an offset or none. -/
private def noon (offset : Option Int) (h : ∀ o ∈ offset, o.natAbs < dayMicros) : Moment :=
  ⟨mayDay, 12, 0, 0, 0, offset, by decide, h⟩

/-- A label matches a pattern in both. -/
theorem selects_eq_satisfied_label : ∃ clause,
    ofCondition [] parcel (Condition.single "label" .like (.text "b%")) = .ok (some clause)
      ∧ clause.selects [("label", .text "Box")] = true
      ∧ Condition.satisfied (.record [("label", .text "Box")])
          (Condition.single "label" .like (.text "b%")) = .ok true := by
  have hopen : ¬Operator.Open .like (.text "Box") (.text "b%") := by
    have hempty : ∀ s, Operator.Open .like (.text s) (.text "b%") → s = "" := by
      rintro s ⟨⟩
      rfl
    exact fun h => absurd (hempty _ h) (by decide)
  have hdiffers : ¬Operator.Differs .like (.text "Box") (.text "b%") := by
    intro h
    cases h with
    | letters _ _ hascii => exact absurd hascii (by decide +kernel)
  obtain ⟨b, clause, hmemory, hclause, hagree⟩ :=
    @selects_eq_satisfied .string [("label", .text "Box")] [] parcel
      ⟨"label", "label", .derived (.base "String") "Label", false, true, none⟩ .like (.text "b%")
      ⟨rfl, rfl⟩ rfl (by decide) (.inr (.string "Box")) (by decide)
      (.value (by decide) (.inr (.string "b%"))) hopen
  have htrue : Condition.satisfied (.record [("label", .text "Box")])
      (Condition.single "label" .like (.text "b%")) = .ok true := by decide +kernel
  refine ⟨clause, hclause, ?_, htrue⟩
  rw [htrue] at hmemory
  cases hmemory
  exact hagree.mpr hdiffers

/-- A condition that a row satisfies in memory, and whose clause does not select it. -/
def OnlyInMemory (m : Model) (row : Row) (condition : Value) : Prop :=
  Condition.satisfied (.record row) condition = .ok true
    ∧ ∃ clause, ofCondition [] m condition = .ok (some clause) ∧ clause.selects row = false

/-- **Memory and store differ**: whether null differs from a number or is none of some, whether a
number is none of others and null, and whether accented letters are the same without regard to
case. A moment with an offset is not before or after one without in memory, and a day is no text
there. -/
theorem satisfied_apart_from_selects :
    OnlyInMemory parcel [("weight", .null)] (Condition.single "weight" .ne (.int 1))
      ∧ OnlyInMemory parcel [("weight", .null)] (Condition.single "weight" .notIn (.list [.int 1]))
      ∧ OnlyInMemory parcel [("weight", .int 2)]
          (Condition.single "weight" .notIn (.list [.int 1, .null]))
      ∧ OnlyInMemory parcel [("label", .text "É")] (Condition.single "label" .like (.text "é"))
      ∧ Condition.satisfied (.record [("sent", .moment (noon none (by decide)))])
          (Condition.single "sent" .lt (.moment (noon (some 0) (by decide)))) = .error .wrongKind
      ∧ Condition.satisfied (.record [("due", .date mayDay)])
          (Condition.single "due" .eq (.text "2024-05-01")) = .ok false
      ∧ ∃ clause, ofCondition [] parcel (Condition.single "due" .eq (.text "2024-05-01"))
          = .ok (some clause) ∧ clause.selects [("due", .date mayDay)] = true := by
  refine ⟨⟨rfl, _, rfl, rfl⟩, ⟨rfl, _, rfl, rfl⟩, ⟨rfl, _, rfl, rfl⟩,
    ⟨by decide +kernel, _, rfl, by decide +kernel⟩, rfl, rfl, _, rfl, by decide +kernel⟩

end Clause
end SchemaForge
