import Mathlib.Data.List.Pairwise
import SchemaForge.Proofs.Execution.Paging
import SchemaForge.Proofs.Number.Comparing
import SchemaForge.Proofs.Store.Sorting

/-!
# Rows that an order does not tell apart

Each page of a list is selected by a statement of its own, so pages fit together only if all of
these statements put the rows in one order. A store must keep to the terms of a statement, and
may settle ties among rows as it likes, each time anew. Terms that name the whole key of a model
leave no ties. The order of the key does, and a list has it if no order is asked for. An order
that is asked for is taken as it is: nothing is added to it, so unless it names the whole key
itself, a row can come on two pages and another on none.
-/
namespace SchemaForge

/-! ### Comparing both ways -/

theorem Stored.sortOrder_swap (a b : Stored) : sortOrder b a = (sortOrder a b).swap := by
  cases a with
  | null => cases b <;> rfl
  | number m =>
    cases b with
    | null | text t => rfl
    | number n =>
      change (Numeral.compare? n m).getD .eq = ((Numeral.compare? m n).getD .eq).swap
      rw [Numeral.compare?_swap m n]
      cases Numeral.compare? m n <;> rfl
  | text s =>
    cases b with
    | null | number n => rfl
    | text t => exact (Std.OrientedCmp.eq_swap : compare t s = (compare s t).swap)

/-- Two rows have the same key if each of its columns holds the same in both. -/
def Model.SameKey (m : Model) (a b : Row) : Prop :=
  ∀ c ∈ m.primaryKey,
    Stored.sortOrder (Clause.cell ⟨m.table, c⟩ a) (Clause.cell ⟨m.table, c⟩ b) = .eq

instance (m : Model) (a b : Row) : Decidable (m.SameKey a b) :=
  inferInstanceAs (Decidable (∀ c ∈ m.primaryKey, _ = _))

theorem Model.SameKey.symm {m : Model} {a b : Row} (h : m.SameKey a b) : m.SameKey b a := by
  intro c hc
  rw [Stored.sortOrder_swap, h c hc]
  rfl

/-! ### Terms -/

namespace OrderTerm

variable {m : Model} {ts : List OrderTerm} {a b : Row}

theorem compareBy_swap (t : OrderTerm) (a b : Row) : t.compareBy b a = (t.compareBy a b).swap := by
  unfold compareBy
  cases t.descending
  · exact Stored.sortOrder_swap _ _
  · exact congrArg Ordering.swap (Stored.sortOrder_swap _ _)

theorem compareRows_swap (ts : List OrderTerm) (a b : Row) :
    compareRows ts b a = (compareRows ts a b).swap := by
  induction ts with
  | nil => rfl
  | cons t ts ih => rw [compareRows, compareRows, Ordering.swap_then, ih, compareBy_swap]

/-- Terms do not tell rows apart if none of their columns does. -/
theorem compareRows_eq_eq_iff : compareRows ts a b = .eq
    ↔ ∀ t ∈ ts, Stored.sortOrder (Clause.cell t.column a) (Clause.cell t.column b) = .eq := by
  induction ts with
  | nil => exact iff_of_true rfl fun t ht => by cases ht
  | cons t ts ih =>
    have hterm : t.compareBy a b = .eq
        ↔ Stored.sortOrder (Clause.cell t.column a) (Clause.cell t.column b) = .eq := by
      unfold compareBy
      cases t.descending
      · rfl
      · exact Ordering.swap_eq_eq
    rw [compareRows, Ordering.then_eq_eq, ih, hterm, List.forall_mem_cons]

/-- Rows that may come in both orders are not told apart. -/
theorem compareRows_eq_of_isLE (h : (compareRows ts a b).isLE) (h' : (compareRows ts b a).isLE) :
    compareRows ts a b = .eq := by
  rw [compareRows_swap] at h'
  cases ho : compareRows ts a b with
  | eq => rfl
  | lt =>
    rw [ho] at h'
    cases h'
  | gt =>
    rw [ho] at h
    cases h

/-- Terms leave no ties if they tell all rows apart that differ in their keys. -/
def Separates (m : Model) (ts : List OrderTerm) : Prop :=
  ∀ a b, compareRows ts a b = .eq → m.SameKey a b

/-- Terms name the whole key. -/
def NamesKey (m : Model) (ts : List OrderTerm) : Prop :=
  ∀ c ∈ m.primaryKey, ∃ t ∈ ts, t.column.column.key = c.key

/-- **Terms leave no ties exactly if they name the whole key.** -/
theorem separates_iff : Separates m ts ↔ NamesKey m ts := by
  constructor
  · intro hseparates c hc
    by_contra hnone
    -- One row has nothing in any column, the other a number in the column that no term names.
    have htie : compareRows ts [] [(c.key, .int 0)] = .eq := by
      refine compareRows_eq_eq_iff.mpr fun t ht => ?_
      have hkey : (t.column.column.key == c.key) = false :=
        beq_eq_false_iff_ne.mpr fun h => hnone ⟨t, ht, h⟩
      have hget : Fields.get [(c.key, .int 0)] t.column.column.key = .null := by
        simp [Fields.get, Table.get?_cons, hkey]
      rw [Clause.cell, Clause.cell, hget]
      rfl
    have hsame := hseparates _ _ htie c hc
    have hget : Fields.get [(c.key, .int 0)] c.key = .int 0 := by
      simp [Fields.get, Table.get?_cons]
    rw [Clause.cell, Clause.cell, hget] at hsame
    cases hsame
  · intro hnames a b htie c hc
    obtain ⟨t, ht, hkey⟩ := hnames c hc
    have hcell := compareRows_eq_eq_iff.mp htie t ht
    rw [Clause.cell, Clause.cell, hkey] at hcell
    exact hcell

end OrderTerm

/-! ### Answers of a store that settles ties -/

namespace Store

variable {s : Store} {q : Select}

/-- What a store may find by a statement: the rows that satisfy all clauses, in any sequence that
the terms allow. -/
structure Admits (s : Store) (q : Select) (rows : List (Nat × Row)) : Prop where
  /-- They are the rows that are asked for. -/
  perm : rows.Perm ((s.rows q.model.name).filter fun r => q.clauses.all (·.selects r.2))
  /-- No row comes after one that it has to come before. -/
  sorted : rows.Pairwise fun a b => (OrderTerm.compareRows q.order a.2 b.2).isLE

/-- The rows of a model differ in their keys. -/
def KeysDiffer (s : Store) (m : Model) : Prop :=
  (s.rows m.name).Pairwise fun a b => ¬m.SameKey a.2 b.2

instance (s : Store) (m : Model) : Decidable (s.KeysDiffer m) :=
  inferInstanceAs (Decidable (List.Pairwise _ _))

/-- Without ties a store finds one list. -/
theorem Admits.unique (hkeys : s.KeysDiffer q.model)
    (hseparates : OrderTerm.Separates q.model q.order) {rows rows' : List (Nat × Row)}
    (h : s.Admits q rows) (h' : s.Admits q rows') : rows = rows' := by
  refine List.Perm.eq_of_pairwise (fun a b ha hb hab hba => ?_) h.sorted h'.sorted
    (h.perm.trans h'.perm.symm)
  have ha := (List.mem_filter.mp (h.perm.subset ha)).1
  have hb := (List.mem_filter.mp (h'.perm.subset hb)).1
  have hsame := hseparates _ _ (OrderTerm.compareRows_eq_of_isLE hab hba)
  have : Std.Symm fun a b : Nat × Row => ¬q.model.SameKey a.2 b.2 :=
    ⟨fun a b hab hba => hab (hba.symm)⟩
  by_contra hne
  exact hkeys.forall ha hb hne hsame

/-- Without ties, pages that are found one at a time are pages of one list. -/
theorem pages_of_separates (hkeys : s.KeysDiffer q.model)
    (hseparates : OrderTerm.Separates q.model q.order) {found : Nat → List (Nat × Row)}
    (hfound : ∀ page, s.Admits q (found page)) (length count : Nat) :
    (List.range count).flatMap (fun page => pageOf length page (found page))
      = (found 0).take (count * length) := by
  have hone : (fun page => pageOf length page (found page))
      = fun page => pageOf length page (found 0) :=
    funext fun page => by rw [(hfound page).unique hkeys hseparates (hfound 0)]
  rw [hone, flatMap_pageOf]

/-- Of two rows in a tie, one may come on both pages and the other on none. -/
theorem exists_repeated {a b : Row} (ha : ∀ c ∈ q.clauses, c.selects a)
    (hb : ∀ c ∈ q.clauses, c.selects b) (htie : OrderTerm.compareRows q.order a b = .eq)
    (hkeys : ¬q.model.SameKey a b) :
    ∃ s : Store, s.KeysDiffer q.model ∧ ∃ found : Nat → List (Nat × Row),
      (∀ page, s.Admits q (found page)) ∧ ∃ r r', r ≠ r' ∧ (∀ page, r' ∈ found page)
        ∧ (List.range 2).flatMap (fun page => pageOf 1 page (found page)) = [r, r] := by
  have hrows : rows [(q.model.name, [a, b])] q.model.name = [(0, a), (1, b)] := by
    simp [rows, Table.get?_cons]
  have hfilter : ([(0, a), (1, b)] : List (Nat × Row)).filter
      (fun r => q.clauses.all (·.selects r.2)) = [(0, a), (1, b)] := by
    refine List.filter_eq_self.mpr fun r hr => List.all_eq_true.mpr ?_
    obtain rfl | hr := List.mem_cons.mp hr
    · exact ha
    · rw [List.mem_singleton.mp hr]
      exact hb
  have htie' : OrderTerm.compareRows q.order b a = .eq := by
    rw [OrderTerm.compareRows_swap, htie]
    rfl
  refine ⟨[(q.model.name, [a, b])], ?_,
    fun page => if page = 0 then [(0, a), (1, b)] else [(1, b), (0, a)], fun page => ?_,
    (0, a), (1, b), by simp, fun page => ?_, rfl⟩
  · rw [KeysDiffer, hrows]
    simpa using hkeys
  · dsimp only
    refine ⟨?_, ?_⟩
    · rw [hrows, hfilter]
      split
      · exact .refl _
      · exact .swap ..
    · split <;> simp [htie, htie']
  · dsimp only
    split <;> simp

end Store

namespace Fetch

variable {scene : Scene} {f : Fetch} {source : Value} {arguments : Fields} {q : Select}

/-- A list without hooks has the order that is asked for, or that of the key if this is empty. -/
theorem order_of_statement (hmodel : Hookless f.hook) (hfield : Hookless f.config.hook)
    (h : f.statement scene source arguments = .ok (q, true)) :
    ∃ terms, OrderTerm.ofValues q.model (Fields.get arguments "order") = .ok terms
      ∧ q.order = if terms.isEmpty then keyOrder q.model else terms := by
  obtain ⟨isList, -, h⟩ := Outcome.bind_eq_ok.mp h
  obtain ⟨clauses, -, h⟩ := Outcome.bind_eq_ok.mp h
  obtain ⟨q1, hchosen, h⟩ := Outcome.bind_eq_ok.mp h
  obtain ⟨condition, -, h⟩ := Outcome.bind_eq_ok.mp h
  obtain ⟨terms, hterms, h⟩ := Outcome.bind_eq_ok.mp h
  simp only [hooked_of_hookless hmodel, hooked_of_hookless hfield] at h
  have hq1 : q1.model = (scene.models.get? f.model).getD default := (narrows_chosen hchosen).1
  cases isList with
  | false => cases h
  | true =>
    cases h
    refine ⟨terms, ?_, ?_⟩
    · change OrderTerm.ofValues q1.model _ = _
      rw [hq1]
      exact hterms
    · change (if (terms.isEmpty && true) = true then _ else terms)
        = if terms.isEmpty = true then keyOrder q1.model else terms
      rw [Bool.and_true, hq1]

theorem namesKey_keyOrder (m : Model) : OrderTerm.NamesKey m (keyOrder m) := fun c hc =>
  ⟨⟨⟨m.table, c⟩, false⟩, List.mem_map_of_mem hc, rfl⟩

/-- **The order of a list leaves no ties exactly if none is asked for or the one that is asked for
names the whole key.** Then pages that are selected one at a time are pages of one list, on any
store whose rows differ in their keys. Rows in a tie may come twice or not at all. -/
theorem separates_order_iff (hmodel : Hookless f.hook) (hfield : Hookless f.config.hook)
    (h : f.statement scene source arguments = .ok (q, true)) :
    ∃ terms, OrderTerm.ofValues q.model (Fields.get arguments "order") = .ok terms
      ∧ (OrderTerm.Separates q.model q.order ↔ terms = [] ∨ OrderTerm.NamesKey q.model terms)
      ∧ (OrderTerm.Separates q.model q.order → ∀ s : Store, s.KeysDiffer q.model →
          ∀ found : Nat → List (Nat × Row), (∀ page, s.Admits q (found page)) →
            ∀ length count,
              (List.range count).flatMap (fun page => pageOf length page (found page))
                = (found 0).take (count * length))
      ∧ ∀ a b : Row, (∀ c ∈ q.clauses, c.selects a) → (∀ c ∈ q.clauses, c.selects b) →
          OrderTerm.compareRows q.order a b = .eq → ¬q.model.SameKey a b →
          ∃ s : Store, s.KeysDiffer q.model ∧ ∃ found : Nat → List (Nat × Row),
            (∀ page, s.Admits q (found page)) ∧ ∃ r r', r ≠ r' ∧ (∀ page, r' ∈ found page)
              ∧ (List.range 2).flatMap (fun page => pageOf 1 page (found page)) = [r, r] := by
  obtain ⟨terms, hterms, horder⟩ := order_of_statement hmodel hfield h
  refine ⟨terms, hterms, ?_, fun hseparates s hkeys found hfound length count =>
    Store.pages_of_separates hkeys hseparates hfound length count,
    fun a b ha hb htie hkeys => Store.exists_repeated ha hb htie hkeys⟩
  rw [OrderTerm.separates_iff, horder]
  cases terms with
  | nil => exact iff_of_true (namesKey_keyOrder q.model) (.inl rfl)
  | cons t ts => exact (or_iff_right (List.cons_ne_nil t ts)).symm

/-- Items with a code for a key. -/
private def codedModel : Model where
  name := "Item"
  table := "items"
  columns := [
    { key := "code", name := "code", type := .base "String", primary := true
      nullable := false, foreign := none },
    { key := "name", name := "name", type := .base "String", primary := false
      nullable := true, foreign := none }]
  virtuals := []
  associations := []

/-- An item with a code and a name. -/
private def codedItem (code name : String) : Row := [("code", .text code), ("name", .text name)]

/-- Three items of one name. -/
private def codedScene : Scene :=
  { itemScene 0 with
    models := [("Item", codedModel)]
    rows := [("Item", [codedItem "b" "x", codedItem "a" "x", codedItem "c" "x"])] }

/-- The name of an item, as a term. -/
private def byName : OrderTerm := ⟨⟨"items", codedModel.columns[1]⟩, false⟩

/-- The code of an item, as a term from the greatest to the least. -/
private def byCode : OrderTerm := ⟨⟨"items", codedModel.columns[0]⟩, true⟩

/-- A call for items in an order. -/
private theorem statement_coded {order : Value} {t : OrderTerm} {ts : List OrderTerm}
    (h : OrderTerm.ofValues codedModel order = .ok (t :: ts)) :
    itemFetch.statement codedScene .null [("order", order)]
      = .ok (⟨codedModel, [], t :: ts, 0, some 10⟩, true) := by
  have hasks : Asks [("order", order)] none none := ⟨rfl, rfl⟩
  rw [statement_of_asks isList_itemFetch hasks]
  change (OrderTerm.ofValues codedModel order >>= _) = _
  rw [h]
  rfl

/-- Names from the first to the last, then codes from the last to the first, leave no ties. -/
theorem separates_order_iff_coded : Hookless itemFetch.hook ∧ Hookless itemFetch.config.hook
    ∧ itemFetch.statement codedScene .null
        [("order", .list [.text "name_ASC", .text "code_DESC"])]
      = .ok (⟨codedModel, [], [byName, byCode], 0, some 10⟩, true)
    ∧ OrderTerm.Separates codedModel [byName, byCode] := by
  have hterms : OrderTerm.ofValues codedModel (.list [.text "name_ASC", .text "code_DESC"])
      = .ok [byName, byCode] := rfl
  have hstatement := statement_coded hterms
  obtain ⟨terms, hsame, hiff, -, -⟩ := separates_order_iff (.inl rfl) (.inl rfl) hstatement
  obtain rfl : [byName, byCode] = terms := Except.ok.inj (hterms.symm.trans hsame)
  refine ⟨.inl rfl, .inl rfl, hstatement, hiff.mpr (.inr fun c hc => ?_)⟩
  obtain rfl := List.mem_singleton.mp hc
  exact ⟨byCode, by simp, rfl⟩

/-- The statement for items by their names. -/
private def selectByName : Select := ⟨codedModel, [], [byName], 0, some 10⟩

/-- **An order by name leaves ties among items of one name**: they differ in their keys, and come
in the sequence in which they were added, which is neither order of their codes. A store that
settles ties anew each time may have the first of them on the second page again. -/
theorem not_separates_name :
    itemFetch.statement codedScene .null [("order", .list [.text "name_ASC"])]
      = .ok (selectByName, true)
    ∧ ¬OrderTerm.Separates codedModel [byName]
    ∧ codedScene.rows.KeysDiffer codedModel
    ∧ itemFetch.run codedScene .null [("order", .list [.text "name_ASC"])]
      = .ok (.list [.entity "Item" 0, .entity "Item" 1, .entity "Item" 2])
    ∧ ∃ first second, codedScene.rows.Admits selectByName first
      ∧ codedScene.rows.Admits selectByName second
      ∧ pageOf 1 0 first ++ pageOf 1 1 second = [(0, codedItem "b" "x"), (0, codedItem "b" "x")] := by
  have hterms : OrderTerm.ofValues codedModel (.list [.text "name_ASC"]) = .ok [byName] := rfl
  have hmatching : codedScene.rows.matching selectByName = codedScene.rows.rows "Item" :=
    (Store.matching_of_sorted _ (by decide +kernel)).trans rfl
  refine ⟨statement_coded hterms, ?_, by decide +kernel, ?_,
    [(0, codedItem "b" "x"), (1, codedItem "a" "x"), (2, codedItem "c" "x")],
    [(1, codedItem "a" "x"), (0, codedItem "b" "x"), (2, codedItem "c" "x")],
    ⟨.refl _, by decide +kernel⟩, ⟨.swap .., by decide +kernel⟩, rfl⟩
  · intro hseparates
    have hsame := hseparates (codedItem "b" "x") (codedItem "a" "x") (by decide +kernel)
    revert hsame
    decide +kernel
  · rw [run, statement_coded hterms]
    change Except.ok (Value.list ((Store.window 0 (some 10)
      (codedScene.rows.matching selectByName)).map _)) = _
    rw [hmatching]
    rfl

end Fetch
end SchemaForge
