import SchemaForge.Proofs.Execution.Testing

/-!
# Lists that executions share

A resolver can give the same list at each call. Tests shorten a list in its place, so what one
execution of the field turns down is gone for all later ones: the n-th answer has the entries that
the first n executions all accept, and what is kept in the end is the list that all of them
accept. An execution answers with what its own tests accept if and only if none before it turned
any of this down, and the list is as it was if and only if nothing was turned down at all.

Between two executions the memory may change in any way that leaves the list alone.
-/
namespace SchemaForge

namespace Memory

/-- What calls share at a place is a cell with a list. -/
structure Holds (m : Memory) (place p : Nat) (xs : List Value) : Prop where
  /-- The cell is at the place. -/
  lookup_eq : m.shared.lookup place = some (.cell p)
  /-- The list is in the cell. -/
  shows : m.Shows (.cell p) (.list xs)

/-- Calls that share a value at a place are given a list: one that is in memory, or one that the
first call will put there. -/
inductive Lends (m : Memory) (place : Nat) (v : Value) (xs : List Value) : Prop where
  | made {p : Nat} : m.Holds place p xs → Lends m place v xs
  | unmade : m.shared.lookup place = none → v = .list xs → Rooted {} 0 v → Lends m place v xs

variable {m m' : Memory} {place p : Nat} {v : Value} {xs ys : List Value}

/-- There is one such list. -/
theorem Lends.unique (h : m.Lends place v xs) (h' : m.Lends place v ys) : xs = ys := by
  cases h with
  | made h =>
    cases h' with
    | made h' =>
      obtain rfl := Value.cell.inj (Option.some.inj (h.lookup_eq.symm.trans h'.lookup_eq))
      exact Value.list.inj (h.shows.view_eq.symm.trans h'.shows.view_eq)
    | unmade hplace => cases h.lookup_eq.symm.trans hplace
  | unmade hplace hv =>
    cases h' with
    | made h' => cases hplace.symm.trans h'.lookup_eq
    | unmade _ hv' => exact Value.list.inj (hv.symm.trans hv')

/-- It stays while cells are added. -/
theorem Lends.of_extends (h : m.Lends place v xs) (hm : m.Extends m') : m'.Lends place v xs := by
  cases h with
  | made h => exact .made ⟨hm.shared_eq ▸ h.lookup_eq, h.shows.of_extends hm⟩
  | unmade hplace hv hrooted => exact .unmade (hm.shared_eq ▸ hplace) hv hrooted

/-- A call that is the first puts the value into memory. -/
theorem share_of_lookup_none (h : m.shared.lookup place = none) (v : Value) :
    m.share place v = ((m.store v).1,
      { (m.store v).2 with shared := (place, (m.store v).1) :: (m.store v).2.shared }) := by
  rw [share, h]

/-- A call is given a cell with that list. -/
theorem share_of_lends (h : m.Lends place v xs) :
    ∃ p, (m.share place v).1 = .cell p ∧ (m.share place v).2.Holds place p xs := by
  cases h with
  | @made p h =>
    rw [share, h.lookup_eq]
    exact ⟨p, rfl, h⟩
  | unmade hplace hv hrooted =>
    obtain ⟨p, hp⟩ : ∃ p, (m.store v).1 = .cell p := by
      rw [hv, store]
      exact ⟨_, rfl⟩
    have hshows := (keeps_of_rooted hrooted m).2
    rw [hp, hv] at hshows
    rw [share_of_lookup_none hplace, hp, hv]
    exact ⟨p, rfl, List.lookup_cons_self, hshows.of_cells rfl⟩

/-- Its items lead to earlier cells. -/
theorem Holds.rooted_items (h : m.Holds place p xs) :
    p < m.cells.size ∧ ∀ x ∈ m.items p, m.Rooted p x := by
  obtain ⟨-, hrooted, -⟩ := h
  cases hrooted with
  | flat h => cases h
  | cell hp hitems => exact ⟨hp, hitems⟩

/-- Its items stand for its entries. -/
theorem Holds.map_view (h : m.Holds place p xs) : (m.items p).map m.view = xs := by
  obtain ⟨hp, hitems⟩ := h.rooted_items
  exact Value.list.inj ((view_cell hp hitems).symm.trans h.shows.view_eq)

/-- Where the list is shortened in its cell, calls share what is left. -/
theorem Holds.setItems (h : m.Holds place p xs) (f : Value → Bool) :
    (m.setItems p ((m.items p).filter fun x => f (m.view x))).Holds place p (xs.filter f) := by
  obtain ⟨hp, hitems⟩ := h.rooted_items
  refine ⟨h.lookup_eq, ?_⟩
  rw [← h.map_view, List.filter_map]
  exact shows_setItems hp fun x hx => hitems x (List.mem_filter.mp hx).1

end Memory

/-- Tests shorten a list that calls share. -/
theorem Test.prune_of_holds {scene : Scene} {ts : List Test} {place p : Nat} {xs : List Value}
    {j : Journal} (h : j.memory.Holds place p xs) (hdecides : ∀ x ∈ xs, Decides scene ts x) :
    ∃ k, prune scene ts (.cell p) j = (.ok (.cell p), k)
      ∧ k.memory.Holds place p (xs.filter (admitsAll scene ts)) := by
  by_cases hts : ts = []
  · rw [hts, filter_admitsAll_nil]
    exact ⟨j, rfl, h⟩
  · rw [← h.map_view] at hdecides
    exact ⟨_, prune_cell hts hdecides, h.setItems _⟩

namespace Chain

variable {scene : Scene} (call : Call) {place : Nat} {v : Value}

/-- What is kept while directives run around a field that lends a list: before it is run the
list is whole, and then it is at hand and is what is left. -/
def Lent (place : Nat) (v : Value) (xs left : List Value) : Option Value → Memory → Prop
  | none, m => m.Lends place v xs
  | some w, m => ∃ p, w = .cell p ∧ m.Holds place p left

/-- **Around a field that lends a list, directives that never give up shorten it.** They give what
is left of it, and this is what is lent from then on. -/
theorem run_of_lends {ds : List Directive} (hds : ∀ d ∈ ds, d.NeverRaises) {xs : List Value}
    (hdecides : ∀ x ∈ xs, Test.Decides scene (ds.flatMap Directive.tests) x) {j : Journal}
    (h : j.memory.Lends place v xs) :
    ∃ p k, run scene call ds (Script.run scene call (.shared place v)) j = (.ok (.cell p), k)
      ∧ k.memory.Holds place p
          (xs.filter (Test.admitsAll scene (ds.flatMap Directive.tests))) := by
  induction ds generalizing xs j with
  | nil =>
    obtain ⟨p, hp, hholds⟩ := Memory.share_of_lends h
    refine ⟨p, { j with memory := (j.memory.share place v).2 }, ?_, ?_⟩
    · rw [run_nil, ← hp]
      rfl
    · rw [List.flatMap_nil, Test.filter_admitsAll_nil]
      exact hholds
  | cons d ds ih =>
    rw [List.flatMap_cons] at hdecides ⊢
    generalize ds.flatMap Directive.tests = inside at ih hdecides ⊢
    have hrest : ∀ e ∈ ds, e.NeverRaises := fun e he => hds e (List.mem_cons_of_mem d he)
    have hinside : ∀ x ∈ xs, Test.Decides scene inside x :=
      fun x hx => (hdecides x hx).mono (List.subset_append_right _ _)
    have hinner : ∀ o (j : Journal),
        Lent place v xs (xs.filter (Test.admitsAll scene inside)) o j.memory →
        ∃ w k, run scene call ds (Script.run scene call (.shared place v)) j = (.ok w, k)
          ∧ Lent place v xs (xs.filter (Test.admitsAll scene inside)) (some w) k.memory := by
      intro o j hj
      cases o with
      | none =>
        obtain ⟨p, k, hrun, hk⟩ := ih hrest hinside hj
        exact ⟨_, k, hrun, p, rfl, hk⟩
      | some w =>
        -- What was left once is left again.
        obtain ⟨p, rfl, hp⟩ := hj
        obtain ⟨p, k, hrun, hk⟩ := ih hrest
          (fun x hx => hinside x (List.mem_filter.mp hx).1) (.made hp)
        rw [List.filter_filter] at hk
        simp only [Bool.and_self] at hk
        exact ⟨_, k, hrun, p, rfl, hk⟩
    obtain ⟨w, k, ⟨p, rfl, hk⟩, haround⟩ :=
      around_of_neverRaises scene call (hds d List.mem_cons_self) hinner j h
    obtain ⟨l, hprune, hl⟩ := Test.prune_of_holds hk fun x hx =>
      (hdecides x (List.mem_filter.mp hx).1).mono (List.subset_append_left _ _)
    refine ⟨p, l, haround.trans hprune, ?_⟩
    rw [List.filter_filter] at hl
    rw [List.filter_congr fun x _ => show Test.admitsAll scene (d.tests ++ inside) x
      = (Test.admitsAll scene d.tests x && Test.admitsAll scene inside x) from List.all_append]
    exact hl

end Chain

/-- One execution of a field whose resolver shares a value. -/
structure Execution where
  /-- What it runs in. -/
  scene : Scene
  /-- What the resolver is called with. -/
  call : Call
  /-- Whether the resolver's result is awaited. -/
  awaited : Bool
  /-- The directives around the field. -/
  directives : List Directive
  /-- What happens to the memory before the field is run. -/
  before : Memory → Memory

namespace Execution

/-- Whether all tests of an execution accept a value. -/
def accepts (e : Execution) (x : Value) : Bool :=
  Test.admitsAll e.scene (e.directives.flatMap Directive.tests) x

/-- What an execution answers, as it stands in the end, and what is kept. -/
def run (place : Nat) (v : Value) (e : Execution) (m : Memory) : Except Failure Value × Memory :=
  let handler : Handler := ⟨.resolver ⟨.shared place v, e.awaited⟩, e.directives⟩
  let (answer, j) := Completion.fieldValue e.scene e.call handler { memory := e.before m }
  (answer.map j.memory.view, j.memory)

/-- What executions answer one after the other, and what is kept. -/
def runAll (place : Nat) (v : Value) : List Execution → Memory →
    List (Except Failure Value) × Memory
  | [], m => ([], m)
  | e :: es, m =>
    let (answer, m) := e.run place v m
    let (answers, m) := runAll place v es m
    (answer :: answers, m)

/-- An execution only tests a shared list. -/
structure OnlyTests (e : Execution) (place : Nat) (v : Value) (xs : List Value) : Prop where
  /-- No directive gives up. -/
  neverRaises : ∀ d ∈ e.directives, d.NeverRaises
  /-- It can be told whether an entry passes. -/
  decides : ∀ x ∈ xs, Test.Decides e.scene (e.directives.flatMap Directive.tests) x
  /-- Nothing that happens before changes the list. -/
  lends : ∀ m ys, m.Lends place v ys → (e.before m).Lends place v ys

variable {e : Execution} {es : List Execution} {place : Nat} {v : Value} {m : Memory}
  {xs : List Value}

theorem OnlyTests.filter (h : e.OnlyTests place v xs) (f : Value → Bool) :
    e.OnlyTests place v (xs.filter f) :=
  ⟨h.neverRaises, fun x hx => h.decides x (List.mem_filter.mp hx).1, h.lends⟩

/-- An execution answers with what it accepts of the list that is lent, and leaves no more. -/
theorem run_of_lends (h : e.OnlyTests place v xs) (hm : m.Lends place v xs) :
    ∃ m', e.run place v m = (.ok (.list (xs.filter e.accepts)), m')
      ∧ m'.Lends place v (xs.filter e.accepts) := by
  obtain ⟨p, k, hrun, hk⟩ := Chain.run_of_lends e.call
    (j := { memory := e.before m }) h.neverRaises h.decides (h.lends m xs hm)
  refine ⟨k.memory, ?_, .made hk⟩
  have hanswer : Completion.fieldValue e.scene e.call
      ⟨.resolver ⟨.shared place v, e.awaited⟩, e.directives⟩ { memory := e.before m }
        = (.ok (.cell p), k) := hrun
  rw [run, hanswer]
  exact congrArg (fun w => (Except.ok w, k.memory)) hk.shows.view_eq

theorem runAll_cons {answer : Except Failure Value} {m' : Memory}
    (h : e.run place v m = (answer, m')) :
    runAll place v (e :: es) m = (answer :: (runAll place v es m').1, (runAll place v es m').2) := by
  rw [runAll, h]

/-- Executions answer with what they and those before them accept. -/
theorem runAll_eq (hes : ∀ e ∈ es, e.OnlyTests place v xs) (hm : m.Lends place v xs) :
    (runAll place v es m).1.length = es.length
    ∧ (∀ n < es.length, (runAll place v es m).1[n]?
        = some (.ok (.list (xs.filter fun x => (es.take (n + 1)).all (·.accepts x)))))
    ∧ (runAll place v es m).2.Lends place v (xs.filter fun x => es.all (·.accepts x)) := by
  induction es generalizing xs m with
  | nil =>
    refine ⟨rfl, fun n hn => absurd hn (Nat.not_lt_zero n), ?_⟩
    rw [List.filter_eq_self.mpr fun _ _ => List.all_nil]
    exact hm
  | cons e es ih =>
    obtain ⟨m', hrun, hm'⟩ := run_of_lends (hes e List.mem_cons_self) hm
    have hrest : ∀ e' ∈ es, e'.OnlyTests place v (xs.filter e.accepts) :=
      fun e' he' => (hes e' (List.mem_cons_of_mem e he')).filter _
    obtain ⟨hlength, hanswers, hlends⟩ := ih hrest hm'
    have hfilter : ∀ es' : List Execution,
        (xs.filter e.accepts).filter (fun x => es'.all (·.accepts x))
          = xs.filter fun x => (e :: es').all (·.accepts x) := fun es' => by
      rw [List.filter_filter]
      exact List.filter_congr fun x _ => by rw [List.all_cons, Bool.and_comm]
    rw [runAll_cons hrun]
    refine ⟨congrArg (· + 1) hlength, fun n hn => ?_, hfilter es ▸ hlends⟩
    cases n with
    | zero =>
      have hown : xs.filter (fun x => [e].all (·.accepts x)) = xs.filter e.accepts :=
        List.filter_congr fun x _ => Bool.and_true _
      rw [List.take_succ_cons, List.take_zero, hown]
      rfl
    | succ n =>
      rw [List.take_succ_cons, ← hfilter]
      exact hanswers n (Nat.lt_of_succ_lt_succ hn)

/-- Two tests leave the same of a list if and only if they agree on its entries. -/
theorem filter_eq_filter_iff {f g : Value → Bool} :
    xs.filter f = xs.filter g ↔ ∀ x ∈ xs, f x = g x := by
  refine ⟨fun h x hx => ?_, List.filter_congr⟩
  have hmem : x ∈ xs.filter f ↔ x ∈ xs.filter g := by rw [h]
  rw [List.mem_filter, List.mem_filter] at hmem
  exact Bool.eq_iff_iff.mpr ((and_iff_right hx).symm.trans (hmem.trans (and_iff_right hx)))

/-- **What executions make of a list that they share.** All of them answer. The n-th answer has
the entries that the first n executions accept, and the list that is left has those that all of
them accept. So an execution answers with what it accepts itself if and only if those before it
accept all of that, and the list is as it was if and only if all of it was always accepted. -/
theorem runAll_of_lends (hes : ∀ e ∈ es, e.OnlyTests place v xs) (hm : m.Lends place v xs) :
    (runAll place v es m).1.length = es.length
    ∧ (∀ n < es.length, (runAll place v es m).1[n]?
        = some (.ok (.list (xs.filter fun x => (es.take (n + 1)).all (·.accepts x)))))
    ∧ (runAll place v es m).2.Lends place v (xs.filter fun x => es.all (·.accepts x))
    ∧ (∀ n, ∀ e, es[n]? = some e →
        ((runAll place v es m).1[n]? = some (.ok (.list (xs.filter e.accepts)))
          ↔ ∀ x ∈ xs, e.accepts x → ∀ e' ∈ es.take n, e'.accepts x))
    ∧ ((runAll place v es m).2.Lends place v xs ↔ ∀ x ∈ xs, ∀ e ∈ es, e.accepts x) := by
  obtain ⟨hlength, hanswers, hlends⟩ := runAll_eq hes hm
  refine ⟨hlength, hanswers, hlends, fun n e he => ?_, ?_⟩
  · have hn := (List.getElem?_eq_some_iff.mp he).1
    have htake : es.take (n + 1) = es.take n ++ [e] := by
      rw [List.take_add_one, he, Option.toList_some]
    rw [hanswers n hn, htake, Option.some.injEq, Except.ok.injEq, Value.list.injEq,
      filter_eq_filter_iff]
    refine forall₂_congr fun x _ => ?_
    rw [List.all_append, List.all_cons, List.all_nil, Bool.and_true, Bool.and_eq_right_iff_imp,
      List.all_eq_true]
  · have hall : ∀ x, (∀ e ∈ es, e.accepts x = true) ↔ (es.all (·.accepts x)) = true :=
      fun x => List.all_eq_true.symm
    simp only [hall]
    rw [← List.filter_eq_self]
    exact ⟨hlends.unique, fun h => h ▸ hlends⟩

/-- A list of two letters. -/
private def letters : Value := .list [.text "a", .text "b"]

/-- An execution that turns down one letter, after its context has been put into memory. -/
private def without (letter : String) : Execution where
  scene := .void
  call := ⟨[.key "letters"], "letters", .null, [], []⟩
  awaited := false
  directives := [⟨"without", [], [.resolve, .filter (.notIn (.list [.text letter]))], true⟩]
  before m := (m.store (.record [("hidden", .list [.text letter])])).2

private theorem rooted_texts (ss : List String) : Memory.Rooted {} 0 (.list (ss.map .text)) := by
  refine .list fun x hx => .flat ?_
  obtain ⟨s, -, rfl⟩ := List.mem_map.mp hx
  rfl

private theorem onlyTests_without (letter : String) :
    (without letter).OnlyTests 0 letters [.text "a", .text "b"] where
  neverRaises d hd s hs := by
    obtain rfl := List.mem_singleton.mp hd
    obtain rfl | rfl : s = .resolve ∨ s = .filter (.notIn (.list [.text letter])) := by
      simpa using hs
    · rfl
    · rfl
  decides x hx t ht := by
    obtain rfl : t = .notIn (.list [.text letter]) := List.mem_singleton.mp ht
    obtain rfl | rfl : x = .text "a" ∨ x = .text "b" := by simpa using hx
    · rfl
    · rfl
  lends m ys h := by
    have hrooted : Memory.Rooted {} 0 (.record [("hidden", .list [.text letter])]) := by
      refine .record fun f hf => ?_
      obtain rfl := List.mem_singleton.mp hf
      exact rooted_texts [letter]
    exact h.of_extends (Memory.keeps_of_rooted hrooted m).1

private theorem onlyTests_letters :
    ∀ e ∈ [without "b", without "a"], e.OnlyTests 0 letters [.text "a", .text "b"] := by
  intro e he
  obtain rfl | rfl : e = without "b" ∨ e = without "a" := by simpa using he
  · exact onlyTests_without "b"
  · exact onlyTests_without "a"

private theorem lends_letters : Memory.Lends {} 0 letters [.text "a", .text "b"] :=
  .unmade rfl rfl (rooted_texts ["a", "b"])

/-- After an execution without b one without a has nothing to answer with, and nothing is left. -/
theorem runAll_of_lends_letters :
    (∀ e ∈ [without "b", without "a"], e.OnlyTests 0 letters [.text "a", .text "b"])
    ∧ Memory.Lends {} 0 letters [.text "a", .text "b"]
    ∧ (runAll 0 letters [without "b", without "a"] {}).1[0]? = some (.ok (.list [.text "a"]))
    ∧ (runAll 0 letters [without "b", without "a"] {}).1[1]? = some (.ok (.list []))
    ∧ (runAll 0 letters [without "b", without "a"] {}).2.Lends 0 letters [] := by
  obtain ⟨-, hanswers, hlends, -⟩ := runAll_of_lends onlyTests_letters lends_letters
  exact ⟨onlyTests_letters, lends_letters, hanswers 0 (by decide), hanswers 1 (by decide), hlends⟩

/-- **Executions do not leave a list that they share as it was**: an execution can get less than
what its own tests accept of the list. -/
theorem not_runAll_own :
    ¬ ∀ (place : Nat) (v : Value) (xs : List Value) (es : List Execution) (m : Memory),
      (∀ e ∈ es, e.OnlyTests place v xs) → m.Lends place v xs →
        (runAll place v es m).1 = es.map (fun e => .ok (.list (xs.filter e.accepts)))
        ∧ (runAll place v es m).2.Lends place v xs := by
  intro h
  have hown := (h 0 letters [.text "a", .text "b"] [without "b", without "a"] {}
    onlyTests_letters lends_letters).1
  have hanswers : (runAll 0 letters [without "b", without "a"] {}).1
      = [.ok (.list [.text "a"]), .ok (.list [])] := rfl
  cases hanswers.symm.trans hown

end Execution
end SchemaForge
