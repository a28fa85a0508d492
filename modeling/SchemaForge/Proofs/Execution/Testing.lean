import SchemaForge.Proofs.Execution.Blocking
import SchemaForge.Proofs.Execution.Cells

/-!
# Values under tests

Each directive of a chain tests what comes from inside of it by the tests it has asked for, whether
before or after it ran its inside, and however often it did. Where the field yields an equal value
each time it is run, the whole chain leaves of this value what all tests of all directives leave
of it at once: of a list the entries that pass every test, of any other value the value itself if
it passes them. So the order of the directives does not matter to it.
-/
namespace SchemaForge

namespace Step

/-- The test that a step asks for, if it does. -/
def test? : Step → Option Test
  | filter t => some t
  | _ => none

end Step

namespace Directive

/-- The tests that a directive asks for. -/
def tests (d : Directive) : List Test := d.steps.filterMap Step.test?

/-- A directive that never gives up. -/
def NeverRaises (d : Directive) : Prop := ∀ s ∈ d.steps, s.raised? = none

end Directive

/-- The values that are tested: the entries of a list, or the value itself unless it is null. -/
def Value.tested : Value → List Value
  | .list xs | .tuple xs => xs
  | .null => []
  | v => [v]

/-- Whether a value is tested as a whole: it is not null, and has no entries. -/
def Value.isSingle : Value → Bool
  | .null | .list _ | .tuple _ | .cell _ => false
  | _ => true

namespace Test

variable (scene : Scene)

/-- Whether a value passes a test, where this can be told. -/
def admits (t : Test) (v : Value) : Bool := (t.accepts scene v).toOption.getD false

/-- Whether a value passes several tests, where this can be told. -/
def admitsAll (ts : List Test) (v : Value) : Bool := ts.all (·.admits scene v)

/-- It can be told whether a value passes each of several tests. -/
def Decides (ts : List Test) (v : Value) : Prop := ∀ t ∈ ts, (t.accepts scene v).isOk = true

/-- What tests leave of a value. -/
def remainder (ts : List Test) : Value → Value
  | .list xs => .list (xs.filter (admitsAll scene ts))
  | .tuple xs => if ts.isEmpty then .tuple xs else .list (xs.filter (admitsAll scene ts))
  | .null => .null
  | v => if admitsAll scene ts v then v else .null

variable {scene} {ts : List Test} {j : Journal}

/-- Of fewer tests it can be told too. -/
theorem Decides.mono {ss : List Test} {v : Value} (h : Decides scene ts v) (hsub : ss ⊆ ts) :
    Decides scene ss v := fun t ht => h t (hsub ht)

theorem acceptsAll_of_decides {v : Value} (h : Decides scene ts v) :
    acceptsAll scene v ts = .ok (admitsAll scene ts v) := by
  induction ts with
  | nil => rfl
  | cons t ts ih =>
    have hfirst := h t List.mem_cons_self
    rw [acceptsAll, admitsAll, List.all_cons, admits]
    cases ht : t.accepts scene v with
    | error e =>
      rw [ht] at hfirst
      cases hfirst
    | ok b =>
      cases b with
      | false => rfl
      | true => exact ih (h.mono (List.subset_cons_self t ts))

/-- A value is tested as it is now, and nothing changes. -/
theorem passes_of_decides {v : Value} (h : Decides scene ts (j.memory.view v)) :
    passes scene ts v j = (.ok (admitsAll scene ts (j.memory.view v)), j) :=
  congrArg (·, j) (acceptsAll_of_decides h)

/-- Entries that can be told apart without a change are told apart. -/
theorem filterM_apply {α : Type} {f : α → Act Bool} {g : α → Bool} {xs : List α}
    (h : ∀ x ∈ xs, f x j = (.ok (g x), j)) : xs.filterM f j = (.ok (xs.filter g), j) := by
  have hloop : ∀ xs acc, (∀ x ∈ xs, f x j = (.ok (g x), j)) →
      List.filterAuxM f xs acc j = (.ok ((xs.filter g).reverse ++ acc), j) := by
    intro xs
    induction xs with
    | nil => exact fun acc _ => rfl
    | cons x xs ih =>
      intro acc hxs
      rw [List.filterAuxM, Run.bind_of_ok (hxs x List.mem_cons_self),
        ih _ fun y hy => hxs y (List.mem_cons_of_mem x hy), List.filter_cons]
      cases g x <;> simp
  rw [List.filterM, Run.bind_of_ok (hloop xs [] h), List.append_nil, Run.pure_apply,
    List.reverse_reverse]

/-- What tests leave of a list that stands for another. -/
theorem filterM_passes {xs : List Value} (h : ∀ x ∈ xs.map j.memory.view, Decides scene ts x) :
    xs.filterM (passes scene ts) j
      = (.ok (xs.filter fun x => admitsAll scene ts (j.memory.view x)), j) :=
  filterM_apply fun _ hx => passes_of_decides (h _ (List.mem_map_of_mem hx))

/-- Tests shorten a list in its place. -/
theorem prune_cell (hts : ts ≠ []) {p : Nat}
    (h : ∀ x ∈ (j.memory.items p).map j.memory.view, Decides scene ts x) :
    prune scene ts (.cell p) j = (.ok (.cell p), { j with
      memory := j.memory.setItems p
        ((j.memory.items p).filter fun x => admitsAll scene ts (j.memory.view x)) }) := by
  have hempty : ¬ts.isEmpty = true := by simpa using hts
  rw [prune, if_neg hempty, Run.bind_of_ok (Run.get_apply j), Run.bind_of_ok (filterM_passes h)]
  rfl

/-- Tests leave a value that is tested as a whole, or null. -/
theorem prune_of_isSingle {v : Value} (hv : v.isSingle = true)
    (h : Decides scene ts (j.memory.view v)) :
    prune scene ts v j
      = (.ok (if admitsAll scene ts (j.memory.view v) then v else .null), j) := by
  by_cases hts : ts = []
  · rw [hts]
    rfl
  · have hempty : ¬ts.isEmpty = true := by simpa using hts
    cases v with
    | null | list | tuple | cell => cases hv
    | _ =>
      unfold prune
      rw [if_neg hempty]
      exact Run.bind_of_ok (passes_of_decides h) _

theorem isSingle_view {v : Value} (hv : v.isSingle = true) (m : Memory) :
    (m.view v).isSingle = true := by
  cases v <;> first | rfl | cases hv

theorem items?_of_isSingle {v : Value} (hv : v.isSingle = true) : v.items? = none := by
  cases v <;> first | rfl | cases hv

theorem tested_of_isSingle {v : Value} (hv : v.isSingle = true) : v.tested = [v] := by
  cases v <;> first | rfl | cases hv

/-- Of a value without entries the value itself is left, or nothing. -/
theorem remainder_of_items?_none {v : Value} (hv : v.items? = none) :
    remainder scene ts v = if admitsAll scene ts v then v else .null := by
  cases v with
  | list | tuple => cases hv
  | null => exact (ite_self _).symm
  | _ => rfl

@[simp] theorem filter_admitsAll_nil (xs : List Value) : xs.filter (admitsAll scene []) = xs :=
  List.filter_eq_self.mpr fun _ _ => rfl

@[simp] theorem remainder_nil (v : Value) : remainder scene [] v = v := by
  have hall : admitsAll scene [] v = true := rfl
  cases v <;> simp [remainder, hall]

theorem shows_prune_of_isSingle {v : Value} (hv : v.isSingle = true)
    (hrooted : j.memory.Rooted j.memory.cells.size v)
    (hdecides : ∀ x ∈ (j.memory.view v).tested, Decides scene ts x) :
    ∃ w k, prune scene ts v j = (.ok w, k)
      ∧ k.memory.Shows w (remainder scene ts (j.memory.view v)) := by
  have hsingle := isSingle_view hv j.memory
  rw [tested_of_isSingle hsingle] at hdecides
  rw [remainder_of_items?_none (items?_of_isSingle hsingle)]
  refine ⟨_, _, prune_of_isSingle hv (hdecides _ (List.mem_singleton.mpr rfl)), ?_⟩
  split
  · exact ⟨hrooted, rfl⟩
  · exact ⟨.flat rfl, rfl⟩

/-- **Tests leave of what a value stands for what they should.** -/
theorem shows_prune {v shown : Value} (hshows : j.memory.Shows v shown)
    (hdecides : ∀ x ∈ shown.tested, Decides scene ts x) :
    ∃ w k, prune scene ts v j = (.ok w, k) ∧ k.memory.Shows w (remainder scene ts shown) := by
  obtain ⟨hrooted, rfl⟩ := hshows
  by_cases hts : ts = []
  · rw [hts, remainder_nil]
    exact ⟨v, j, rfl, hrooted, rfl⟩
  have hempty : ¬ts.isEmpty = true := by simpa using hts
  -- What is left of the entries of a list, in memory and beside it.
  have hmap : ∀ xs : List Value,
      (xs.filter fun x => admitsAll scene ts (j.memory.view x)).map j.memory.view
        = (xs.map j.memory.view).filter (admitsAll scene ts) := fun xs => by
    rw [List.filter_map]
    rfl
  have hnew : ∀ xs : List Value, (∀ x ∈ xs, j.memory.Rooted j.memory.cells.size x) →
      (∀ x ∈ xs.map j.memory.view, Decides scene ts x) →
      ∃ w k, (xs.filterM (passes scene ts) >>= fun kept => Act.remember (·.newCell kept)) j
          = (.ok w, k)
        ∧ k.memory.Shows w (.list ((xs.map j.memory.view).filter (admitsAll scene ts))) := by
    intro xs hxs hdecides
    refine ⟨_, _, Run.bind_of_ok (filterM_passes hdecides) _, ?_⟩
    rw [← hmap]
    exact Memory.shows_newCell fun x hx => hxs x (List.mem_filter.mp hx).1
  cases v with
  | cell p =>
    cases hrooted with
    | flat h => cases h
    | cell hp hitems =>
      rw [Memory.view_cell hp hitems] at hdecides ⊢
      refine ⟨_, _, prune_cell hts hdecides, ?_⟩
      rw [remainder, ← hmap]
      exact Memory.shows_setItems hp fun x hx => hitems x (List.mem_filter.mp hx).1
  | list xs =>
    cases hrooted with
    | flat h => cases h
    | list hitems =>
      rw [Memory.view_list] at hdecides ⊢
      rw [prune, if_neg hempty]
      exact hnew xs hitems hdecides
  | tuple xs =>
    cases hrooted with
    | flat h => cases h
    | tuple hitems =>
      rw [Memory.view_tuple] at hdecides ⊢
      rw [prune, if_neg hempty, remainder, if_neg hempty]
      exact hnew xs hitems hdecides
  | null =>
    rw [prune, if_neg hempty]
    exact ⟨.null, j, rfl, .flat rfl, rfl⟩
  | _ => exact shows_prune_of_isSingle rfl hrooted hdecides

/-- Tests that are made one after the other are made at once. -/
theorem remainder_remainder (ss ts : List Test) (v : Value) :
    remainder scene ts (remainder scene ss v) = remainder scene (ss ++ ts) v := by
  have hall : ∀ x, admitsAll scene (ss ++ ts) x = (admitsAll scene ts x && admitsAll scene ss x) :=
    fun x => by rw [admitsAll, List.all_append, Bool.and_comm]; rfl
  have hfilter : ∀ xs : List Value, (xs.filter (admitsAll scene ss)).filter (admitsAll scene ts)
      = xs.filter (admitsAll scene (ss ++ ts)) := fun xs => by
    rw [List.filter_filter]
    exact List.filter_congr fun x _ => (hall x).symm
  cases hv : v.items? with
  | none =>
    rw [remainder_of_items?_none hv, remainder_of_items?_none hv, hall]
    cases hss : admitsAll scene ss v with
    | true => rw [if_pos rfl, remainder_of_items?_none hv, Bool.and_true]
    | false => rw [if_neg Bool.false_ne_true, Bool.and_false]; rfl
  | some =>
    cases v with
    | list xs => rw [remainder, remainder, remainder, hfilter]
    | tuple xs =>
      cases ss with
      | nil => rfl
      | cons s ss => exact congrArg Value.list (hfilter xs)
    | _ => cases hv

/-- Tests leave no entries but those that there were. -/
theorem tested_remainder_subset (ss : List Test) (v : Value) :
    (remainder scene ss v).tested ⊆ v.tested := by
  cases hv : v.items? with
  | none =>
    rw [remainder_of_items?_none hv]
    split
    · exact List.Subset.refl _
    · exact List.nil_subset _
  | some =>
    cases v with
    | list xs => exact List.filter_sublist.subset
    | tuple xs =>
      cases ss with
      | nil => exact List.Subset.refl _
      | cons s ss => exact List.filter_sublist.subset
    | _ => cases hv

/-- The order of tests does not matter. -/
theorem remainder_perm {ss : List Test} (h : ss.Perm ts) (v : Value) :
    remainder scene ss v = remainder scene ts v := by
  have hall : admitsAll scene ss = admitsAll scene ts := funext fun x => h.all_eq
  have hempty : ss.isEmpty = ts.isEmpty := h.isEmpty_eq
  cases v <;> simp only [remainder, hall, hempty]

end Test

/-- A scene in which there is nothing. -/
def Scene.void : Scene :=
  { schema := ⟨[], [], []⟩, leaves := [], handlers := [], models := [], rows := []
    variableValues := [], defaults := [], context := .null, session := none }

namespace Chain

/-! ### Directives that never give up -/

section

variable (scene : Scene) (call : Call) {I : Option Value → Memory → Prop} {inner : Act Value}

/-- Steps that never give up run to their end, ask for their tests in turn, and keep of what came
from inside last and of the memory what each run of what is inside keeps. -/
theorem steps_of_neverRaises (awaits : Bool)
    (hinner : ∀ o j, I o j.memory → ∃ w k, inner j = (.ok w, k) ∧ I (some w) k.memory)
    {ss : List Step} (hss : ∀ s ∈ ss, s.raised? = none) (p : Progress) (j : Journal)
    (h : I p.result j.memory) :
    ∃ q k, steps scene call awaits inner p ss j = (.ok q, k) ∧ I q.result k.memory
      ∧ q.tests = p.tests ++ ss.filterMap Step.test? := by
  induction ss generalizing p j with
  | nil => exact ⟨p, j, rfl, h, (List.append_nil _).symm⟩
  | cons s ss ih =>
    have hrest := ih fun s hs => hss s (List.mem_cons_of_mem _ hs)
    rw [steps]
    cases s with
    | log v => exact hrest p _ h
    | params => exact hrest p _ h
    | resolve =>
      cases awaits with
      | false => exact hrest p j h
      | true =>
        obtain ⟨w, k, hrun, hw⟩ := hinner _ j h
        obtain ⟨q, l, hsteps, hq⟩ := hrest { p with result := some w }
          (k.write call.path [.record [("resolved", w)]]) ((k.memory_write _ _).symm ▸ hw)
        refine ⟨q, l, (Run.bind_of_ok ?_ _).trans hsteps, hq⟩
        exact (Run.bind_of_ok hrun _).trans rfl
    | filter t =>
      obtain ⟨q, k, hsteps, hq, htests⟩ := hrest { p with tests := p.tests ++ [t] } j h
      refine ⟨q, k, hsteps, hq, ?_⟩
      rw [htests, List.append_assoc]
      rfl
    | raise text => cases hss _ List.mem_cons_self

/-- A directive that never gives up tests, by all tests that it asks for, what it was given from
inside last. -/
theorem around_of_neverRaises {d : Directive} (hd : d.NeverRaises)
    (hinner : ∀ o j, I o j.memory → ∃ w k, inner j = (.ok w, k) ∧ I (some w) k.memory)
    (j : Journal) (h : I none j.memory) :
    ∃ w k, I (some w) k.memory ∧ around scene call d inner j = Test.prune scene d.tests w k := by
  obtain ⟨⟨result, tests⟩, k, hsteps, hq, htests⟩ :=
    steps_of_neverRaises scene call d.awaits hinner hd {} j h
  obtain rfl : tests = d.tests := htests
  cases result with
  | some w => exact ⟨w, k, hq, Run.bind_of_ok hsteps _⟩
  | none =>
    obtain ⟨w, l, hrun, hw⟩ := hinner none k hq
    exact ⟨w, l, hw, (Run.bind_of_ok hsteps _).trans (Run.bind_of_ok hrun _)⟩

end

/-! ### Fields that yield an equal value each time -/

variable {scene : Scene} (call : Call)

/-- Whenever it is run, something ends well with what then stands for a value. -/
def Yields (field : Act Value) (shown : Value) : Prop :=
  ∀ j, ∃ w k, field j = (.ok w, k) ∧ k.memory.Shows w shown

/-- A fixed value that is made anew for each call is such. -/
theorem yields_const {v : Value} (h : Memory.Rooted {} 0 v) :
    Yields (Script.run scene call (.const v)) v :=
  fun j => ⟨_, _, rfl, (Memory.keeps_of_rooted h j.memory).2⟩

variable {field : Act Value} {shown : Value}

/-- A directive leaves of such a value what its tests leave of it. -/
theorem yields_around {d : Directive} (hd : d.NeverRaises) (hfield : Yields field shown)
    (hdecides : ∀ x ∈ shown.tested, Test.Decides scene d.tests x) :
    Yields (around scene call d field) (Test.remainder scene d.tests shown) := by
  intro j
  obtain ⟨w, k, hshows, haround⟩ := around_of_neverRaises scene call
    (I := fun o m => ∀ w ∈ o, m.Shows w shown) hd
    (fun _ j _ => by
      obtain ⟨w, k, hrun, hw⟩ := hfield j
      exact ⟨w, k, hrun, fun _ h => Option.some.inj h ▸ hw⟩)
    j (fun _ h => nomatch h)
  obtain ⟨v, l, hprune, hv⟩ := Test.shows_prune (hshows w rfl) hdecides
  exact ⟨v, l, haround.trans hprune, hv⟩

/-- Directives leave of such a value what all of their tests leave of it. -/
theorem yields_run {ds : List Directive} (hds : ∀ d ∈ ds, d.NeverRaises)
    (hfield : Yields field shown)
    (hdecides : ∀ x ∈ shown.tested, Test.Decides scene (ds.flatMap Directive.tests) x) :
    Yields (run scene call ds field)
      (Test.remainder scene (ds.flatMap Directive.tests) shown) := by
  induction ds with
  | nil => rwa [List.flatMap_nil, Test.remainder_nil]
  | cons d ds ih =>
    rw [List.flatMap_cons] at hdecides ⊢
    have hinner := ih (fun e he => hds e (List.mem_cons_of_mem d he))
      fun x hx => (hdecides x hx).mono (List.subset_append_right _ _)
    rw [Test.remainder_perm List.perm_append_comm, ← Test.remainder_remainder]
    refine yields_around call (hds d List.mem_cons_self) hinner fun x hx => ?_
    exact (hdecides x (Test.tested_remainder_subset _ _ hx)).mono (List.subset_append_left _ _)

/-- **What a field yields under tests.** Around a field that yields an equal value each time, a
chain of directives that never give up yields an equal value each time too, and the same one
whatever the order of the directives. Of a list or fixed sequence it has those entries that every
test of every directive accepts, in their order and as often as they were there; null is left as
it is; and any other value is there if all tests accept it, and else null is. -/
theorem yields_run_of_perm {ds : List Directive} (hds : ∀ d ∈ ds, d.NeverRaises)
    (hfield : Yields field shown)
    (hdecides : ∀ x ∈ shown.tested, Test.Decides scene (ds.flatMap Directive.tests) x) :
    ∃ left, (∀ ds', ds'.Perm ds → Yields (run scene call ds' field) left)
      ∧ (∀ xs, shown.items? = some xs → left.items? = some (xs.filter fun x =>
          ds.all fun d => d.tests.all fun t => t.admits scene x))
      ∧ (shown = .null → left = .null)
      ∧ (shown.items? = none → left = if (ds.all fun d => d.tests.all fun t => t.admits scene shown)
          then shown else .null) := by
  have hall : ∀ x, Test.admitsAll scene (ds.flatMap Directive.tests) x
      = ds.all fun d => d.tests.all fun t => t.admits scene x := fun x => List.all_flatMap
  refine ⟨Test.remainder scene (ds.flatMap Directive.tests) shown, ?_, ?_, ?_, ?_⟩
  · intro ds' hperm
    have htests : (ds'.flatMap Directive.tests).Perm (ds.flatMap Directive.tests) :=
      hperm.flatMap_right _
    rw [← Test.remainder_perm htests]
    exact yields_run call (fun d hd => hds d (hperm.subset hd)) hfield
      fun x hx => (hdecides x hx).mono htests.subset
  · intro xs hxs
    simp only [← hall]
    cases shown with
    | list ys => cases hxs; rfl
    | tuple ys =>
      cases hxs
      rw [Test.remainder]
      split
      · rename_i hempty
        rw [List.isEmpty_iff.mp hempty, Test.filter_admitsAll_nil]
        rfl
      · rfl
    | _ => cases hxs
  · rintro rfl
    rfl
  · intro hnone
    rw [Test.remainder_of_items?_none hnone, hall]

/-- A directive that asks for tests before and after each of the two runs of what is inside. -/
private def eager : Directive :=
  ⟨"eager", [], [.filter (.notIn (.list [.int 1])), .resolve, .filter (.const (.int 5)), .resolve,
    .filter (.notIn (.list [.int 4]))], true⟩

/-- A directive that asks for a test and does not run what is inside by itself. -/
private def shy : Directive := ⟨"shy", [], [.filter (.notIn (.tuple [.int 3]))], false⟩

/-- Two directives that together turn down 1, 3 and 4, in either order. -/
theorem yields_run_of_perm_pair :
    (∀ d ∈ [eager, shy], d.NeverRaises)
    ∧ (∀ call, Yields (Script.run .void call
        (.const (.list [.int 1, .int 2, .int 3, .int 2, .int 4])))
          (.list [.int 1, .int 2, .int 3, .int 2, .int 4]))
    ∧ ∀ call, ∃ left, left.items? = some [.int 2, .int 2]
      ∧ ∀ ds ∈ [[eager, shy], [shy, eager]], Yields (run .void call ds
          (Script.run .void call (.const (.list [.int 1, .int 2, .int 3, .int 2, .int 4]))))
          left := by
  have hds : ∀ d ∈ [eager, shy], d.NeverRaises := by
    unfold Directive.NeverRaises
    decide
  have hflat : ∀ x ∈ [Value.int 1, .int 2, .int 3, .int 2, .int 4], x.isFlat = true := by decide
  have hrooted : Memory.Rooted {} 0 (.list [.int 1, .int 2, .int 3, .int 2, .int 4]) :=
    .list fun x hx => .flat (hflat x hx)
  have hdecides : ∀ x ∈ [Value.int 1, .int 2, .int 3, .int 2, .int 4],
      Test.Decides .void ([eager, shy].flatMap Directive.tests) x := by
    unfold Test.Decides
    decide
  refine ⟨hds, fun call => yields_const call hrooted, fun call => ?_⟩
  obtain ⟨left, hleft, hitems, -⟩ := yields_run_of_perm call hds (yields_const call hrooted)
    hdecides
  refine ⟨left, hitems _ rfl, fun ds hmem => hleft ds ?_⟩
  obtain rfl | rfl : ds = [eager, shy] ∨ ds = [shy, eager] := by simpa using hmem
  · exact .refl _
  · exact .swap _ _ _

end Chain
end SchemaForge
