import Mathlib.Data.List.TakeWhile
import SchemaForge.Execution.Completion
import SchemaForge.Proofs.Outcome

/-!
# Directives that block a field

A directive blocks its field when it gives up before it runs what is inside of it. Then
nothing inside of it runs, the directives around it stop where they first run what is
inside of them, nothing is tested, and the field fails as the directive did. The outcome
is spelled out: the failure, and a journal that differs from the one before only by what
the directives up to the blocking one write until then. It mentions neither the
directives further inside nor the field itself nor any test.
-/
namespace SchemaForge

open Language

namespace Step

/-- Whether a step runs what is inside of its directive, which only one that waits can. -/
def enters (awaits : Bool) : Step → Bool
  | resolve => awaits
  | _ => false

/-- The text with which a step gives up. -/
def raised? : Step → Option String
  | raise text => some text
  | _ => none

end Step

namespace Directive

/-- The steps of a directive before it first runs what is inside of it: all of them if it
never does. -/
def opening (d : Directive) : List Step := d.steps.takeWhile fun s => !s.enters d.awaits

/-- The text with which a directive gives up before it runs what is inside of it. -/
def blocks? (d : Directive) : Option String := d.opening.findSome? Step.raised?

end Directive

namespace Journal

/-- A journal with further entries at a place, each as its value is now. -/
def write (j : Journal) (path : Path) (vs : List Value) : Journal :=
  vs.foldl (fun j v =>
    { j with trace := j.trace.update path.text [] (· ++ [j.memory.view v]) }) j

@[simp] theorem write_nil (j : Journal) (path : Path) : j.write path [] = j := rfl

theorem write_append (j : Journal) (path : Path) (vs ws : List Value) :
    j.write path (vs ++ ws) = (j.write path vs).write path ws := by
  simp only [write, List.foldl_append]

/-- Writing leaves what is kept as it is. -/
@[simp] theorem memory_write (j : Journal) (path : Path) (vs : List Value) :
    (j.write path vs).memory = j.memory := by
  induction vs generalizing j with
  | nil => rfl
  | cons v vs ih =>
    rw [show j.write path (v :: vs) = (j.write path [v]).write path vs from
      write_append j path [v] vs, ih]
    rfl

/-- Writing reports nothing. -/
@[simp] theorem mishaps_write (j : Journal) (path : Path) (vs : List Value) :
    (j.write path vs).mishaps = j.mishaps := by
  induction vs generalizing j with
  | nil => rfl
  | cons v vs ih =>
    rw [show j.write path (v :: vs) = (j.write path [v]).write path vs from
      write_append j path [v] vs, ih]
    rfl

end Journal

namespace Chain

variable (scene : Scene) (call : Call)

/-- What a step writes by itself. -/
def noted? : Step → Option Value
  | .log v => some v
  | .params => some (parameters scene call)
  | _ => none

/-- What a directive writes before it first runs what is inside of it or gives up. -/
def written (d : Directive) : List Value :=
  (d.opening.takeWhile fun s => s.raised?.isNone).filterMap (noted? scene call)

/-- A directive around what is inside of it, with any way to test the value. -/
def aroundWith (prune : List Test → Value → Act Value) (d : Directive) (inner : Act Value) :
    Act Value := do
  let p ← steps scene call d.awaits inner {} d.steps
  let v ← match p.result with
    | some v => pure v
    | none => inner
  prune p.tests v

/-- The directives of a field around it, with any way to test values. -/
def runWith (prune : List Test → Value → Act Value) (directives : List Directive)
    (field : Act Value) : Act Value :=
  directives.foldr (aroundWith scene call prune) field

theorem run_eq_runWith (directives : List Directive) (field : Act Value) :
    run scene call directives field = runWith scene call (Test.prune scene) directives field := rfl

/-- A step that neither runs what is inside nor gives up leaves the rest to run. -/
theorem steps_cons (awaits : Bool) (inner : Act Value) {s : Step}
    (he : s.enters awaits = false) (hr : s.raised? = none) (p : Progress) (ss : List Step)
    (j : Journal) :
    ∃ q : Progress, q.result = p.result ∧ steps scene call awaits inner p (s :: ss) j
      = steps scene call awaits inner q ss (j.write call.path (noted? scene call s).toList) := by
  cases s with
  | log v => exact ⟨p, rfl, rfl⟩
  | params => exact ⟨p, rfl, rfl⟩
  | resolve =>
    obtain rfl : awaits = false := he
    exact ⟨p, rfl, rfl⟩
  | filter t => exact ⟨{ p with tests := p.tests ++ [t] }, rfl, rfl⟩
  | raise text => cases hr

/-- Steps that give up before they run what is inside write what stands before, and fail. -/
theorem steps_of_raised (awaits : Bool) (inner : Act Value) {text : String} {ss : List Step}
    (p : Progress) (j : Journal)
    (h : (ss.takeWhile fun s => !s.enters awaits).findSome? Step.raised? = some text) :
    steps scene call awaits inner p ss j = (.error (.script text),
      j.write call.path (((ss.takeWhile fun s => !s.enters awaits).takeWhile
        fun s => s.raised?.isNone).filterMap (noted? scene call))) := by
  induction ss generalizing p j with
  | nil => cases h
  | cons s ss ih =>
    have he : s.enters awaits = false := by
      cases he : s.enters awaits with
      | false => rfl
      | true => rw [List.takeWhile_cons_of_neg (by simp [he])] at h; cases h
    rw [List.takeWhile_cons_of_pos (by simpa using he)] at h ⊢
    rw [List.findSome?_cons] at h
    cases hr : s.raised? with
    | some t =>
      obtain rfl : t = text := by rw [hr] at h; exact Option.some.inj h
      cases s <;> simp only [Step.raised?, reduceCtorEq, Option.some.injEq] at hr
      subst hr
      rfl
    | none =>
      rw [hr] at h
      obtain ⟨q, -, hq⟩ := steps_cons scene call awaits inner he hr p ss j
      rw [hq, ih q _ h, List.takeWhile_cons_of_pos (by simp [hr])]
      cases hv : noted? scene call s with
      | none => rw [List.filterMap_cons_none hv]; rfl
      | some v => rw [List.filterMap_cons_some hv]; rfl

/-- Steps that do not give up before they run what is inside come to the first that does,
or to their end, with nothing from inside at hand yet. -/
theorem steps_of_not_raised (awaits : Bool) (inner : Act Value) {ss : List Step}
    (p : Progress) (j : Journal)
    (h : (ss.takeWhile fun s => !s.enters awaits).findSome? Step.raised? = none) :
    ∃ q : Progress, q.result = p.result ∧ steps scene call awaits inner p ss j
      = steps scene call awaits inner q (ss.dropWhile fun s => !s.enters awaits)
          (j.write call.path ((ss.takeWhile fun s => !s.enters awaits).filterMap
            (noted? scene call))) := by
  induction ss generalizing p j with
  | nil => exact ⟨p, rfl, rfl⟩
  | cons s ss ih =>
    cases he : s.enters awaits with
    | true =>
      rw [List.takeWhile_cons_of_neg (by simp [he]), List.dropWhile_cons_of_neg (by simp [he])]
      exact ⟨p, rfl, rfl⟩
    | false =>
      rw [List.takeWhile_cons_of_pos (by simp [he])] at h ⊢
      rw [List.dropWhile_cons_of_pos (by simp [he])]
      rw [List.findSome?_cons] at h
      have hr : s.raised? = none := by
        cases hr : s.raised? with
        | none => rfl
        | some t => rw [hr] at h; cases h
      rw [hr] at h
      obtain ⟨q, hres, hq⟩ := steps_cons scene call awaits inner he hr p ss j
      obtain ⟨q', hres', hq'⟩ := ih q (j.write call.path (noted? scene call s).toList) h
      refine ⟨q', hres'.trans hres, ?_⟩
      rw [hq, hq']
      cases hv : noted? scene call s with
      | none => rw [List.filterMap_cons_none hv]; rfl
      | some v => rw [List.filterMap_cons_some hv]; rfl

variable (prune : List Test → Value → Act Value)

/-- A blocking directive fails without what is inside of it. -/
theorem aroundWith_of_blocks {d : Directive} {text : String} (h : d.blocks? = some text)
    (inner : Act Value) (j : Journal) : aroundWith scene call prune d inner j =
      (.error (.script text), j.write call.path (written scene call d)) :=
  Run.bind_of_error (steps_of_raised scene call d.awaits inner {} j h) _

/-- What is inside of a directive that does not block runs where the directive first runs
it, and a failure there is that of the directive. -/
theorem aroundWith_of_error {d : Directive} (h : d.blocks? = none) {inner : Act Value}
    {j k : Journal} {e : Failure}
    (hi : inner (j.write call.path (written scene call d)) = (.error e, k)) :
    aroundWith scene call prune d inner j = (.error e, k) := by
  obtain ⟨q, hres, hq⟩ := steps_of_not_raised scene call d.awaits inner {} j h
  have hw : (d.steps.takeWhile fun s => !s.enters d.awaits).filterMap (noted? scene call)
      = written scene call d := by
    have hall : ∀ s ∈ d.opening, s.raised?.isNone = true := fun s hs => by
      simpa using List.findSome?_eq_none_iff.mp h s hs
    rw [written, List.takeWhile_eq_self_iff.mpr hall]
    rfl
  rw [hw] at hq
  cases hd : d.steps.dropWhile fun s => !s.enters d.awaits with
  | nil =>
    -- it has run all its steps, and what is inside comes after them
    rw [hd] at hq
    refine (Run.bind_of_ok hq _).trans ?_
    rw [show q.result = none from hres]
    exact Run.bind_of_error hi _
  | cons s ss =>
    have hs : s.enters d.awaits = true := by
      have := List.head?_dropWhile_not (fun s => !s.enters d.awaits) d.steps
      rw [hd] at this
      simpa using this
    have ha : d.awaits = true ∧ s = .resolve := by
      cases s <;> simp_all [Step.enters]
    rw [hd, ha.1, ha.2] at hq
    rw [← ha.1] at hq
    refine Run.bind_of_error (hq.trans (Run.bind_of_error ?_ _)) _
    simp only [step, ha.1, if_true]
    exact Run.bind_of_error hi _

/-- The outcome of a chain with a blocking directive behind others that do not block. -/
theorem runWith_of_blocks {before : List Directive} {d : Directive} {text : String}
    (hb : ∀ e ∈ before, e.blocks? = none) (hd : d.blocks? = some text)
    (after : List Directive) (field : Act Value) (j : Journal) :
    runWith scene call prune (before ++ d :: after) field j = (.error (.script text),
      j.write call.path ((before ++ [d]).flatMap (written scene call))) := by
  induction before generalizing j with
  | nil =>
    rw [List.nil_append, List.nil_append, List.flatMap_singleton]
    exact aroundWith_of_blocks scene call prune hd _ j
  | cons e before ih =>
    refine aroundWith_of_error scene call prune (hb e (by simp)) ?_
    rw [List.cons_append, List.flatMap_cons, Journal.write_append]
    exact ih (fun x hx => hb x (by simp [hx])) _

/-- **A blocked field fails as its first blocking directive does.** Nothing depends on the
directives after it, on the field, or on how values would be tested; of the directives
before it only what they write before they first run what is inside of them is left. The
job of the field is lost to that failure. -/
theorem run_of_blocks {before : List Directive} {d : Directive} {text : String}
    (hb : ∀ e ∈ before, e.blocks? = none) (hd : d.blocks? = some text)
    (after : List Directive) (j : Journal) :
    (∀ (test : List Test → Value → Act Value) (field : Act Value),
      runWith scene call test (before ++ d :: after) field j = (.error (.script text),
        j.write call.path ((before ++ [d]).flatMap (written scene call))))
    ∧ (∀ field : Act Value, run scene call (before ++ d :: after) field j =
        (.error (.script text),
          j.write call.path ((before ++ [d]).flatMap (written scene call))))
    ∧ ∀ (type : TypeRef) (yield : Yield) (levels : Nat),
        Completion.runJob scene ⟨type, ⟨yield, before ++ d :: after⟩, call, levels⟩ j =
          (.error ⟨call.path, .script text⟩,
            j.write call.path ((before ++ [d]).flatMap (written scene call))) := by
  have hrun : ∀ field : Act Value, run scene call (before ++ d :: after) field j =
      (.error (.script text),
        j.write call.path ((before ++ [d]).flatMap (written scene call))) := by
    intro field
    rw [run_eq_runWith]
    exact runWith_of_blocks scene call _ hb hd after field j
  refine ⟨fun test field => runWith_of_blocks scene call test hb hd after field j, hrun, ?_⟩
  intro type yield levels
  refine Run.bind_of_error ?_ _
  simp only [Grow.placed, Completion.fieldValue]
  rw [hrun]

/-- A scene without anything in it. -/
private def emptyScene : Scene :=
  { schema := ⟨[], [], []⟩, leaves := [], handlers := [], models := [], rows := []
    variableValues := [], defaults := [], context := .null, session := none }

/-- A directive that writes, asks for a test, runs what is inside, and writes again. -/
private def curious : Directive :=
  ⟨"curious", [], [.log (.int 1), .filter (.const (.bool false)), .resolve, .log (.int 2)], true⟩

/-- A directive that writes and gives up before it runs what is inside. -/
private def denying : Directive :=
  ⟨"auth", [], [.log (.int 3), .raise "denied", .resolve], true⟩

/-- Inside a directive that would look at the value and write again, one that denies
access leaves the two entries that were written before, and the failure. -/
theorem run_of_blocks_denied :
    (∀ e ∈ [curious], e.blocks? = none) ∧ denying.blocks? = some "denied"
    ∧ ∀ (after : List Directive) (field : Act Value),
        run emptyScene ⟨[.key "secret"], "secret", .null, [], []⟩ (curious :: denying :: after)
          field ⟨{}, [], []⟩ =
            (.error (.script "denied"), ⟨{}, [("secret", [.int 1, .int 3])], []⟩) := by
  have hb : ∀ e ∈ [curious], e.blocks? = none := by
    intro e he
    rw [List.mem_singleton.mp he]
    rfl
  have hd : denying.blocks? = some "denied" := rfl
  refine ⟨hb, hd, fun after field => ?_⟩
  exact (run_of_blocks emptyScene ⟨[.key "secret"], "secret", .null, [], []⟩ hb hd after
    ⟨{}, [], []⟩).2.1 field

end Chain
end SchemaForge
