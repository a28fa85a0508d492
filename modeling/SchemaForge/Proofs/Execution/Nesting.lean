import Mathlib.Algebra.BigOperators.Group.List.Basic
import SchemaForge.Proofs.Execution.Blocking

/-!
# Runs inside of runs

A directive can run what is inside of it any number of times, and each of these runs goes through
all further directives down to the field. To tell the runs apart the chain is watched: an observer
is told when a directive starts, when it has taken its last step, and when the field is run. To an
observer that does nothing the chain is as it was.

Where directives only watch, a chain does a fixed list of things one after the other, whatever the
observer does. In it the runs multiply from directive to directive, and lie inside of each other
as the directives do; one that does not run what is inside of it is done before that starts.
-/
namespace SchemaForge

open Language

namespace Step

/-- Whether a step neither gives up nor asks for a test. -/
def watches : Step → Bool
  | filter _ | raise _ => false
  | _ => true

end Step

namespace Directive

/-- A directive that only watches neither gives up nor asks for a test. -/
def OnlyWatches (d : Directive) : Prop := ∀ s ∈ d.steps, s.watches = true

/-- How often a directive runs what is inside of it by itself. -/
def resolves (d : Directive) : Nat := d.steps.countP (·.enters d.awaits)

end Directive

namespace Chain

/-- What an observer of a chain is told. -/
inductive Event where
  /-- A directive starts. -/
  | start (i : Nat)
  /-- A directive has taken its last step. -/
  | stop (i : Nat)
  /-- The field is run. -/
  | field
  deriving DecidableEq

/-- What a chain does at a time. -/
inductive Doing where
  /-- It comes to an event. -/
  | event (e : Event)
  /-- A directive writes a value. -/
  | write (v : Value)
  /-- A directive writes what it was given from inside. -/
  | report

section

variable (scene : Scene) (call : Call) (tell : Event → Act Unit) (field : Act Value)

/-- The directives from an index on around the field, with an observer. -/
def watched : Nat → List Directive → Act Value
  | _, [] => do
    tell .field
    field
  | i, d :: ds => do
    tell (.start i)
    let p ← steps scene call d.awaits (watched (i + 1) ds) {} d.steps
    tell (.stop i)
    let v ← match p.result with
      | some v => pure v
      | none => watched (i + 1) ds
    Test.prune scene p.tests v

/-- To an observer that does nothing a chain is as it was. -/
theorem watched_silent (i : Nat) (ds : List Directive) :
    watched scene call (fun _ => pure ()) field i ds = run scene call ds field := by
  induction ds generalizing i with
  | nil => rfl
  | cons d ds ih =>
    rw [watched, ih (i + 1), pure_bind]
    simp only [pure_bind]
    rfl

/-- Do one thing, given what the field yielded last. -/
def Doing.perform (v : Value) : Doing → Act Value
  | event e => do
    tell e
    if e = .field then field else return v
  | write w => do
    Act.record call.path w
    return v
  | report => do
    Act.record call.path (.record [("resolved", v)])
    return v

/-- Do several things one after the other. What comes out is what the field yielded last. -/
def perform (v : Value) (doings : List Doing) : Act Value :=
  doings.foldlM (Doing.perform call tell field) v

/-- What a step does, given what is done inside of its directive. -/
def doingsOfStep (awaits : Bool) (inner : List Doing) : Step → List Doing
  | .log v => [.write v]
  | .params => [.write (parameters scene call)]
  | .resolve => if awaits then inner ++ [.report] else []
  | _ => []

/-- What the directives from an index on do around the field. -/
def doings : Nat → List Directive → List Doing
  | _, [] => [.event .field]
  | i, d :: ds =>
    .event (.start i) :: d.steps.flatMap (doingsOfStep scene call d.awaits (doings (i + 1) ds))
      ++ .event (.stop i) :: (if d.resolves = 0 then doings (i + 1) ds else [])

variable {scene call tell field}

@[simp] theorem perform_nil (v : Value) : perform call tell field v [] = pure v := rfl

@[simp] theorem perform_cons (v : Value) (d : Doing) (ds : List Doing) :
    perform call tell field v (d :: ds)
      = Doing.perform call tell field v d >>= fun w => perform call tell field w ds :=
  List.foldlM_cons

@[simp] theorem perform_append (v : Value) (ds es : List Doing) :
    perform call tell field v (ds ++ es)
      = perform call tell field v ds >>= fun w => perform call tell field w es :=
  List.foldlM_append

/-- The steps of a directive that only watches do what they stand for. -/
theorem steps_eq_perform {awaits : Bool} {inner : Act Value} {ds : List Doing}
    (hinner : ∀ v, perform call tell field v ds = inner) {ss : List Step}
    (hss : ∀ s ∈ ss, s.watches = true) (p : Progress) (v : Value) :
    steps scene call awaits inner p ss = (do
      let w ← perform call tell field (p.result.getD v)
        (ss.flatMap (doingsOfStep scene call awaits ds))
      return { p with
        result := if p.result.isSome || ss.any (·.enters awaits) then some w else none }) := by
  induction ss generalizing p v with
  | nil =>
    obtain ⟨result, tests⟩ := p
    cases result <;> simp [steps]
  | cons s ss ih =>
    have hrest := ih fun s hs => hss s (List.mem_cons_of_mem _ hs)
    rw [steps, List.flatMap_cons, List.any_cons, perform_append]
    cases s with
    | log w => simp [step, doingsOfStep, Doing.perform, Step.enters, hrest p v]
    | params => simp [step, doingsOfStep, Doing.perform, Step.enters, hrest p v]
    | resolve =>
      cases awaits with
      | false => simp [step, doingsOfStep, Step.enters, hrest p v]
      | true => simp [step, doingsOfStep, Doing.perform, Step.enters, hinner, hrest _ v]
    | filter t => cases hss _ List.mem_cons_self
    | raise text => cases hss _ List.mem_cons_self

/-- **A chain of directives that only watch does a fixed list of things**, whatever the observer
does, and gives what the field yielded last. -/
theorem watched_eq_perform {ds : List Directive} (h : ∀ d ∈ ds, d.OnlyWatches) (i : Nat)
    (v : Value) :
    watched scene call tell field i ds
      = perform call tell field v (doings scene call i ds) := by
  induction ds generalizing i v with
  | nil => simp [watched, doings, Doing.perform]
  | cons d ds ih =>
    have hinner : ∀ v, perform call tell field v (doings scene call (i + 1) ds)
        = watched scene call tell field (i + 1) ds :=
      fun v => (ih (fun e he => h e (List.mem_cons_of_mem _ he)) (i + 1) v).symm
    rw [watched, doings, steps_eq_perform hinner (h d List.mem_cons_self) {} v]
    have hany : d.steps.any (·.enters d.awaits) = decide (d.resolves ≠ 0) := by
      rw [Bool.eq_iff_iff, List.any_eq_true, decide_eq_true_iff, Directive.resolves,
        Nat.ne_zero_iff_zero_lt, List.countP_pos_iff]
    by_cases hd : d.resolves = 0
    · simp [hany, hd, Doing.perform, hinner, Test.prune]
    · simp [hany, hd, Doing.perform, Test.prune]

variable (call)

/-- Without observers, what is done to the end does not fail unless the field does. -/
theorem perform_eq_ok (hfield : ∀ j, ∃ v k, field j = (.ok v, k)) (v : Value) (ds : List Doing)
    (j : Journal) :
    ∃ w k, perform call (fun _ => pure ()) field v ds j = (.ok w, k) := by
  induction ds generalizing v j with
  | nil => exact ⟨v, j, rfl⟩
  | cons d ds ih =>
    rw [perform_cons]
    have hfirst : ∃ w k, Doing.perform call (fun _ => pure ()) field v d j = (.ok w, k) := by
      cases d with
      | event e =>
        rw [Doing.perform, pure_bind]
        split
        · exact hfield j
        · exact ⟨v, j, rfl⟩
      | write w => exact ⟨_, _, rfl⟩
      | report => exact ⟨_, _, rfl⟩
    obtain ⟨w, k, hfirst⟩ := hfirst
    rw [Run.bind_of_ok hfirst]
    exact ih w k

variable (field)

/-- What is done without the field gives what was there before. -/
theorem perform_of_not_mem {ds : List Doing} (h : .event .field ∉ ds) (v : Value) (j : Journal) :
    ∃ k, perform call (fun _ => pure ()) field v ds j = (.ok v, k) := by
  induction ds generalizing j with
  | nil => exact ⟨j, rfl⟩
  | cons d ds ih =>
    rw [perform_cons]
    have hfirst : ∃ k, Doing.perform call (fun _ => pure ()) field v d j = (.ok v, k) := by
      cases d with
      | event e =>
        have he : e ≠ .field := fun he => h (he ▸ List.mem_cons_self)
        rw [Doing.perform, pure_bind, if_neg he]
        exact ⟨j, rfl⟩
      | write w => exact ⟨_, rfl⟩
      | report => exact ⟨_, rfl⟩
    obtain ⟨k, hfirst⟩ := hfirst
    rw [Run.bind_of_ok hfirst]
    exact ih (fun hd => h (List.mem_cons_of_mem _ hd)) k

end

/-! ### What an observer is told -/

/-- The event that a thing is, if it is one. -/
def Doing.event? : Doing → Option Event
  | event e => some e
  | _ => none

/-- What an observer is told of directives from an index on, given how often each runs what is
inside of it by itself. -/
def events : Nat → List Nat → List Event
  | _, [] => [.field]
  | i, k :: ks =>
    .start i :: (List.replicate k (events (i + 1) ks)).flatten
      ++ .stop i :: (if k = 0 then events (i + 1) ks else [])

/-- Nothing else is told than how often directives run what is inside of them. -/
theorem filterMap_doings (scene : Scene) (call : Call) (i : Nat) (ds : List Directive) :
    (doings scene call i ds).filterMap Doing.event? = events i (ds.map Directive.resolves) := by
  induction ds generalizing i with
  | nil => rfl
  | cons d ds ih =>
    have hsteps : ∀ ss : List Step,
        (ss.flatMap (doingsOfStep scene call d.awaits (doings scene call (i + 1) ds))).filterMap
          Doing.event? = (List.replicate (ss.countP (·.enters d.awaits))
            (events (i + 1) (ds.map Directive.resolves))).flatten := by
      intro ss
      induction ss with
      | nil => rfl
      | cons s ss ihs =>
        rw [List.flatMap_cons, List.filterMap_append, ihs, List.countP_cons]
        cases s with
        | resolve =>
          cases hd : d.awaits with
          | false => simp [doingsOfStep, Step.enters]
          | true =>
            simp [doingsOfStep, Step.enters, ih (i + 1), Doing.event?, List.replicate_succ]
        | _ => simp [doingsOfStep, Step.enters, Doing.event?]
    have hown := hsteps d.steps
    rw [← Directive.resolves] at hown
    simp only [doings, List.map_cons, events, List.filterMap_cons, List.filterMap_append,
      List.cons_append, Doing.event?, hown]
    split
    · rw [ih (i + 1)]
    · rfl

section

variable {ks : List Nat}

/-- A run of what is inside counts as often as it is made. -/
theorem count_events_cons {e : Event} {i : Nat} (hstart : e ≠ .start i) (hstop : e ≠ .stop i)
    (k : Nat) (ks : List Nat) :
    (events i (k :: ks)).count e = max 1 k * (events (i + 1) ks).count e := by
  have hflatten : ∀ n, (List.replicate n (events (i + 1) ks)).flatten.count e
      = n * (events (i + 1) ks).count e := by
    intro n
    rw [List.count_flatten, List.map_replicate, List.sum_replicate_nat]
  rw [events, List.count_append, List.count_cons_of_ne hstart.symm, hflatten,
    List.count_cons_of_ne hstop.symm]
  split
  · rename_i hk
    rw [hk, Nat.zero_mul, Nat.zero_add, Nat.max_eq_left (Nat.zero_le 1), Nat.one_mul]
  · rename_i hk
    rw [List.count_nil, Nat.add_zero, Nat.max_eq_right (Nat.one_le_iff_ne_zero.mpr hk)]

/-- The field is run as often as the directives make it together. -/
theorem count_field (i : Nat) (ks : List Nat) :
    (events i ks).count .field = (ks.map (max 1)).prod := by
  induction ks generalizing i with
  | nil => rfl
  | cons k ks ih =>
    rw [count_events_cons (by simp) (by simp), ih, List.map_cons, List.prod_cons]

/-- Directives further outside are not told of. -/
theorem count_outside {i l : Nat} (h : l < i) (ks : List Nat) :
    (events i ks).count (.start l) = 0 ∧ (events i ks).count (.stop l) = 0 := by
  induction ks generalizing i with
  | nil => exact ⟨rfl, rfl⟩
  | cons k ks ih =>
    obtain ⟨hstart, hstop⟩ := ih (Nat.lt_succ_of_lt h)
    have hne : l ≠ i := Nat.ne_of_lt h
    rw [count_events_cons (by simpa using hne) (by simp), hstart,
      count_events_cons (by simp) (by simpa using hne), hstop]
    exact ⟨Nat.mul_zero _, Nat.mul_zero _⟩

/-- A directive starts and stops as often as those outside of it make it together. -/
theorem count_directive {j : Nat} (h : j < ks.length) (i : Nat) :
    (events i ks).count (.start (i + j)) = ((ks.take j).map (max 1)).prod
      ∧ (events i ks).count (.stop (i + j)) = ((ks.take j).map (max 1)).prod := by
  induction ks generalizing i j with
  | nil => cases h
  | cons k ks ih =>
    cases j with
    | zero =>
      obtain ⟨hstart, hstop⟩ := count_outside (Nat.lt_succ_self i) ks
      have hflatten : ∀ e, (events (i + 1) ks).count e = 0 →
          (List.replicate k (events (i + 1) ks)).flatten.count e = 0 := by
        intro e he
        rw [List.count_flatten, List.map_replicate, he, List.sum_replicate_nat, Nat.mul_zero]
      constructor
      · rw [events, Nat.add_zero, List.count_append, List.count_cons_self, hflatten _ hstart,
          List.count_cons_of_ne (by simp)]
        split <;> simp [hstart]
      · rw [events, Nat.add_zero, List.count_append, List.count_cons_of_ne (by simp),
          hflatten _ hstop, List.count_cons_self]
        split <;> simp [hstop]
    | succ j =>
      obtain ⟨hstart, hstop⟩ := ih (Nat.lt_of_succ_lt_succ h) (i + 1)
      have hindex : i + (j + 1) = i + 1 + j := by omega
      have hne : i + 1 + j ≠ i := by omega
      rw [hindex, count_events_cons (by simpa using hne) (by simp), hstart,
        count_events_cons (by simp) (by simpa using hne), hstop, List.take_succ_cons,
        List.map_cons, List.prod_cons]
      exact ⟨rfl, rfl⟩

/-- The directives before an index that run what is inside of them by themselves, from the
innermost to the outermost. -/
def enclosing (ks : List Nat) (i : Nat) : List Nat :=
  ((List.range i).filter fun j => ks[j]? ≠ some 0).reverse

/-- Whether runs lie inside of each other as the directives do, given those that are within their
steps: a directive starts, and the field is run, where exactly those outside of it are within
theirs that run it by themselves; and only the innermost one stops. -/
def Nested (ks : List Nat) : List Nat → List Event → Prop
  | within, [] => within = []
  | within, .start i :: es => within = enclosing ks i ∧ Nested ks (i :: within) es
  | within, .stop i :: es => ∃ outer, within = i :: outer ∧ Nested ks outer es
  | within, .field :: es => within = enclosing ks ks.length ∧ Nested ks within es

theorem enclosing_succ (ks : List Nat) (i : Nat) :
    enclosing ks (i + 1) = if ks[i]? = some 0 then enclosing ks i else i :: enclosing ks i := by
  rw [enclosing, List.range_succ, List.filter_append, List.reverse_append]
  split
  · rename_i hk
    simp [hk, enclosing]
  · rename_i hk
    simp [hk, enclosing]

/-- Several runs of what is inside are nested if one is. -/
theorem nested_replicate_append {within : List Nat} {inner es : List Event}
    (hinner : ∀ {es}, Nested ks within es → Nested ks within (inner ++ es))
    (h : Nested ks within es) (n : Nat) :
    Nested ks within ((List.replicate n inner).flatten ++ es) := by
  induction n with
  | zero => exact h
  | succ n ih =>
    rw [List.replicate_succ, List.flatten_cons, List.append_assoc]
    exact hinner ih

/-- The runs of the directives from an index on are nested, whatever nested runs come after. -/
theorem nested_events_append {rest : List Nat} {i : Nat} (hi : i ≤ ks.length)
    (hrest : ks.drop i = rest) {es : List Event} (h : Nested ks (enclosing ks i) es) :
    Nested ks (enclosing ks i) (events i rest ++ es) := by
  induction rest generalizing i es with
  | nil =>
    have hlength : i = ks.length := Nat.le_antisymm hi (List.drop_eq_nil_iff.mp hrest)
    exact ⟨congrArg (enclosing ks) hlength, h⟩
  | cons k rest ih =>
    have hk : ks[i]? = some k := by rw [← List.head?_drop, hrest, List.head?_cons]
    have hlt : i < ks.length := (List.getElem?_eq_some_iff.mp hk).1
    have hinner : ∀ {es}, Nested ks (enclosing ks (i + 1)) es →
        Nested ks (enclosing ks (i + 1)) (events (i + 1) rest ++ es) :=
      ih hlt (by rw [← List.tail_drop, hrest, List.tail_cons])
    rw [enclosing_succ, hk] at hinner
    rw [events, List.cons_append, List.cons_append, List.append_assoc, List.cons_append]
    refine ⟨rfl, ?_⟩
    by_cases hzero : k = 0
    · -- It has stopped before what is inside of it starts.
      rw [hzero, if_pos rfl] at hinner
      rw [hzero, if_pos rfl]
      exact ⟨_, rfl, hinner h⟩
    · rw [if_neg (by simpa using hzero)] at hinner
      rw [if_neg hzero]
      have hstop : Nested ks (i :: enclosing ks i) (.stop i :: es) := ⟨_, rfl, h⟩
      exact nested_replicate_append hinner hstop k

/-- A directive that does not run what is inside of it stops before anything else happens. -/
theorem stop_of_nested {i : Nat} (hi : ks[i]? = some 0) {within : List Nat}
    {before after : List Event} (h : Nested ks within (before ++ .start i :: after)) :
    ∃ rest, after = .stop i :: rest := by
  have hout : ∀ l within, i :: within ≠ enclosing ks l := by
    intro l within heq
    have hmem : i ∈ enclosing ks l := heq ▸ List.mem_cons_self
    rw [enclosing, List.mem_reverse, List.mem_filter] at hmem
    simp [hi] at hmem
  induction before generalizing within with
  | nil =>
    obtain ⟨-, h⟩ := h
    cases after with
    | nil => cases h
    | cons e after =>
      cases e with
      | start l => exact absurd h.1 (hout l _)
      | field => exact absurd h.1 (hout _ _)
      | stop l =>
        obtain ⟨outer, hsame, -⟩ := h
        rw [(List.cons.inj hsame).1]
        exact ⟨after, rfl⟩
  | cons e before ih =>
    cases e with
    | start l => exact ih h.2
    | field => exact ih h.2
    | stop l =>
      obtain ⟨outer, -, h⟩ := h
      exact ih h

end

/-- The field is run, so there is a last run of it. -/
theorem exists_last_field (scene : Scene) (call : Call) (i : Nat) (ds : List Directive) :
    ∃ before after, doings scene call i ds = before ++ .event .field :: after
      ∧ .event .field ∉ after := by
  have hpos : 0 < (events i (ds.map Directive.resolves)).count .field := by
    rw [count_field]
    generalize ds.map Directive.resolves = ks
    induction ks with
    | nil => exact Nat.one_pos
    | cons k ks ih =>
      rw [List.map_cons, List.prod_cons]
      exact Nat.mul_pos (Nat.lt_of_lt_of_le Nat.one_pos (Nat.le_max_left 1 k)) ih
  have hmem : .event .field ∈ (doings scene call i ds).reverse := by
    rw [← filterMap_doings scene call, List.count_pos_iff, List.mem_filterMap] at hpos
    obtain ⟨d, hd, hevent⟩ := hpos
    cases d with
    | event e =>
      cases hevent
      exact List.mem_reverse.mpr hd
    | _ => cases hevent
  obtain ⟨after, before, hsplit, hnone⟩ := List.eq_append_cons_of_mem hmem
  refine ⟨before.reverse, after.reverse, ?_, fun h => hnone (List.mem_reverse.mp h)⟩
  have hreverse := congrArg List.reverse hsplit
  rw [List.reverse_reverse, List.reverse_append, List.reverse_cons] at hreverse
  rw [hreverse, List.append_assoc, List.singleton_append]

section

variable (scene : Scene) (call : Call)

/-- **Runs multiply from directive to directive and lie inside of each other.** An observer of
directives that only watch is told the events of a fixed list of things, which are all that is
done: a directive starts and stops as often as those outside of it together make it, one that does
not run what is inside of it counting as one, and the field is run as often as all of them make
it. A directive starts where exactly those outside of it are within their steps that run it by
themselves, and one that does not run what is inside of it stops before anything else happens. The
chain gives what the field gave when it was run last. -/
theorem run_of_watching {ds : List Directive} (hds : ∀ d ∈ ds, d.OnlyWatches) {field : Act Value}
    (hfield : ∀ j, ∃ v k, field j = (.ok v, k)) :
    let ks := ds.map Directive.resolves
    let told := (doings scene call 0 ds).filterMap Doing.event?
    run scene call ds field = watched scene call (fun _ => pure ()) field 0 ds
    ∧ (∀ tell v, watched scene call tell field 0 ds
        = perform call tell field v (doings scene call 0 ds))
    ∧ (∀ i < ds.length, told.count (.start i) = ((ks.take i).map (max 1)).prod
        ∧ told.count (.stop i) = ((ks.take i).map (max 1)).prod)
    ∧ told.count .field = (ks.map (max 1)).prod
    ∧ Nested ks [] told
    ∧ (∀ i, ks[i]? = some 0 → ∀ before after, told = before ++ .start i :: after →
        ∃ rest, after = .stop i :: rest)
    ∧ ∃ before after, doings scene call 0 ds = before ++ .event .field :: after
        ∧ .event .field ∉ after
        ∧ ∀ j v₀, ∃ w j₁ v j₂ j₃, perform call (fun _ => pure ()) field v₀ before j = (.ok w, j₁)
          ∧ field j₁ = (.ok v, j₂) ∧ run scene call ds field j = (.ok v, j₃) := by
  intro ks told
  have htold : told = events 0 ks := filterMap_doings scene call 0 ds
  have hnested : Nested ks [] told := by
    have hall := nested_events_append (Nat.zero_le ks.length) rfl
      (show Nested ks (enclosing ks 0) [] from rfl)
    rw [List.append_nil, List.drop_zero] at hall
    rw [htold]
    exact hall
  obtain ⟨before, after, hsplit, hlast⟩ := exists_last_field scene call 0 ds
  refine ⟨(watched_silent scene call field 0 ds).symm, fun tell v => watched_eq_perform hds 0 v,
    fun i hi => ?_, ?_, hnested, fun i hi before after htold => ?_, before, after, hsplit, hlast,
    fun j v₀ => ?_⟩
  · have hcount := count_directive (show i < ks.length by rwa [List.length_map]) 0
    rw [Nat.zero_add] at hcount
    rw [htold]
    exact hcount
  · rw [htold]
    exact count_field 0 ks
  · rw [htold] at hnested
    exact stop_of_nested hi hnested
  · obtain ⟨w, j₁, hbefore⟩ := perform_eq_ok call hfield v₀ before j
    obtain ⟨v, j₂, hv⟩ := hfield j₁
    obtain ⟨j₃, hafter⟩ := perform_of_not_mem call field hlast v j₂
    refine ⟨w, j₁, v, j₂, j₃, hbefore, hv, ?_⟩
    rw [← watched_silent scene call field 0 ds, watched_eq_perform hds 0 v₀, hsplit,
      perform_append, Run.bind_of_ok hbefore, perform_cons]
    have hone : Doing.perform call (fun _ => pure ()) field w (.event .field) j₁ = (.ok v, j₂) := by
      rw [Doing.perform, pure_bind, if_pos rfl]
      exact hv
    rw [Run.bind_of_ok hone]
    exact hafter

end

/-- A directive that runs what is inside of it twice. -/
private def twice : Directive := ⟨"twice", [], [.resolve, .log (.text "again"), .resolve], true⟩

/-- A directive that leaves what is inside of it to the chain. -/
private def passing : Directive := ⟨"passing", [], [.log (.text "passing")], true⟩

/-- A scene with nothing in it. -/
private def bareScene : Scene :=
  { schema := ⟨[], [], []⟩, leaves := [], handlers := [], models := [], rows := []
    variableValues := [], defaults := [], context := .null, session := none }

/-- A call of a field that counts. -/
private def countCall : Call := ⟨[.key "count"], "count", .null, [], []⟩

/-- The number that an outcome is. -/
private def number? : Except Failure Value → Option Int
  | .ok (.int n) => some n
  | _ => none

private theorem eq_of_number?_eq_some {r : Except Failure Value} {n : Int}
    (h : number? r = some n) : r = .ok (.int n) := by
  cases r with
  | error e => cases h
  | ok v =>
    cases v with
    | int m => rw [Option.some.inj h]
    | _ => cases h

/-- Between two directives that run it twice, one that passes starts twice, the directive inside
of it starts twice as well, and the field counts four runs from zero on. -/
theorem run_of_watching_counted :
    (∀ d ∈ [twice, passing, twice], d.OnlyWatches)
    ∧ (∀ j, ∃ v k, Script.run bareScene countCall (.counter 0 0) j = (.ok v, k))
    ∧ (let told := (doings bareScene countCall 0 [twice, passing, twice]).filterMap Doing.event?
      told.count (.start 1) = 2 ∧ told.count (.start 2) = 2 ∧ told.count .field = 4
        ∧ Nested [2, 0, 2] [] told)
    ∧ (run bareScene countCall [twice, passing, twice]
        (Script.run bareScene countCall (.counter 0 0)) ⟨{}, [], []⟩).1 = .ok (.int 3) := by
  have hds : ∀ d ∈ [twice, passing, twice], d.OnlyWatches := by
    unfold Directive.OnlyWatches
    decide
  have hfield : ∀ j, ∃ v k, Script.run bareScene countCall (.counter 0 0) j = (.ok v, k) :=
    fun j => ⟨_, _, rfl⟩
  have hks : [twice, passing, twice].map Directive.resolves = [2, 0, 2] := rfl
  obtain ⟨-, -, hcount, hall, hnested, -⟩ := run_of_watching bareScene countCall hds hfield
  rw [hks] at hcount hall hnested
  refine ⟨hds, hfield, ⟨?_, ?_, ?_, hnested⟩, ?_⟩
  · exact (hcount 1 (by decide)).1
  · exact (hcount 2 (by decide)).1
  · exact hall
  · exact eq_of_number?_eq_some (by decide +kernel)

end Chain
end SchemaForge
