import Mathlib.Data.List.Forall2
import SchemaForge.Proofs.Declaration.Meaning

/-!
# Thunks over many calls

What is known about thunks lasts over all calls, also over those that fail. Here a sequence
of calls is recorded: each option or entry that is forced, what it is forced to, and what is
known before and after. In such a record a thunk that can be kept is evaluated, and fails,
until an evaluation gives a value. From then on it is that value, and not evaluated again. If
the thunks of an option always behave the same, it does not matter that values are kept.

A thunk is known by its key, and its evaluation resolves no options. An evaluation in a
sequence is told apart by its key and its number, so each sequence is one for some
`Behaviour`, whatever the thunks depend on.
-/
namespace SchemaForge

/-- An option or entry that is forced. -/
structure Forced where
  /-- The option or entry. -/
  option : DirectiveOption
  /-- What is known about thunks before. -/
  before : ThunkState
  /-- What it is forced to. -/
  outcome : Except Failure DirectiveOption
  /-- What is known about thunks after. -/
  after : ThunkState

/-- A call that resolves an option. -/
structure ResolveCall where
  /-- The option. -/
  option : DirectiveOption
  /-- What is forced, one after the other. -/
  steps : List Forced
  /-- The directives, or the failure. -/
  outcome : Except Failure (List Directive)

namespace DirectiveOption

section

variable (f : Forcing)

/-- An option or entry, forced in a state of knowledge. -/
def forcedIn (o : DirectiveOption) (s : ThunkState) : Forced :=
  ⟨o, s, (o.forcedBy f s).1, (o.forcedBy f s).2⟩

/-- What is forced after a computation, unless it fails. -/
def following {α : Type} (m : Thunked α) (k : α → ThunkState → List Forced) (s : ThunkState) :
    List Forced :=
  match m s with
  | (.ok a, t) => k a t
  | (.error _, _) => []

/-- The entries that are forced: all up to the first that is no directive. -/
def entrySteps : List DirectiveOption → ThunkState → List Forced
  | [], _ => []
  | e :: es, s => e.forcedIn f s :: following (e.entryBy f) (fun _ => entrySteps es) s

/-- The entries of what an option is forced to. -/
def entriesBy (o : DirectiveOption) : Thunked (List DirectiveOption) := do
  liftExcept (← o.forcedBy f).entries

/-- What is forced when an option is resolved: the option and then its entries. -/
def steps (o : DirectiveOption) (s : ThunkState) : List Forced :=
  o.forcedIn f s :: following (o.entriesBy f) (entrySteps f) s

/-- Calls for several options, one after the other. What is known after a call is known in
the next, also if it failed. -/
def calls : List DirectiveOption → ThunkState → List ResolveCall
  | [], _ => []
  | o :: os, s => ⟨o, o.steps f s, (o.resolveBy f s).1⟩ :: calls os (o.resolveBy f s).2

/-- What is known after the calls. -/
def knownAfter (os : List DirectiveOption) (s : ThunkState) : ThunkState :=
  os.foldl (fun t o => (o.resolveBy f t).2) s

/-- All that is forced in calls. -/
def allSteps (os : List DirectiveOption) (s : ThunkState) : List Forced :=
  (calls f os s).flatMap ResolveCall.steps

theorem allSteps_cons (o : DirectiveOption) (os : List DirectiveOption) (s : ThunkState) :
    allSteps f (o :: os) s = o.steps f s ++ allSteps f os (o.resolveBy f s).2 :=
  List.flatMap_cons

theorem resolveBy_eq (o : DirectiveOption) :
    o.resolveBy f = o.entriesBy f >>= fun es => es.mapM (entryBy f) := by
  funext s
  rw [resolveBy, entriesBy, Run.bind_apply, Run.bind_apply, Run.bind_apply]
  rcases o.forcedBy f s with ⟨_ | p, t⟩
  · rfl
  · rw [← Run.bind_apply]

/-- Whatever an entry turns out to be, no more is known than after forcing it. -/
theorem entryBy_snd (e : DirectiveOption) (s : ThunkState) :
    (e.entryBy f s).2 = (e.forcedBy f s).2 :=
  Run.snd_bind_of_still (fun p _ => by cases p <;> rfl) s

theorem entriesBy_snd (o : DirectiveOption) (s : ThunkState) :
    (o.entriesBy f s).2 = (o.forcedBy f s).2 :=
  Run.snd_bind_of_still (fun _ _ => rfl) s

theorem entriesBy_eq_ok {o : DirectiveOption} {s t : ThunkState} {es : List DirectiveOption}
    (h : o.entriesBy f s = (.ok es, t)) :
    ∃ p, (o.forcedBy f s).1 = .ok p ∧ p.entries = .ok es := by
  obtain ⟨p, r, hforced, hentries⟩ := Run.bind_eq_ok.mp h
  exact ⟨p, by rw [hforced], congrArg Prod.fst hentries⟩

end

/-! ### What all steps preserve -/

/-- Steps over options of some sort preserve a property of the record so far and of what is
known: each step does, and its outcome is again of this sort, and so are entries. -/
structure Preserves (f : Forcing) (Q : DirectiveOption → Prop)
    (J : List Forced → ThunkState → Prop) : Prop where
  step : ∀ us o s, Q o → J us s → J (us ++ [o.forcedIn f s]) (o.forcedBy f s).2
  outcome : ∀ us o s p, Q o → J us s → (o.forcedBy f s).1 = .ok p → Q p
  entry : ∀ p es e, Q p → p.entries = .ok es → e ∈ es → Q e

namespace Preserves

variable {f : Forcing} {Q : DirectiveOption → Prop} {J : List Forced → ThunkState → Prop}

/-- What a computation preserves, and what follows on it, both of them preserve together. -/
theorem bind {α β : Type} {m : Thunked α} {g : α → Thunked β} {k : α → ThunkState → List Forced}
    {us : List Forced} {s : ThunkState} (hm : J us (m s).2)
    (hk : ∀ a t, m s = (.ok a, t) → J us t → J (us ++ k a t) (g a t).2) :
    J (us ++ following m k s) ((m >>= g) s).2 := by
  rw [following, Run.bind_apply]
  rcases hrun : m s with ⟨_ | a, t⟩ <;> rw [hrun] at hm
  · rw [List.append_nil]
    exact hm
  · exact hk a t hrun hm

theorem entries (h : Preserves f Q J) (us : List Forced) {es : List DirectiveOption}
    (hes : ∀ e ∈ es, Q e) {s : ThunkState} (hs : J us s) :
    J (us ++ entrySteps f es s) (es.mapM (entryBy f) s).2 := by
  induction es generalizing us s with
  | nil =>
    rw [entrySteps, List.append_nil]
    exact hs
  | cons e es ih =>
    have hstep := h.step us e s (hes e List.mem_cons_self) hs
    rw [← entryBy_snd] at hstep
    rw [entrySteps, List.append_cons, List.mapM_cons]
    refine bind hstep fun d t _ ht => ?_
    rw [Run.snd_bind_of_still fun _ _ => rfl]
    exact ih _ (fun e' he' => hes e' (List.mem_cons_of_mem e he')) ht

theorem call (h : Preserves f Q J) (us : List Forced) {o : DirectiveOption} (ho : Q o)
    {s : ThunkState} (hs : J us s) : J (us ++ o.steps f s) (o.resolveBy f s).2 := by
  have hstep := h.step us o s ho hs
  rw [← entriesBy_snd] at hstep
  rw [steps, List.append_cons, resolveBy_eq]
  refine bind hstep fun es t hrun ht => ?_
  obtain ⟨p, hp, hes⟩ := entriesBy_eq_ok f hrun
  exact h.entries _ (fun e => h.entry p es e (h.outcome us o s p ho hs hp) hes) ht

theorem calls (h : Preserves f Q J) (us : List Forced) {os : List DirectiveOption}
    (hos : ∀ o ∈ os, Q o) {s : ThunkState} (hs : J us s) :
    J (us ++ allSteps f os s) (knownAfter f os s) := by
  induction os generalizing us s with
  | nil =>
    rw [show allSteps f [] s = [] from rfl, List.append_nil]
    exact hs
  | cons o os ih =>
    rw [allSteps_cons, ← List.append_assoc]
    exact ih _ (fun o' ho' => hos o' (List.mem_cons_of_mem o ho'))
      (h.call us (hos o List.mem_cons_self) hs)

end Preserves
end DirectiveOption

/-! ### When thunks are evaluated -/

theorem ThunkState.evaluated_count (s : ThunkState) (key other : String) :
    (s.count key).evaluated other
      = if other == key then s.evaluated key + 1 else s.evaluated other := by
  rw [evaluated, count, Table.get?_update]
  split <;> rfl

namespace Forced

/-- Whether the value of a thunk that can be kept is needed. -/
def uses (key : String) (u : Forced) : Bool :=
  match u.option with
  | .thunk other memo _ => memo && key == other
  | _ => false

/-- Whether an evaluation of a thunk is counted. -/
def counts (key : String) (u : Forced) : Bool :=
  u.after.evaluated key != u.before.evaluated key

/-- A step, apart from what is known. -/
def seen (u : Forced) : DirectiveOption × Except Failure DirectiveOption := (u.option, u.outcome)

/-- A thunk is evaluated: this is counted, and gives what the thunk does at that time. -/
structure Evaluates (b : Behaviour) (key : String) (u : Forced) : Prop where
  counted : u.after.evaluated key = u.before.evaluated key + 1
  given : ∃ memo result, u.option = .thunk key memo result
    ∧ u.outcome = b key (u.before.evaluated key) result

/-- An evaluation fails, and nothing is kept. -/
structure Raises (b : Behaviour) (key : String) (u : Forced) : Prop extends u.Evaluates b key where
  fails : ∃ e, u.outcome = .error e
  leaves : u.after.kept.get? key = none

/-- An evaluation gives a value, which is kept. -/
structure Completes (b : Behaviour) (key : String) (value : DirectiveOption) (u : Forced) : Prop
    extends u.Evaluates b key where
  gives : u.outcome = .ok value
  leaves : u.after.kept.get? key = some value

/-- A value is given without an evaluation. -/
structure Recalls (value : DirectiveOption) (u : Forced) : Prop where
  gives : u.outcome = .ok value
  unchanged : u.after = u.before

end Forced

/-- How a thunk is used, by what is kept of it in the end. If this is nothing, each use has
evaluated it and failed. If it is a value, this was so up to the one use that gave the value, and
all later uses have just recalled it. -/
def Memoized (b : Behaviour) (key : String) (us : List Forced) : Option DirectiveOption → Prop
  | none => ∀ u ∈ us, u.Raises b key
  | some value => ∃ failed done later, us = failed ++ done :: later
    ∧ (∀ u ∈ failed, u.Raises b key) ∧ done.Completes b key value ∧ ∀ u ∈ later, u.Recalls value

namespace Memoized

variable {b : Behaviour} {key : String} {us : List Forced} {u : Forced} {value : DirectiveOption}

theorem raise (h : Memoized b key us none) (hu : u.Raises b key) :
    Memoized b key (us ++ [u]) none := by
  intro u' hu'
  rcases List.mem_append.mp hu' with hu' | hu'
  · exact h u' hu'
  · rwa [List.mem_singleton.mp hu']

theorem complete (h : Memoized b key us none) (hu : u.Completes b key value) :
    Memoized b key (us ++ [u]) (some value) :=
  ⟨us, u, [], rfl, h, hu, fun _ hu' => by cases hu'⟩

theorem again (h : Memoized b key us (some value)) (hu : u.Recalls value) :
    Memoized b key (us ++ [u]) (some value) := by
  obtain ⟨failed, done, later, rfl, hfailed, hdone, hlater⟩ := h
  refine ⟨failed, done, later ++ [u], by simp, hfailed, hdone, fun u' hu' => ?_⟩
  rcases List.mem_append.mp hu' with hu' | hu'
  · exact hlater u' hu'
  · rwa [List.mem_singleton.mp hu']

end Memoized

namespace DirectiveOption

variable {b : Behaviour} {key : String} {o : DirectiveOption} {s : ThunkState} {us : List Forced}

/-- A thunk is recalled, or evaluated and kept, or only evaluated: then it cannot be kept or has
failed. -/
theorem memoize_cases (b : Behaviour) (key : String) (memo : Bool) (result : DirectiveOption)
    (s : ThunkState) :
    (∃ known, memo = true ∧ s.kept.get? key = some known
        ∧ memoize b key memo result s = (.ok known, s))
      ∨ (∃ value, memo = true ∧ s.kept.get? key = Option.none
        ∧ b key (s.evaluated key) result = .ok value
        ∧ memoize b key memo result s = (.ok value, (s.count key).keep key value))
      ∨ ∃ x, b key (s.evaluated key) result = x ∧ memoize b key memo result s = (x, s.count key)
        ∧ (memo = true → s.kept.get? key = Option.none ∧ ∃ e, x = .error e) := by
  cases memo with
  | false => exact .inr (.inr ⟨_, rfl, memoize_not_memo rfl, fun h => by cases h⟩)
  | true =>
    cases hkept : s.kept.get? key with
    | some known => exact .inl ⟨known, rfl, rfl, memoize_of_kept hkept⟩
    | none =>
      cases hvalue : b key (s.evaluated key) result with
      | ok value => exact .inr (.inl ⟨value, rfl, rfl, rfl, memoize_of_not_kept hkept hvalue⟩)
      | error e => exact .inr (.inr ⟨_, rfl, memoize_of_error hkept hvalue, fun _ => ⟨rfl, e, rfl⟩⟩)

/-- A step that is no use of a thunk leaves what is kept of it. -/
theorem kept_of_not_uses (h : (o.forcedIn (memoize b) s).uses key = false) :
    (o.forcedBy (memoize b) s).2.kept.get? key = s.kept.get? key := by
  cases o with
  | thunk other memo result =>
    rw [forcedBy]
    rcases memoize_cases b other memo result s with ⟨known, -, -, hrun⟩ | ⟨value, rfl, -, -, hrun⟩
      | ⟨x, -, hrun, -⟩
    · rw [hrun]
    · have hother : (key == other) = false := h
      rw [hrun, ThunkState.keep, Table.get?_put, hother]
      rfl
    · rw [hrun]
      rfl
  | _ => rfl

theorem thunk_of_uses (h : (o.forcedIn (memoize b) s).uses key = true) :
    ∃ result, o = thunk key true result := by
  cases o with
  | thunk other memo result =>
    obtain ⟨rfl, hkey⟩ := Bool.and_eq_true_iff.mp (show (memo && key == other) = true from h)
    rw [beq_iff_eq.mp hkey]
    exact ⟨result, rfl⟩
  | _ => cases h

/-- A thunk that is counted and gives what it does at that time is evaluated. -/
theorem evaluates_forcedIn {memo : Bool} {result : DirectiveOption} {t : ThunkState}
    {x : Except Failure DirectiveOption} (hrun : memoize b key memo result s = (x, t))
    (hx : b key (s.evaluated key) result = x) (ht : t.evaluated key = s.evaluated key + 1) :
    ((thunk key memo result).forcedIn (memoize b) s).Evaluates b key where
  counted := (congrArg (·.2.evaluated key) hrun).trans ht
  given := ⟨memo, result, rfl, (congrArg Prod.fst hrun).trans hx.symm⟩

/-- A use of a thunk goes on with the way in which it is used. -/
theorem memoized_use (b : Behaviour) (key : String) (result : DirectiveOption) (s : ThunkState)
    (h : Memoized b key us (s.kept.get? key)) :
    Memoized b key (us ++ [(thunk key true result).forcedIn (memoize b) s])
      ((memoize b key true result s).2.kept.get? key) := by
  have hcounted : (s.count key).evaluated key = s.evaluated key + 1 := by
    rw [ThunkState.evaluated_count, if_pos (beq_self_eq_true key)]
  rcases memoize_cases b key true result s with ⟨known, -, hkept, hrun⟩
    | ⟨value, -, hkept, hvalue, hrun⟩ | ⟨x, hx, hrun, hfailed⟩
  · rw [hkept] at h
    rw [hrun, hkept]
    exact h.again ⟨congrArg Prod.fst hrun, congrArg Prod.snd hrun⟩
  · have hkeep := (s.count key).get?_keep_self key value
    have hforced := evaluates_forcedIn hrun hvalue hcounted
    rw [hkept] at h
    rw [hrun, hkeep]
    exact h.complete ⟨hforced, congrArg Prod.fst hrun,
      (congrArg (·.2.kept.get? key) hrun).trans hkeep⟩
  · obtain ⟨hkept, e, rfl⟩ := hfailed rfl
    have hforced := evaluates_forcedIn hrun hx hcounted
    have hleaves : (s.count key).kept.get? key = Option.none := hkept
    rw [hkept] at h
    rw [hrun, hleaves]
    exact h.raise ⟨hforced, ⟨e, congrArg Prod.fst hrun⟩,
      (congrArg (·.2.kept.get? key) hrun).trans hleaves⟩

/-- **A step keeps the way in which a thunk is used.** -/
theorem memoized_step (h : Memoized b key (us.filter (·.uses key)) (s.kept.get? key)) :
    Memoized b key ((us ++ [o.forcedIn (memoize b) s]).filter (·.uses key))
      ((o.forcedBy (memoize b) s).2.kept.get? key) := by
  rw [List.filter_append]
  cases huses : (o.forcedIn (memoize b) s).uses key with
  | false =>
    rw [List.filter_cons_of_neg (by rw [huses]; exact Bool.false_ne_true), List.filter_nil,
      List.append_nil, kept_of_not_uses huses]
    exact h
  | true =>
    rw [List.filter_cons_of_pos huses, List.filter_nil]
    obtain ⟨result, rfl⟩ := thunk_of_uses huses
    exact memoized_use b key result s h

/-! ### How often thunks are evaluated -/

/-- A step evaluates a thunk once or not at all. -/
theorem evaluated_forcedBy (b : Behaviour) (key : String) (o : DirectiveOption) (s : ThunkState) :
    (o.forcedBy (memoize b) s).2.evaluated key = s.evaluated key
      ∨ (o.forcedBy (memoize b) s).2.evaluated key = s.evaluated key + 1 := by
  cases o with
  | thunk other memo result =>
    have hcount : (s.count other).evaluated key = s.evaluated key
        ∨ (s.count other).evaluated key = s.evaluated key + 1 := by
      rw [ThunkState.evaluated_count]
      split
      · rename_i hkey
        exact .inr (by rw [beq_iff_eq.mp hkey])
      · exact .inl rfl
    rw [forcedBy]
    rcases memoize_cases b other memo result s with ⟨known, -, -, hrun⟩ | ⟨value, -, -, -, hrun⟩
      | ⟨x, -, hrun, -⟩ <;> rw [hrun]
    · exact .inl rfl
    · exact hcount
    · exact hcount
  | _ => exact .inl rfl

/-- All evaluations of a thunk are steps. -/
theorem counted_step (h : s.evaluated key = us.countP (·.counts key)) :
    (o.forcedBy (memoize b) s).2.evaluated key
      = (us ++ [o.forcedIn (memoize b) s]).countP (·.counts key) := by
  have hcounts : (o.forcedIn (memoize b) s).counts key
      = ((o.forcedBy (memoize b) s).2.evaluated key != s.evaluated key) := rfl
  rw [List.countP_append, List.countP_singleton, hcounts, ← h]
  rcases evaluated_forcedBy b key o s with hafter | hafter <;> simp [hafter]

/-! ### Calls with and without values that are kept -/

/-- What can come up when options are resolved: the options, entries, and what evaluations of
thunks give. -/
inductive Within (b : Behaviour) (os : List DirectiveOption) : DirectiveOption → Prop
  | given {o : DirectiveOption} (h : o ∈ os) : Within b os o
  | entry {o e : DirectiveOption} {es : List DirectiveOption} (h : Within b os o)
    (hes : o.entries = .ok es) (he : e ∈ es) : Within b os e
  | evaluation {key : String} {memo : Bool} {result o : DirectiveOption} {n : Nat}
    (h : Within b os (thunk key memo result)) (ho : b key n result = .ok o) : Within b os o

variable {os : List DirectiveOption}

theorem Within.of_mem {p : DirectiveOption} (ho : o ∈ os) (h : Within b [o] p) : Within b os p := by
  induction h with
  | given h => exact .given (List.mem_singleton.mp h ▸ ho)
  | entry _ hes he ih => exact .entry ih hes he
  | evaluation _ ho ih => exact .evaluation ih ho

/-- In the options a thunk always behaves the same. -/
def Constant (b : Behaviour) (os : List DirectiveOption) (key : String) : Prop :=
  ∃ x, ∀ memo result n, Within b os (thunk key memo result) → b key n result = x

/-- All thunks that can come up when one of the options is resolved always behave the same. -/
def Steady (b : Behaviour) (os : List DirectiveOption) (o : DirectiveOption) : Prop :=
  ∀ key memo result, Within b [o] (thunk key memo result) → Constant b os key

end DirectiveOption

/-- All that is kept is what evaluations of thunks in the options give. -/
def ThunkState.ComesFrom (b : Behaviour) (os : List DirectiveOption) (s : ThunkState) : Prop :=
  ∀ key value, s.kept.get? key = some value → ∃ memo result n,
    DirectiveOption.Within b os (.thunk key memo result) ∧ b key n result = .ok value

namespace DirectiveOption

/-- At first nothing is kept. -/
theorem comesFrom_start (b : Behaviour) (os : List DirectiveOption) :
    ({} : ThunkState).ComesFrom b os := by
  intro key value h
  cases h.symm.trans (Table.get?_nil key)

theorem comesFrom_forcedBy (ho : Within b os o) (h : s.ComesFrom b os) :
    (o.forcedBy (memoize b) s).2.ComesFrom b os := by
  cases o with
  | thunk key memo result =>
    rw [forcedBy]
    rcases memoize_cases b key memo result s with ⟨known, -, -, hrun⟩ | ⟨value, -, -, hvalue, hrun⟩
      | ⟨x, -, hrun, -⟩ <;> rw [hrun]
    · exact h
    · exact ThunkState.forall_keep (s := s.count key) h ⟨memo, result, _, ho, hvalue⟩
    · exact h
  | _ => exact h

/-- What is forced comes from the options. -/
theorem within_forcedBy {p : DirectiveOption} (ho : Within b os o) (h : s.ComesFrom b os)
    (hp : (o.forcedBy (memoize b) s).1 = .ok p) : Within b os p := by
  cases o with
  | thunk key memo result =>
    rw [forcedBy] at hp
    rcases memoize_cases b key memo result s with ⟨known, -, hkept, hrun⟩
      | ⟨value, -, -, hvalue, hrun⟩ | ⟨x, hx, hrun, -⟩ <;> rw [hrun] at hp
    · cases hp
      obtain ⟨memo', result', n, hthunk, hknown⟩ := h key _ hkept
      exact .evaluation hthunk hknown
    · cases hp
      exact .evaluation ho hvalue
    · exact .evaluation ho (hx.trans hp)
  | _ =>
    cases hp
    exact ho

theorem preserves_comesFrom (b : Behaviour) (os : List DirectiveOption) :
    Preserves (memoize b) (Within b os) fun _ s => s.ComesFrom b os where
  step _ _ _ ho hs := comesFrom_forcedBy ho hs
  outcome _ _ _ _ ho hs hp := within_forcedBy ho hs hp
  entry _ _ _ hp hes he := .entry hp hes he

/-- If nothing is kept, what is forced comes from the option. -/
theorem within_evaluate {p : DirectiveOption} (ho : Within b os o)
    (hp : (o.forcedBy (evaluate b) s).1 = .ok p) : Within b os p := by
  cases o with
  | thunk key memo result => exact .evaluation ho hp
  | _ =>
    cases hp
    exact ho

theorem within_entriesBy {p : DirectiveOption} {es : List DirectiveOption} (hp : Within b os p)
    (hes : (p.entriesBy (evaluate b) s).1 = .ok es) : ∀ e ∈ es, Within b os e := by
  obtain ⟨q, hq, hentries⟩ := entriesBy_eq_ok (evaluate b) (Prod.ext hes rfl)
  exact fun e he => .entry (within_evaluate hp hq) hentries he

section

variable {p : DirectiveOption}

/-- What is known before comes from the options. -/
abbrev Known (b : Behaviour) (os : List DirectiveOption) (s _ : ThunkState) : Prop :=
  s.ComesFrom b os

theorem seen_following {α : Type} {m m' : Thunked α} {k k' : α → ThunkState → List Forced}
    {s s' : ThunkState} (hm : Run.Alike (Known b os) m m') (hs : s.ComesFrom b os)
    (hk : ∀ a t t', t.ComesFrom b os → (m' s').1 = .ok a →
      (k a t).map Forced.seen = (k' a t').map Forced.seen) :
    (following m k s).map Forced.seen = (following m' k' s').map Forced.seen := by
  obtain ⟨hout, hstate⟩ := hm s s' hs
  rw [following, following]
  rcases hrun : m s with ⟨x, t⟩
  rcases hrun' : m' s' with ⟨x', t'⟩
  rw [hrun, hrun'] at hout
  obtain rfl : x = x' := hout
  cases x with
  | error e => rfl
  | ok a =>
    rw [hrun] at hstate
    exact hk a t t' hstate (congrArg Prod.fst hrun')

variable (ho : o ∈ os) (hsteady : Steady b os o)

include ho hsteady

/-- A thunk that always behaves the same is forced to the same with and without values that are
kept. -/
theorem alike_forcedBy (hp : Within b [o] p) :
    Run.Alike (Known b os) (p.forcedBy (memoize b)) (p.forcedBy (evaluate b)) := by
  intro s s' hs
  refine ⟨?_, comesFrom_forcedBy (hp.of_mem ho) hs⟩
  cases p with
  | thunk key memo result =>
    obtain ⟨x, hx⟩ := hsteady key memo result hp
    have hresult := fun n => hx memo result n (hp.of_mem ho)
    have hevaluate : ((thunk key memo result).forcedBy (evaluate b) s').1 = x := hresult _
    rw [hevaluate, forcedBy]
    rcases memoize_cases b key memo result s with ⟨known, -, hkept, hrun⟩
      | ⟨value, -, -, hvalue, hrun⟩ | ⟨y, hy, hrun, -⟩ <;> rw [hrun]
    · obtain ⟨memo', result', n, hthunk, hknown⟩ := hs key known hkept
      exact hknown.symm.trans (hx memo' result' n hthunk)
    · exact hvalue.symm.trans (hresult _)
    · exact hy.symm.trans (hresult _)
  | _ => rfl

theorem alike_entryBy (hp : Within b [o] p) :
    Run.Alike (Known b os) (p.entryBy (memoize b)) (p.entryBy (evaluate b)) := by
  refine (alike_forcedBy ho hsteady hp).bind fun q => ?_
  cases q with
  | directive d => exact Run.alike_pure d
  | _ => exact Run.alike_throw _

theorem alike_entriesBy (hp : Within b [o] p) :
    Run.Alike (Known b os) (p.entriesBy (memoize b)) (p.entriesBy (evaluate b)) :=
  (alike_forcedBy ho hsteady hp).bind fun _ _ _ hs => ⟨rfl, hs⟩

theorem seen_forcedIn (hp : Within b [o] p) (hs : s.ComesFrom b os) (s' : ThunkState) :
    (p.forcedIn (memoize b) s).seen = (p.forcedIn (evaluate b) s').seen :=
  congrArg (p, ·) (alike_forcedBy ho hsteady hp s s' hs).1

theorem seen_entrySteps {es : List DirectiveOption} (hes : ∀ e ∈ es, Within b [o] e)
    (hs : s.ComesFrom b os) (s' : ThunkState) :
    (entrySteps (memoize b) es s).map Forced.seen
      = (entrySteps (evaluate b) es s').map Forced.seen := by
  induction es generalizing s s' with
  | nil => rfl
  | cons e es ih =>
    have he := hes e List.mem_cons_self
    rw [entrySteps, entrySteps, List.map_cons, List.map_cons,
      seen_forcedIn ho hsteady he hs s',
      seen_following (alike_entryBy ho hsteady he) hs fun _ t t' ht _ =>
        ih (fun e' he' => hes e' (List.mem_cons_of_mem e he')) ht t']

/-- **What an option is resolved to, and in which steps, does not depend on what is kept**, if its
thunks always behave the same. -/
theorem same_call (hs : s.ComesFrom b os) (s' : ThunkState) :
    (o.resolveBy (memoize b) s).1 = (o.resolveBy (evaluate b) s').1
      ∧ (o.steps (memoize b) s).map Forced.seen = (o.steps (evaluate b) s').map Forced.seen := by
  have hgiven : Within b [o] o := .given (List.mem_singleton_self o)
  have hentries := alike_entriesBy ho hsteady hgiven
  constructor
  · rw [resolveBy_eq, resolveBy_eq]
    refine (Run.Alike.bind_of_run hentries (fun es t t' u ht hrun => ?_) s s' hs).1
    have hes := (hentries t t' ht).1.symm.trans (congrArg Prod.fst hrun)
    exact Run.alike_mapM fun e he =>
      alike_entryBy ho hsteady (within_entriesBy hgiven hes e he)
  · rw [steps, steps, List.map_cons, List.map_cons, seen_forcedIn ho hsteady hgiven hs s',
      seen_following hentries hs fun es t t' ht hes =>
        seen_entrySteps ho hsteady (within_entriesBy hgiven hes) ht t']

end

end DirectiveOption

/-- Two calls force the same options to the same, and have the same outcome. -/
structure ResolveCall.Same (c c' : ResolveCall) : Prop where
  steps : c.steps.map Forced.seen = c'.steps.map Forced.seen
  outcome : c.outcome = c'.outcome

namespace DirectiveOption

variable {b : Behaviour} {os : List DirectiveOption}

theorem same_calls {os' : List DirectiveOption} (hos : ∀ o ∈ os', o ∈ os) {s : ThunkState}
    (hs : s.ComesFrom b os) (s' : ThunkState) :
    List.Forall₂ (fun c c' => c.option = c'.option ∧ (Steady b os c.option → c.Same c'))
      (calls (memoize b) os' s) (calls (evaluate b) os' s') := by
  induction os' generalizing s s' with
  | nil => exact .nil
  | cons o os' ih =>
    have ho := hos o List.mem_cons_self
    have hafter := (preserves_comesFrom b os).call [] (.given ho) hs
    refine .cons ⟨rfl, fun hsteady => ?_⟩
      (ih (fun o' ho' => hos o' (List.mem_cons_of_mem o ho')) hafter _)
    obtain ⟨houtcome, hsteps⟩ := same_call ho hsteady hs s'
    exact ⟨hsteps, houtcome⟩

/-- **A thunk that can be kept is evaluated until it gives a value, and then never again.** In any
sequence of calls, its uses are as `Memoized` says, and no other evaluations of it are counted but
those of the recorded steps. A call for an option whose thunks always behave the same goes the same
way, to the same directives or the same failure, as if nothing were kept. -/
theorem thunks_evaluated_once (b : Behaviour) (os : List DirectiveOption) :
    (∀ key, Memoized b key ((allSteps (memoize b) os {}).filter (·.uses key))
        ((knownAfter (memoize b) os {}).kept.get? key)
      ∧ (knownAfter (memoize b) os {}).evaluated key
        = (allSteps (memoize b) os {}).countP (·.counts key))
    ∧ List.Forall₂ (fun c c' => c.option = c'.option ∧ (Steady b os c.option → c.Same c'))
      (calls (memoize b) os {}) (calls (evaluate b) os {}) := by
  refine ⟨fun key => ⟨?_, ?_⟩, same_calls (fun _ ho => ho) (comesFrom_start b os) {}⟩
  · have hsteps : Preserves (memoize b) (fun _ => True) fun us s =>
        Memoized b key (us.filter (·.uses key)) (s.kept.get? key) :=
      ⟨fun _ _ _ _ => memoized_step, fun _ _ _ _ _ _ _ => trivial, fun _ _ _ _ _ _ => trivial⟩
    exact hsteps.calls [] (fun _ _ => trivial) fun _ h => nomatch h
  · have hsteps : Preserves (memoize b) (fun _ => True) fun us s =>
        s.evaluated key = us.countP (·.counts key) :=
      ⟨fun _ _ _ _ => counted_step, fun _ _ _ _ _ _ _ => trivial, fun _ _ _ _ _ _ => trivial⟩
    exact hsteps.calls [] (fun _ _ => trivial) rfl

/-- If each thunk has something fixed that it gives, all options are steady. -/
theorem steady_of_fixed {value : String → Except Failure DirectiveOption} (o : DirectiveOption) :
    Steady (fun key _ _ => value key) os o := fun key _ _ _ => ⟨value key, fun _ _ _ _ => rfl⟩

/-- A directive that does nothing. -/
def inspection : Directive where
  name := "inspect"
  arguments := []
  steps := []
  awaits := false

/-- A thunk for it. -/
def late : DirectiveOption := thunk "late" true (directive inspection)

/-- Options that share the thunk. -/
def sharing : List DirectiveOption :=
  [list [late], thunk "all" true (list [late, late]), list [late]]

/-- The thunk is not ready at first. -/
def unready : Behaviour
  | "late", 0, _ => .error (.script "not ready")
  | _, _, result => .ok result

/-- What the thunks always give once they are ready. -/
def ready (key : String) : Except Failure DirectiveOption :=
  if key == "all" then .ok (list [late, late]) else .ok (directive inspection)

theorem thunks_evaluated_once_sharing :
    (Memoized unready "late" ((allSteps (memoize unready) sharing {}).filter (·.uses "late"))
        (some (directive inspection))
      ∧ ((allSteps (memoize unready) sharing {}).filter (·.uses "late")).length = 4
      ∧ (allSteps (memoize unready) sharing {}).countP (·.counts "late") = 2)
    ∧ List.Forall₂ ResolveCall.Same (calls (memoize fun key _ _ => ready key) sharing {})
      (calls (evaluate fun key _ _ => ready key) sharing {}) := by
  obtain ⟨huses, hcounted⟩ := (thunks_evaluated_once unready sharing).1 "late"
  refine ⟨⟨huses, by decide, hcounted.symm.trans (by decide)⟩, ?_⟩
  exact (thunks_evaluated_once (fun key _ _ => ready key) sharing).2.imp
    fun c c' h => h.2 (steady_of_fixed c.option)

end DirectiveOption
end SchemaForge
