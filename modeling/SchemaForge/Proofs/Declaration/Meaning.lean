import SchemaForge.Declaration.Directives
import SchemaForge.Proofs.Outcome

/-!
# What directive options mean

Resolving an option may evaluate thunks, and what is kept of them stays kept. So an
option that was resolved once gives the same directives whenever it is resolved later:
its meaning in any later state. This makes it possible to speak of the directives of a
declaration without saying when they are computed.
-/
namespace SchemaForge

namespace ThunkState

/-- One state of knowledge extends another: all that was kept is still kept. -/
def Extends (s t : ThunkState) : Prop :=
  ∀ key o, s.kept.get? key = some o → t.kept.get? key = some o

theorem Extends.refl (s : ThunkState) : s.Extends s := fun _ _ h => h

theorem Extends.trans {s t u : ThunkState} (h : s.Extends t) (k : t.Extends u) : s.Extends u :=
  fun key o ho => k key o (h key o ho)

theorem extends_count (s : ThunkState) (key : String) : s.Extends (s.count key) :=
  fun _ _ h => h

/-- Keeping a result for a thunk without one loses nothing. -/
theorem extends_keep {s : ThunkState} {key : String} (h : s.kept.get? key = none)
    (o : DirectiveOption) : s.Extends (s.keep key o) := by
  intro other p hp
  rw [keep, Table.get?_put]
  split
  · rename_i he
    rw [beq_iff_eq.mp he, h] at hp
    cases hp
  · exact hp

/-- What is kept of a thunk is what was kept last. -/
theorem get?_keep_self (s : ThunkState) (key : String) (o : DirectiveOption) :
    (s.keep key o).kept.get? key = some o := by
  rw [keep, Table.get?_put, if_pos (beq_self_eq_true key)]

/-- What holds of all that is kept and of one more result holds when this is kept, too. -/
theorem forall_keep {P : String → DirectiveOption → Prop} {s : ThunkState}
    (hs : ∀ key o, s.kept.get? key = some o → P key o) {key : String} {o : DirectiveOption}
    (ho : P key o) : ∀ other p, (s.keep key o).kept.get? other = some p → P other p := by
  intro other p hp
  rw [keep, Table.get?_put] at hp
  split at hp
  · rename_i hother
    cases hp
    rwa [beq_iff_eq.mp hother]
  · exact hs other p hp

end ThunkState

namespace Thunked

variable {α β : Type}

/-- A computation that succeeds loses no knowledge, and gives the same again in every
later state of knowledge. -/
def Stable (m : Thunked α) : Prop :=
  ∀ s a t, m s = (.ok a, t) →
    s.Extends t ∧ ∀ u, t.Extends u → ∃ w, m u = (.ok a, w) ∧ u.Extends w

theorem stable_pure (a : α) : Stable (pure a : Thunked α) := by
  intro s b t h
  obtain ⟨rfl, rfl⟩ : a = b ∧ s = t := by
    rw [Run.pure_apply] at h
    cases h
    exact ⟨rfl, rfl⟩
  exact ⟨.refl s, fun u _ => ⟨u, rfl, .refl u⟩⟩

theorem stable_throw (e : Failure) : Stable (throw e : Thunked α) := by
  intro s b t h
  rw [Run.throw_apply] at h
  cases h

theorem Stable.bind {m : Thunked α} {f : α → Thunked β} (hm : Stable m)
    (hf : ∀ a, Stable (f a)) : Stable (m >>= f) := by
  intro s b t h
  obtain ⟨a, r, h1, h2⟩ := Run.bind_eq_ok.mp h
  obtain ⟨e1, k1⟩ := hm s a r h1
  obtain ⟨e2, k2⟩ := hf a r b t h2
  refine ⟨e1.trans e2, fun u hu => ?_⟩
  obtain ⟨w1, hw1, hu1⟩ := k1 u (e2.trans hu)
  obtain ⟨w2, hw2, hu2⟩ := k2 w1 (hu.trans hu1)
  exact ⟨w2, Run.bind_eq_ok.mpr ⟨a, w1, hw1, hw2⟩, hu1.trans hu2⟩

theorem stable_mapM {f : α → Thunked β} (hf : ∀ a, Stable (f a)) (xs : List α) :
    Stable (xs.mapM f) := by
  induction xs with
  | nil => exact stable_pure []
  | cons x xs ih =>
    rw [List.mapM_cons]
    exact (hf x).bind fun y => ih.bind fun ys => stable_pure (y :: ys)

end Thunked

namespace DirectiveOption

open Thunked

section

variable {b : Behaviour} {key : String} {memo : Bool} {result value known : DirectiveOption}
  {s : ThunkState}

/-- An evaluation is counted and gives what the thunk does at that time. -/
theorem evaluate_eq {x : Except Failure DirectiveOption}
    (h : b key (s.evaluated key) result = x) :
    evaluate b key memo result s = (x, s.count key) := by
  rw [← h]
  rfl

/-- A thunk that can be kept has the value that is kept, if there is one. -/
theorem memoize_of_kept (h : s.kept.get? key = some known) :
    memoize b key true result s = (.ok known, s) := by
  unfold memoize
  refine (Run.bind_of_ok (Run.get_apply s) _).trans ?_
  rw [if_pos rfl, h]
  rfl

/-- A thunk of which nothing is kept is evaluated, and then its value is kept. -/
theorem memoize_of_not_kept (h : s.kept.get? key = Option.none)
    (hvalue : b key (s.evaluated key) result = .ok value) :
    memoize b key true result s = (.ok value, (s.count key).keep key value) := by
  unfold memoize
  refine (Run.bind_of_ok (Run.get_apply s) _).trans ?_
  rw [if_pos rfl, h]
  exact Run.bind_of_ok (evaluate_eq hvalue) _

/-- An evaluation that fails leaves nothing to keep. -/
theorem memoize_of_error {e : Failure} (h : s.kept.get? key = Option.none)
    (herror : b key (s.evaluated key) result = .error e) :
    memoize b key true result s = (.error e, s.count key) := by
  unfold memoize
  refine (Run.bind_of_ok (Run.get_apply s) _).trans ?_
  rw [if_pos rfl, h]
  exact Run.bind_of_error (evaluate_eq herror) _

/-- A thunk that cannot be kept is evaluated at each use. -/
theorem memoize_not_memo {x : Except Failure DirectiveOption}
    (h : b key (s.evaluated key) result = x) :
    memoize b key false result s = (x, s.count key) := by
  unfold memoize
  refine (Run.bind_of_ok (Run.get_apply s) _).trans ?_
  cases x with
  | ok value => exact Run.bind_of_ok (evaluate_eq h) _
  | error e => exact Run.bind_of_error (evaluate_eq h) _

end

/-- A thunk that can be kept has the value that is kept, if there is one. -/
theorem force_of_kept {key : String} {result known : DirectiveOption} {s : ThunkState}
    (h : s.kept.get? key = some known) : force key true result s = (.ok known, s) :=
  memoize_of_kept h

/-- A thunk of which nothing is kept is evaluated, and then its value is kept. -/
theorem force_of_not_kept {key : String} {result : DirectiveOption} {s : ThunkState}
    (h : s.kept.get? key = Option.none) :
    force key true result s = (.ok result, (s.count key).keep key result) :=
  memoize_of_not_kept h rfl

/-- A thunk has one value: the kept one where it can be kept, else a fixed one. -/
theorem stable_force (key : String) (memo : Bool) (result : DirectiveOption) :
    Stable (force key memo result) := by
  intro s a t h
  cases memo with
  | false =>
    cases h
    exact ⟨s.extends_count key, fun u _ => ⟨u.count key, rfl, u.extends_count key⟩⟩
  | true =>
    cases hk : s.kept.get? key with
    | some known =>
      rw [force_of_kept hk] at h
      cases h
      exact ⟨.refl s, fun u hu => ⟨u, force_of_kept (hu key _ hk), .refl u⟩⟩
    | none =>
      rw [force_of_not_kept hk] at h
      cases h
      have hc : (s.count key).kept.get? key = Option.none := hk
      refine ⟨(s.extends_count key).trans (ThunkState.extends_keep hc result), ?_⟩
      intro u hu
      have hkept : u.kept.get? key = some result :=
        hu key result (ThunkState.get?_keep_self _ key result)
      exact ⟨u, force_of_kept hkept, .refl u⟩

theorem stable_forced (o : DirectiveOption) : Stable o.forced := by
  cases o with
  | thunk key memo result => exact stable_force key memo result
  | directive d => exact stable_pure _
  | list es => exact stable_pure _
  | value v => exact stable_pure _

theorem stable_entry (e : DirectiveOption) : Stable e.entry := by
  refine (stable_forced e).bind fun o => ?_
  cases o with
  | directive d => exact stable_pure d
  | list es => exact stable_throw _
  | thunk key memo result => exact stable_throw _
  | value v => exact stable_throw _

theorem stable_liftExcept {α : Type} (x : Except Failure α) : Stable (liftExcept x) := by
  cases x with
  | ok a => exact stable_pure a
  | error e => exact stable_throw e

/-- Resolving an option loses no knowledge and can be repeated. -/
theorem stable_resolve (o : DirectiveOption) : Stable o.resolve :=
  (stable_forced o).bind fun p =>
    (stable_liftExcept p.entries).bind fun es => stable_mapM stable_entry es

/-- The directives that an option means in a state of knowledge: none if it means none. -/
def meaning (s : ThunkState) (o : DirectiveOption) : List Directive :=
  match o.resolve s with
  | (.ok ds, _) => ds
  | _ => []

/-- What an option was resolved to is what it means ever after. -/
theorem meaning_of_resolve {o : DirectiveOption} {s t u : ThunkState} {ds : List Directive}
    (h : o.resolve s = (.ok ds, t)) (hu : t.Extends u) : meaning u o = ds := by
  obtain ⟨w, hw, -⟩ := (stable_resolve o s ds t h).2 u hu
  rw [meaning, hw]

theorem extends_of_resolve {o : DirectiveOption} {s t : ThunkState} {ds : List Directive}
    (h : o.resolve s = (.ok ds, t)) : s.Extends t :=
  (stable_resolve o s ds t h).1

/-- A list of directives means itself. -/
@[simp] theorem meaning_list (s : ThunkState) (ds : List Directive) :
    meaning s (.list (ds.map .directive)) = ds := by
  have h : ∀ ds : List Directive,
      (ds.map directive).mapM entry s = (.ok ds, s) := by
    intro ds
    induction ds with
    | nil => rfl
    | cons d ds ih =>
      rw [List.map_cons, List.mapM_cons]
      refine (Run.bind_of_ok (show entry (directive d) s = (.ok d, s) from rfl) _).trans ?_
      exact Run.bind_of_ok ih _
  have hr : (list (ds.map directive)).resolve s = (.ok ds, s) := h ds
  rw [meaning, hr]

/-- The entries of an option are those of a list, or values. -/
theorem mem_entries {o e : DirectiveOption} {es : List DirectiveOption} (hes : o.entries = .ok es)
    (he : e ∈ es) : o = .list es ∨ ∃ v, e = .value v := by
  cases o with
  | directive d => cases hes
  | thunk key memo o => cases hes
  | list es' =>
    cases hes
    exact .inl rfl
  | value v =>
    rw [entries] at hes
    split at hes
    · split at hes
      · cases hes
        obtain ⟨w, -, rfl⟩ := List.mem_map.mp he
        exact .inr ⟨w, rfl⟩
      · cases hes
    · cases hes
      cases he

/-! ### One value for each thunk -/

/-- An option is coherent if each thunk in it whose result can be kept has the value that is given
for its key: that is how occurrences of one thunk look. -/
inductive Coherent (result : String → DirectiveOption) : DirectiveOption → Prop
  | directive (d : Directive) : Coherent result (directive d)
  | list {entries : List DirectiveOption} (h : ∀ e ∈ entries, Coherent result e) :
    Coherent result (list entries)
  | thunk {key : String} {memo : Bool} {o : DirectiveOption} (h : Coherent result o)
    (hkey : memo = true → result key = o) : Coherent result (thunk key memo o)
  | value (v : Value) : Coherent result (value v)

variable {result : String → DirectiveOption}

theorem coherent_none : Coherent result none := .value _

/-- A list of directives is coherent. -/
theorem coherent_list (ds : List Directive) : Coherent result (list (ds.map directive)) := by
  refine .list fun e he => ?_
  obtain ⟨d, -, rfl⟩ := List.mem_map.mp he
  exact .directive d

end DirectiveOption

/-- What is kept of thunks are the values that are given for their keys. -/
def ThunkState.Agrees (result : String → DirectiveOption) (s : ThunkState) : Prop :=
  ∀ key o, s.kept.get? key = some o → o = result key

namespace DirectiveOption

variable {result : String → DirectiveOption}

/-- Both states keep what is given for the keys. -/
abbrev Agreeing (result : String → DirectiveOption) (s s' : ThunkState) : Prop :=
  s.Agrees result ∧ s'.Agrees result

theorem agrees_keep {s : ThunkState} (hs : s.Agrees result) (key : String) :
    (s.keep key (result key)).Agrees result :=
  ThunkState.forall_keep (P := fun key o => o = result key) hs rfl

/-- From a state that agrees, a coherent thunk gives its result. -/
theorem force_of_agrees {key : String} {memo : Bool} {o : DirectiveOption} {s : ThunkState}
    (hkey : memo = true → result key = o) (hs : s.Agrees result) :
    (force key memo o s).1 = .ok o ∧ (force key memo o s).2.Agrees result := by
  cases memo with
  | false => exact ⟨rfl, hs⟩
  | true =>
    obtain rfl := hkey rfl
    cases hkept : s.kept.get? key with
    | some known =>
      rw [force_of_kept hkept, hs key known hkept]
      exact ⟨rfl, hs⟩
    | none =>
      rw [force_of_not_kept hkept]
      exact ⟨rfl, agrees_keep (show (s.count key).Agrees result from hs) key⟩

/-- An option is forced to a coherent one, whatever is kept. -/
theorem forced_of_agrees {o : DirectiveOption} (h : Coherent result o) :
    ∃ p, Coherent result p ∧ ∀ s : ThunkState, s.Agrees result →
      (o.forced s).1 = .ok p ∧ (o.forced s).2.Agrees result := by
  cases h with
  | directive d => exact ⟨_, .directive d, fun _ hs => ⟨rfl, hs⟩⟩
  | list h => exact ⟨_, .list h, fun _ hs => ⟨rfl, hs⟩⟩
  | thunk h hkey => exact ⟨_, h, fun _ hs => force_of_agrees hkey hs⟩
  | value v => exact ⟨_, .value v, fun _ hs => ⟨rfl, hs⟩⟩

/-- What follows on a forced option is a matter of the option that it is forced to. -/
theorem alike_forced_bind {β : Type} {o : DirectiveOption} (h : Coherent result o)
    {f : DirectiveOption → Thunked β}
    (hf : ∀ p, Coherent result p → Run.Alike (Agreeing result) (f p) (f p)) :
    Run.Alike (Agreeing result) (o.forced >>= f) (o.forced >>= f) := by
  obtain ⟨p, hp, hforced⟩ := forced_of_agrees h
  refine Run.Alike.bind_of_run (fun s s' hs => ?_) fun a s s' t hs hrun => ?_
  · obtain ⟨hs1, hs2⟩ := hs
    exact ⟨(hforced s hs1).1.trans (hforced s' hs2).1.symm, (hforced s hs1).2, (hforced s' hs2).2⟩
  · have hout := (hforced s hs.1).1
    rw [hrun] at hout
    cases hout
    exact hf p hp

theorem alike_entry {e : DirectiveOption} (h : Coherent result e) :
    Run.Alike (Agreeing result) e.entry e.entry := by
  refine alike_forced_bind h fun p _ => ?_
  cases p with
  | directive d => exact Run.alike_pure d
  | _ => exact Run.alike_throw _

theorem coherent_entries {o : DirectiveOption} (h : Coherent result o) {es : List DirectiveOption}
    (hes : o.entries = .ok es) : ∀ e ∈ es, Coherent result e := by
  intro e he
  rcases mem_entries hes he with rfl | ⟨v, rfl⟩
  · cases h with
    | list h => exact h e he
  · exact .value v

/-- **What a coherent option is resolved to does not depend on what was evaluated before.** -/
theorem alike_resolve {o : DirectiveOption} (h : Coherent result o) :
    Run.Alike (Agreeing result) o.resolve o.resolve :=
  alike_forced_bind h fun _ hp => Run.alike_lift_bind fun _ hes =>
    Run.alike_mapM fun e he => alike_entry (coherent_entries hp hes e he)

end DirectiveOption

/-! ### The directives in an option

An option holds directives, alone, in lists and as what thunks compute. If all of them are of
some sort, and so is everything that is kept of thunks, then the option is resolved to
directives of this sort, and what is kept stays so.
-/

variable {P : Directive → Prop}

/-- All directives in an option are of some sort. -/
inductive DirectiveOption.All (P : Directive → Prop) : DirectiveOption → Prop
  | directive {d : Directive} (h : P d) : All P (directive d)
  | list {entries : List DirectiveOption} (h : ∀ e ∈ entries, All P e) : All P (list entries)
  | thunk {key : String} {memo : Bool} {o : DirectiveOption} (h : All P o) :
    All P (thunk key memo o)
  | value (v : Value) : All P (value v)

/-- So are those in all that is kept of thunks. -/
def ThunkState.All (P : Directive → Prop) (s : ThunkState) : Prop :=
  ∀ key o, s.kept.get? key = some o → o.All P

/-- A state of knowledge in which nothing is kept. -/
theorem ThunkState.all_empty : ThunkState.All P {} := fun _ _ h => by cases h

theorem ThunkState.All.keep {s : ThunkState} (h : s.All P) {o : DirectiveOption} (ho : o.All P)
    (key : String) : (s.keep key o).All P :=
  ThunkState.forall_keep h ho

namespace Thunked

variable {α β : Type} {Q : α → Prop} {Q' : β → Prop}

/-- A computation keeps directives of some sort in mind, and if it succeeds gives something of
another. -/
def Gives (P : Directive → Prop) (Q : α → Prop) (m : Thunked α) : Prop :=
  ∀ s, s.All P → (m s).2.All P ∧ ∀ a, (m s).1 = .ok a → Q a

theorem gives_pure {a : α} (h : Q a) : Gives P Q (pure a : Thunked α) := by
  intro s hs
  refine ⟨hs, fun b hb => ?_⟩
  cases hb
  exact h

theorem gives_throw (e : Failure) : Gives P Q (throw e : Thunked α) :=
  fun _ hs => ⟨hs, fun _ hb => by cases hb⟩

theorem Gives.bind {m : Thunked α} {f : α → Thunked β} (hm : Gives P Q m)
    (hf : ∀ a, Q a → Gives P Q' (f a)) : Gives P Q' (m >>= f) := by
  intro s hs
  obtain ⟨hstate, hout⟩ := hm s hs
  rw [Run.bind_apply]
  rcases hrun : m s with ⟨x, t⟩
  rw [hrun] at hstate hout
  cases x with
  | error e => exact ⟨hstate, fun b hb => by cases hb⟩
  | ok a => exact hf a (hout a rfl) t hstate

theorem gives_mapM {f : α → Thunked β} {xs : List α} (h : ∀ x ∈ xs, Gives P Q' (f x)) :
    Gives P (fun ys => ∀ y ∈ ys, Q' y) (xs.mapM f) := by
  induction xs with
  | nil => exact gives_pure fun y hy => by cases hy
  | cons x xs ih =>
    rw [List.mapM_cons]
    refine (h x List.mem_cons_self).bind fun y hy =>
      (ih fun z hz => h z (List.mem_cons_of_mem x hz)).bind fun ys hys => gives_pure fun z hz => ?_
    rcases List.mem_cons.mp hz with rfl | hz
    · exact hy
    · exact hys z hz

end Thunked

namespace DirectiveOption

open Thunked

theorem all_none : All P none := .value _

/-- A list of directives of some sort. -/
theorem all_list {ds : List Directive} (h : ∀ d ∈ ds, P d) : All P (list (ds.map directive)) := by
  refine .list fun e he => ?_
  obtain ⟨d, hd, rfl⟩ := List.mem_map.mp he
  exact .directive (h d hd)

theorem gives_force {o : DirectiveOption} (h : All P o) (key : String) (memo : Bool) :
    Gives P (All P) (force key memo o) := by
  intro s hs
  cases memo with
  | false => exact ⟨hs, fun a ha => by cases ha; exact h⟩
  | true =>
    cases hkept : s.kept.get? key with
    | some known =>
      rw [force_of_kept hkept]
      exact ⟨hs, fun a ha => by cases ha; exact hs key _ hkept⟩
    | none =>
      rw [force_of_not_kept hkept]
      exact ⟨ThunkState.All.keep (s := s.count key) hs h key, fun a ha => by cases ha; exact h⟩

theorem gives_forced {o : DirectiveOption} (h : All P o) : Gives P (All P) o.forced := by
  cases h with
  | directive h => exact gives_pure (.directive h)
  | list h => exact gives_pure (.list h)
  | thunk h => exact gives_force h _ _
  | value v => exact gives_pure (.value v)

theorem gives_entry {o : DirectiveOption} (h : All P o) : Gives P P o.entry := by
  refine (gives_forced h).bind fun p hp => ?_
  cases hp with
  | directive h => exact gives_pure h
  | _ => exact gives_throw _

theorem all_entries {o : DirectiveOption} (h : All P o) {es : List DirectiveOption}
    (hes : o.entries = .ok es) : ∀ e ∈ es, All P e := by
  intro e he
  rcases mem_entries hes he with rfl | ⟨v, rfl⟩
  · cases h with
    | list h => exact h e he
  · exact .value v

/-- **An option with directives of some sort is resolved to such directives.** -/
theorem gives_resolve {o : DirectiveOption} (h : All P o) :
    Gives P (fun ds => ∀ d ∈ ds, P d) o.resolve := by
  refine (gives_forced h).bind fun p hp => ?_
  cases hes : p.entries with
  | error e => exact gives_throw e
  | ok es => exact gives_mapM fun e he => gives_entry (all_entries hp hes e he)

end DirectiveOption
end SchemaForge
