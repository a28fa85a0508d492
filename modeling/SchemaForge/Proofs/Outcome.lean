import Mathlib.Logic.Basic

/-!
# Runs that may stop half-way

All that changes while it runs and may fail is written over one monad: an outcome and
the state that was reached, also after a failure. Here are the equations by which such
runs are taken apart.
-/
namespace SchemaForge

universe u

/-- An outcome that depends on another is good exactly if both are. -/
theorem Outcome.bind_eq_ok {ε α β : Type} {x : Except ε α} {f : α → Except ε β} {b : β} :
    (x >>= f) = .ok b ↔ ∃ a, x = .ok a ∧ f a = .ok b := by
  cases x with
  | error e =>
    constructor
    · intro h
      cases h
    · rintro ⟨a, h, -⟩
      cases h
  | ok a =>
    constructor
    · exact fun h => ⟨a, rfl, h⟩
    · rintro ⟨_, ⟨⟩, h⟩
      exact h

theorem Outcome.map_eq_ok {ε α β : Type} {x : Except ε α} {f : α → β} {b : β} :
    x.map f = .ok b ↔ ∃ a, x = .ok a ∧ f a = b := by
  cases x with
  | error e =>
    constructor
    · intro h
      cases h
    · rintro ⟨a, h, -⟩
      cases h
  | ok a =>
    constructor
    · exact fun h => ⟨a, rfl, Except.ok.inj h⟩
    · rintro ⟨_, ⟨⟩, rfl⟩
      rfl

@[simp] theorem Outcome.isOk_ok {ε α : Type} (a : α) : (Except.ok a : Except ε α).isOk = true := rfl

@[simp] theorem Outcome.isOk_error {ε α : Type} (e : ε) :
    (Except.error e : Except ε α).isOk = false := rfl

@[simp] theorem Outcome.isOk_map {ε α β : Type} (x : Except ε α) (f : α → β) :
    (x.map f).isOk = x.isOk := by cases x <;> rfl

/-- A change of a state that may fail and then keeps what it did. -/
abbrev Run (ε σ α : Type) := ExceptT ε (StateM σ) α

namespace Run

variable {ε σ α β : Type}

theorem pure_apply (a : α) (s : σ) : (pure a : Run ε σ α) s = (.ok a, s) := rfl

theorem throw_apply (e : ε) (s : σ) : (throw e : Run ε σ α) s = (.error e, s) := rfl

theorem get_apply (s : σ) : (get : Run ε σ σ) s = (.ok s, s) := rfl

theorem modify_apply (f : σ → σ) (s : σ) : (modify f : Run ε σ PUnit) s = (.ok ⟨⟩, f s) := rfl

theorem bind_apply (m : Run ε σ α) (f : α → Run ε σ β) (s : σ) :
    (m >>= f) s = match m s with
      | (.ok a, t) => f a t
      | (.error e, t) => (.error e, t) := by
  change (match m s with | (x, t) => ExceptT.bindCont f x t) = _
  rcases m s with ⟨_ | _, _⟩ <;> rfl

theorem bind_of_ok {m : Run ε σ α} {a : α} {s t : σ} (h : m s = (.ok a, t))
    (f : α → Run ε σ β) : (m >>= f) s = f a t := by
  rw [bind_apply, h]

theorem bind_of_error {m : Run ε σ α} {e : ε} {s t : σ} (h : m s = (.error e, t))
    (f : α → Run ε σ β) : (m >>= f) s = (.error e, t) := by
  rw [bind_apply, h]

/-- A sequence succeeds exactly if both of its parts do, one after the other. -/
theorem bind_eq_ok {m : Run ε σ α} {f : α → Run ε σ β} {s u : σ} {b : β} :
    (m >>= f) s = (.ok b, u) ↔ ∃ a t, m s = (.ok a, t) ∧ f a t = (.ok b, u) := by
  rw [bind_apply]
  constructor
  · intro h
    rcases hm : m s with ⟨_ | a, t⟩
    · rw [hm] at h
      cases h
    · rw [hm] at h
      exact ⟨a, t, rfl, h⟩
  · rintro ⟨a, t, hm, hf⟩
    rw [hm]
    exact hf

/-- What changes nothing leaves the state as it was before it. -/
theorem snd_bind_of_still {m : Run ε σ α} {f : α → Run ε σ β} (hf : ∀ a t, (f a t).2 = t) (s : σ) :
    ((m >>= f) s).2 = (m s).2 := by
  rw [bind_apply]
  rcases m s with ⟨_ | a, t⟩
  · rfl
  · exact hf a t

/-- An outcome that is taken in succeeds if it is good, and changes nothing. -/
theorem liftM_eq_ok {x : Except ε α} {a : α} {s t : σ}
    (h : (liftM x : Run ε σ α) s = (.ok a, t)) : x = .ok a ∧ t = s := by
  have h : (x, s) = (.ok a, t) := h
  cases h
  exact ⟨rfl, rfl⟩

/-- What a run without a result leaves when it succeeds. -/
theorem eq_of_isOk {m : Run ε σ PUnit} {s : σ} (h : (m s).1.isOk = true) :
    m s = (.ok ⟨⟩, (m s).2) := by
  rcases hrun : m s with ⟨_ | _, t⟩
  · rw [hrun] at h
    cases h
  · rfl

/-! ### Properties that runs keep -/

/-- A run keeps a property of states if it ends with it whenever it starts with it and
succeeds. -/
def Keeps (I : σ → Prop) (m : Run ε σ α) : Prop := ∀ s a t, m s = (.ok a, t) → I s → I t

variable {I : σ → Prop} {m : Run ε σ α} {f : α → Run ε σ β}

theorem keeps_pure (a : α) : Keeps I (pure a : Run ε σ α) := by
  intro s b t h hs
  rw [pure_apply] at h
  cases h
  exact hs

theorem keeps_throw (e : ε) : Keeps I (throw e : Run ε σ α) := by
  intro s b t h
  rw [throw_apply] at h
  cases h

/-- Nothing comes after a failure. -/
theorem keeps_throw_bind (e : ε) (f : α → Run ε σ β) : Keeps I (throw e >>= f) := by
  intro s b t h
  obtain ⟨_, _, hthrown, -⟩ := bind_eq_ok.mp h
  rw [throw_apply] at hthrown
  cases hthrown

theorem keeps_modify {g : σ → σ} (h : ∀ s, I s → I (g s)) :
    Keeps I (modify g : Run ε σ PUnit) := by
  intro s b t hrun hs
  rw [modify_apply] at hrun
  cases hrun
  exact h s hs

theorem Keeps.bind (hm : Keeps I m) (hf : ∀ a, Keeps I (f a)) : Keeps I (m >>= f) := by
  intro s b u h hs
  obtain ⟨a, t, h1, h2⟩ := bind_eq_ok.mp h
  exact hf a t b u h2 (hm s a t h1 hs)

/-- What comes after a look at the state may use that the state has the property. -/
theorem keeps_get_bind {g : σ → Run ε σ β} (h : ∀ s, I s → Keeps I (g s)) :
    Keeps I (get >>= g) := by
  intro s b t hrun hs
  rw [bind_of_ok (get_apply s)] at hrun
  exact h s hs s b t hrun hs

/-- What comes after an outcome may use that it is good. -/
theorem keeps_lift_bind {x : Except ε α} (h : ∀ a, x = .ok a → Keeps I (f a)) :
    Keeps I ((liftM x : Run ε σ α) >>= f) := by
  cases x with
  | ok a =>
    intro s b t hrun
    exact h a rfl s b t hrun
  | error e =>
    intro s b t hrun
    rw [bind_of_error (show (liftM (.error e : Except ε α) : Run ε σ α) s = (.error e, s) from rfl)]
      at hrun
    cases hrun

theorem keeps_ite {c : Prop} [Decidable c] {m' : Run ε σ α} (h : c → Keeps I m)
    (h' : ¬c → Keeps I m') : Keeps I (if c then m else m') := by
  split
  · exact h ‹_›
  · exact h' ‹_›

theorem keeps_forM {g : α → Run ε σ PUnit} {xs : List α} (h : ∀ x ∈ xs, Keeps I (g x)) :
    Keeps I (xs.forM g) := by
  induction xs with
  | nil => exact keeps_pure _
  | cons x xs ih =>
    exact (h x List.mem_cons_self).bind fun _ => ih fun y hy => h y (List.mem_cons_of_mem x hy)

theorem keeps_foldlM {g : β → α → Run ε σ β} {xs : List α} (h : ∀ b, ∀ x ∈ xs, Keeps I (g b x))
    (b : β) : Keeps I (xs.foldlM g b) := by
  induction xs generalizing b with
  | nil => exact keeps_pure b
  | cons x xs ih =>
    rw [List.foldlM_cons]
    exact (h b x List.mem_cons_self).bind fun c =>
      ih (fun b y hy => h b y (List.mem_cons_of_mem x hy)) c

theorem keeps_filterMapM {g : α → Run ε σ (Option β)} (h : ∀ x, Keeps I (g x)) (xs : List α) :
    Keeps I (xs.filterMapM g) := by
  have hloop : ∀ xs acc, Keeps I (List.filterMapM.loop g xs acc) := by
    intro xs
    induction xs with
    | nil => exact fun acc => keeps_pure _
    | cons x xs ih =>
      intro acc
      refine (h x).bind fun y => ?_
      cases y with
      | none => exact ih acc
      | some y => exact ih (y :: acc)
  exact hloop xs []

theorem keeps_forIn {g : α → β → Run ε σ (ForInStep β)} {xs : List α}
    (h : ∀ x ∈ xs, ∀ b, Keeps I (g x b)) (b : β) : Keeps I (forIn xs b g) := by
  induction xs generalizing b with
  | nil => exact keeps_pure b
  | cons x xs ih =>
    rw [List.forIn_cons]
    refine (h x List.mem_cons_self b).bind fun r => ?_
    cases r with
    | done c => exact keeps_pure c
    | yield c => exact ih (fun y hy => h y (List.mem_cons_of_mem x hy)) c

/-- A loop that stops at no entry runs for one after the other. -/
theorem forIn_yield (g : α → Run ε σ PUnit) (xs : List α) :
    (forIn xs PUnit.unit fun x _ => do g x; pure (ForInStep.yield PUnit.unit)) = xs.forM g := by
  induction xs with
  | nil => rfl
  | cons x xs ih =>
    rw [List.forIn_cons, bind_assoc]
    simp only [pure_bind]
    exact congrArg (g x >>= fun _ => ·) ih

/-! ### Properties that runs reach, also when they fail -/

/-- A run reaches one property of states from another if it ends with the one whenever it starts
with the other, also where it fails. -/
def Reaches (I J : σ → Prop) (m : Run ε σ α) : Prop := ∀ s, I s → J (m s).2

/-- What a run reaches from itself it keeps. -/
theorem Reaches.keeps (h : Reaches I I m) : Keeps I m := by
  intro s a t hrun hs
  have hend := h s hs
  rwa [hrun] at hend

section Reaches

variable {J K : σ → Prop}

theorem reaches_pure (h : ∀ s, I s → J s) (a : α) : Reaches I J (pure a : Run ε σ α) := h

theorem reaches_modify {g : σ → σ} (h : ∀ s, I s → J (g s)) :
    Reaches I J (modify g : Run ε σ PUnit) := h

theorem Reaches.bind (hm : Reaches I K m) (hfail : ∀ s, K s → J s) (hf : ∀ a, Reaches K J (f a)) :
    Reaches I J (m >>= f) := by
  intro s hs
  have hreached := hm s hs
  rw [bind_apply]
  rcases hrun : m s with ⟨_ | a, t⟩
  · rw [hrun] at hreached
    exact hfail t hreached
  · rw [hrun] at hreached
    exact hf a t hreached

theorem reaches_ite {c : Prop} [Decidable c] {m' : Run ε σ α} (h : c → Reaches I J m)
    (h' : ¬c → Reaches I J m') : Reaches I J (if c then m else m') := by
  split
  · exact h ‹_›
  · exact h' ‹_›

theorem reaches_forM {g : α → Run ε σ PUnit} {xs : List α} (h : ∀ x ∈ xs, Reaches I I (g x)) :
    Reaches I I (xs.forM g) := by
  induction xs with
  | nil => exact reaches_pure (fun _ => id) _
  | cons x xs ih =>
    exact (h x List.mem_cons_self).bind (fun _ => id)
      fun _ => ih fun y hy => h y (List.mem_cons_of_mem x hy)

end Reaches

/-! ### How runs end -/

/-- A run ends with a property of states whenever it succeeds. -/
def EndsWith (J : σ → Prop) (m : Run ε σ α) : Prop := ∀ s a t, m s = (.ok a, t) → J t

variable {J : σ → Prop}

/-- A sequence ends as its second part does. -/
theorem endsWith_bind (h : ∀ a, EndsWith J (f a)) : EndsWith J (m >>= f) := by
  intro s b u hrun
  obtain ⟨a, t, -, h2⟩ := bind_eq_ok.mp hrun
  exact h a t b u h2

theorem EndsWith.bind (hm : EndsWith J m) (hf : ∀ a, Keeps J (f a)) : EndsWith J (m >>= f) := by
  intro s b u hrun
  obtain ⟨a, t, h1, h2⟩ := bind_eq_ok.mp hrun
  exact hf a t b u h2 (hm s a t h1)

theorem endsWith_lift_bind {x : Except ε α} (h : ∀ a, x = .ok a → EndsWith J (f a)) :
    EndsWith J ((liftM x : Run ε σ α) >>= f) := by
  intro s b u hrun
  obtain ⟨a, t, h1, h2⟩ := bind_eq_ok.mp hrun
  exact h a (liftM_eq_ok h1).1 t b u h2

/-- What one round of a loop ends with is there at the end, if all rounds keep it. -/
theorem endsWith_forM {g : α → Run ε σ PUnit} {xs : List α} {x : α} (hx : x ∈ xs)
    (h : EndsWith J (g x)) (hkeeps : ∀ y ∈ xs, Keeps J (g y)) : EndsWith J (xs.forM g) := by
  induction xs with
  | nil => cases hx
  | cons y ys ih =>
    have hrest := fun z hz => hkeeps z (List.mem_cons_of_mem y hz)
    rcases List.mem_cons.mp hx with rfl | hx
    · exact h.bind fun _ => keeps_forM hrest
    · exact endsWith_bind fun _ => ih hx hrest

/-- A run leads from one property of states to another if it ends with the second whenever it
starts with the first and succeeds. -/
def Leads (I J : σ → Prop) (m : Run ε σ α) : Prop := ∀ s a t, m s = (.ok a, t) → I s → J t

theorem leads_lift_bind {x : Except ε α} (h : ∀ a, x = .ok a → Leads I J (f a)) :
    Leads I J ((liftM x : Run ε σ α) >>= f) := by
  intro s b u hrun hs
  obtain ⟨a, t, h1, h2⟩ := bind_eq_ok.mp hrun
  obtain ⟨hx, rfl⟩ := liftM_eq_ok h1
  exact h a hx _ b u h2 hs

/-- What one round of a loop leads to is there at the end, if all rounds keep it. -/
theorem leads_forM {g : α → Run ε σ PUnit} {xs : List α} {x : α} (hx : x ∈ xs)
    (h : Leads I J (g x)) (hI : ∀ y ∈ xs, Keeps I (g y)) (hJ : ∀ y ∈ xs, Keeps J (g y)) :
    Leads I J (xs.forM g) := by
  induction xs with
  | nil => cases hx
  | cons y ys ih =>
    intro s u t hrun hs
    obtain ⟨_, s', hfirst, hrest⟩ := bind_eq_ok.mp hrun
    have hlater := fun z hz => hJ z (List.mem_cons_of_mem y hz)
    rcases List.mem_cons.mp hx with rfl | hx
    · exact keeps_forM hlater s' u t hrest (h s _ s' hfirst hs)
    · exact ih hx (fun z hz => hI z (List.mem_cons_of_mem y hz)) hlater s' u t hrest
        (hI y List.mem_cons_self s _ s' hfirst hs)

/-! ### What runs give -/

/-- A run gives values with a property whenever it succeeds. -/
def Yields (P : α → Prop) (m : Run ε σ α) : Prop := ∀ s a t, m s = (.ok a, t) → P a

variable {P : α → Prop} {Q : β → Prop}

theorem yields_pure {a : α} (h : P a) : Yields P (pure a : Run ε σ α) := by
  intro s b t hrun
  rw [pure_apply] at hrun
  cases hrun
  exact h

theorem yields_throw (e : ε) : Yields P (throw e : Run ε σ α) := by
  intro s b t h
  rw [throw_apply] at h
  cases h

/-- What a sequence gives is what its second part gives. -/
theorem Yields.bind (hm : Yields P m) (hf : ∀ a, P a → Yields Q (f a)) : Yields Q (m >>= f) := by
  intro s b u h
  obtain ⟨a, t, h1, h2⟩ := bind_eq_ok.mp h
  exact hf a (hm s a t h1) t b u h2

theorem yields_true (m : Run ε σ α) : Yields (fun _ => True) m := fun _ _ _ _ => trivial

theorem yields_lift_bind {x : Except ε α} (h : ∀ a, x = .ok a → Yields Q (f a)) :
    Yields Q ((liftM x : Run ε σ α) >>= f) := by
  intro s b u hrun
  obtain ⟨a, t, h1, h2⟩ := bind_eq_ok.mp hrun
  exact h a (liftM_eq_ok h1).1 t b u h2

/-- What follows on a run may use what it gave. -/
theorem Keeps.bind_of_yields (hm : Keeps I m) (hy : Yields P m) (hf : ∀ a, P a → Keeps I (f a)) :
    Keeps I (m >>= f) := by
  intro s b u h hs
  obtain ⟨a, t, h1, h2⟩ := bind_eq_ok.mp h
  exact hf a (hy s a t h1) t b u h2 (hm s a t h1 hs)

theorem yields_foldlM {g : β → α → Run ε σ β} {xs : List α}
    (h : ∀ b, ∀ x ∈ xs, Q b → Yields Q (g b x)) {b : β} (hb : Q b) : Yields Q (xs.foldlM g b) := by
  induction xs generalizing b with
  | nil => exact yields_pure hb
  | cons x xs ih =>
    rw [List.foldlM_cons]
    exact (h b x List.mem_cons_self hb).bind fun c hc =>
      ih (fun b y hy => h b y (List.mem_cons_of_mem x hy)) hc

theorem yields_filterMapM {g : α → Run ε σ (Option β)} {xs : List α}
    (h : ∀ x ∈ xs, Yields (fun o => ∀ y ∈ o, Q y) (g x)) :
    Yields (fun ys => ∀ y ∈ ys, Q y) (xs.filterMapM g) := by
  have hloop : ∀ xs acc, (∀ x ∈ xs, Yields (fun o => ∀ y ∈ o, Q y) (g x)) → (∀ y ∈ acc, Q y) →
      Yields (fun ys => ∀ y ∈ ys, Q y) (List.filterMapM.loop g xs acc) := by
    intro xs
    induction xs with
    | nil => exact fun acc _ hacc => yields_pure fun y hy => hacc y (List.mem_reverse.mp hy)
    | cons x xs ih =>
      intro acc hxs hacc
      have hrest := fun y hy => hxs y (List.mem_cons_of_mem x hy)
      refine (hxs x List.mem_cons_self).bind fun o ho => ?_
      cases o with
      | none => exact ih acc hrest hacc
      | some y =>
        refine ih (y :: acc) hrest fun z hz => ?_
        rcases List.mem_cons.mp hz with rfl | hz
        · exact ho z rfl
        · exact hacc z hz
  exact hloop xs [] h fun y hy => by cases hy

/-- What is gathered from steps that give what a function says and change nothing. -/
theorem filterMapM_eq_ok {g : α → Run ε σ (Option β)} {h : α → Option β}
    (hg : ∀ x s y t, g x s = (.ok y, t) → y = h x ∧ t = s) {xs : List α} {s t : σ} {ys : List β}
    (hrun : xs.filterMapM g s = (.ok ys, t)) : ys = xs.filterMap h ∧ t = s := by
  have hloop : ∀ xs acc s, List.filterMapM.loop g xs acc s = (.ok ys, t) →
      ys = acc.reverse ++ xs.filterMap h ∧ t = s := by
    intro xs
    induction xs with
    | nil =>
      intro acc s hrun
      cases hrun
      exact ⟨(List.append_nil _).symm, rfl⟩
    | cons x xs ih =>
      intro acc s hrun
      obtain ⟨y, s', hstep, hrest⟩ := bind_eq_ok.mp hrun
      obtain ⟨hy, rfl⟩ := hg x s y s' hstep
      rw [List.filterMap_cons, ← hy]
      cases y with
      | none => exact ih acc _ hrest
      | some y =>
        obtain ⟨hys, ht⟩ := ih (y :: acc) _ hrest
        exact ⟨by simpa using hys, ht⟩
  exact hloop xs [] s hrun

/-! ### Runs side by side -/

/-- Two runs are alike under a relation of states if from related states they have the same
outcome, good or bad, and leave related states. -/
def Alike (R : σ → σ → Prop) (m m' : Run ε σ α) : Prop :=
  ∀ s s', R s s' → (m s).1 = (m' s').1 ∧ R (m s).2 (m' s').2

variable {R : σ → σ → Prop} {m' : Run ε σ α} {f' : α → Run ε σ β}

theorem alike_pure (a : α) : Alike R (pure a : Run ε σ α) (pure a) := fun _ _ h => ⟨rfl, h⟩

theorem alike_throw (e : ε) : Alike R (throw e : Run ε σ α) (throw e) := fun _ _ h => ⟨rfl, h⟩

theorem alike_modify {g g' : σ → σ} (h : ∀ s s', R s s' → R (g s) (g' s')) :
    Alike R (modify g : Run ε σ PUnit) (modify g') := fun s s' hs => ⟨rfl, h s s' hs⟩

/-- What follows on a run may use what it gives from related states. -/
theorem Alike.bind_of_run (hm : Alike R m m')
    (hf : ∀ a s s' t, R s s' → m s = (.ok a, t) → Alike R (f a) (f' a)) :
    Alike R (m >>= f) (m' >>= f') := by
  intro s s' hs
  obtain ⟨hout, hstate⟩ := hm s s' hs
  rw [bind_apply, bind_apply]
  rcases hrun : m s with ⟨x, t⟩
  rcases hrun' : m' s' with ⟨x', t'⟩
  rw [hrun, hrun'] at hout hstate
  obtain rfl : x = x' := hout
  cases x with
  | error e => exact ⟨rfl, hstate⟩
  | ok a => exact hf a s s' t hs hrun t t' hstate

theorem Alike.bind (hm : Alike R m m') (hf : ∀ a, Alike R (f a) (f' a)) :
    Alike R (m >>= f) (m' >>= f') := hm.bind_of_run fun a _ _ _ _ _ => hf a

/-- What follows on an outcome may use that it is good. -/
theorem alike_lift_bind {x : Except ε α} (h : ∀ a, x = .ok a → Alike R (f a) (f' a)) :
    Alike R ((liftM x : Run ε σ α) >>= f) ((liftM x : Run ε σ α) >>= f') := by
  cases x with
  | ok a => exact h a rfl
  | error e => exact fun _ _ hs => ⟨rfl, hs⟩

/-- What follows on a look at the states may use that they are related. -/
theorem alike_get_bind {g g' : σ → Run ε σ β} (h : ∀ s s', R s s' → Alike R (g s) (g' s')) :
    Alike R (get >>= g) (get >>= g') := by
  intro s s' hs
  rw [bind_of_ok (get_apply s), bind_of_ok (get_apply s')]
  exact h s s' hs s s' hs

theorem alike_ite {c : Prop} [Decidable c] {n n' : Run ε σ α} (h : c → Alike R m m')
    (h' : ¬c → Alike R n n') : Alike R (if c then m else n) (if c then m' else n') := by
  split
  · exact h ‹_›
  · exact h' ‹_›

theorem alike_forM {g g' : α → Run ε σ PUnit} {xs : List α}
    (h : ∀ x ∈ xs, Alike R (g x) (g' x)) : Alike R (xs.forM g) (xs.forM g') := by
  induction xs with
  | nil => exact alike_pure _
  | cons x xs ih =>
    exact (h x List.mem_cons_self).bind fun _ => ih fun y hy => h y (List.mem_cons_of_mem x hy)

theorem alike_mapM {g g' : α → Run ε σ β} {xs : List α}
    (h : ∀ x ∈ xs, Alike R (g x) (g' x)) : Alike R (xs.mapM g) (xs.mapM g') := by
  induction xs with
  | nil => exact alike_pure _
  | cons x xs ih =>
    rw [List.mapM_cons, List.mapM_cons]
    exact (h x List.mem_cons_self).bind fun y =>
      (ih fun z hz => h z (List.mem_cons_of_mem x hz)).bind fun ys => alike_pure (y :: ys)

theorem alike_foldlM {g g' : β → α → Run ε σ β} {xs : List α}
    (h : ∀ b, ∀ x ∈ xs, Alike R (g b x) (g' b x)) (b : β) :
    Alike R (xs.foldlM g b) (xs.foldlM g' b) := by
  induction xs generalizing b with
  | nil => exact alike_pure b
  | cons x xs ih =>
    rw [List.foldlM_cons, List.foldlM_cons]
    exact (h b x List.mem_cons_self).bind fun c =>
      ih (fun b y hy => h b y (List.mem_cons_of_mem x hy)) c

theorem alike_filterMapM {g g' : α → Run ε σ (Option β)} {xs : List α}
    (h : ∀ x ∈ xs, Alike R (g x) (g' x)) : Alike R (xs.filterMapM g) (xs.filterMapM g') := by
  have hloop : ∀ xs acc, (∀ x ∈ xs, Alike R (g x) (g' x)) →
      Alike R (List.filterMapM.loop g xs acc) (List.filterMapM.loop g' xs acc) := by
    intro xs
    induction xs with
    | nil => exact fun acc _ => alike_pure _
    | cons x xs ih =>
      intro acc hxs
      have hrest := fun y hy => hxs y (List.mem_cons_of_mem x hy)
      refine (hxs x List.mem_cons_self).bind fun y => ?_
      cases y with
      | none => exact ih acc hrest
      | some y => exact ih (y :: acc) hrest
  exact hloop xs [] h

theorem alike_forIn {g g' : α → β → Run ε σ (ForInStep β)} {xs : List α}
    (h : ∀ x ∈ xs, ∀ b, Alike R (g x b) (g' x b)) (b : β) :
    Alike R (forIn xs b g) (forIn xs b g') := by
  induction xs generalizing b with
  | nil => exact alike_pure b
  | cons x xs ih =>
    rw [List.forIn_cons, List.forIn_cons]
    refine (h x List.mem_cons_self b).bind fun r => ?_
    cases r with
    | done c => exact alike_pure c
    | yield c => exact ih (fun y hy => h y (List.mem_cons_of_mem x hy)) c

end Run
end SchemaForge
