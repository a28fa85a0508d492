import SchemaForge.Language.Parser
import SchemaForge.Proofs.Language.Spelling

/-!
# Reading in context

A type, a literal or a use of a directive is read from tokens in the same way whatever follows,
unless what follows can go on with it. With that a text that reads alone also reads where it
stands among others.
-/
namespace SchemaForge.Language.Parser

variable {α β : Type} {ts r rest : List Token} {n m : Nat}

/-! ### Steps of readers -/

theorem pure_apply (x : α) (ts : List Token) : (pure x : Parser α) ts = some (x, ts) := rfl

theorem bind_of_some {p : Parser α} {f : α → Parser β} {x : α} (h : p ts = some (x, r)) :
    (p >>= f) ts = f x r := by
  change (p ts).bind (fun y => f y.1 y.2) = f x r
  rw [h]
  rfl

theorem bind_of_none {p : Parser α} {f : α → Parser β} (h : p ts = none) : (p >>= f) ts = none := by
  change (p ts).bind (fun y => f y.1 y.2) = none
  rw [h]
  rfl

theorem bind_eq_some {p : Parser α} {f : α → Parser β} {y : β} :
    (p >>= f) ts = some (y, r) ↔ ∃ x ts', p ts = some (x, ts') ∧ f x ts' = some (y, r) := by
  cases h : p ts with
  | none => simp [bind_of_none h]
  | some z =>
    rw [bind_of_some (x := z.1) (r := z.2) h]
    constructor
    · exact fun hy => ⟨z.1, z.2, rfl, hy⟩
    · rintro ⟨x, ts', hz, hy⟩
      cases hz
      exact hy

theorem map_apply (g : α → β) (p : Parser α) (ts : List Token) :
    (g <$> p) ts = (p ts).map fun x => (g x.1, x.2) := by
  change (p >>= fun x => pure (g x)) ts = _
  cases h : p ts with
  | none => exact bind_of_none h
  | some x => exact bind_of_some h

theorem next_cons (t : Token) (ts : List Token) : next (t :: ts) = some (t, ts) := rfl

theorem expect_cons (m : Mark) (ts : List Token) : expect m (.mark m :: ts) = some ((), ts) := by
  unfold expect
  rw [bind_of_some (next_cons _ _), if_pos (beq_self_eq_true _)]
  rfl

theorem name_cons (s : String) (ts : List Token) : name (.name s :: ts) = some (s, ts) := rfl

theorem accept_cons (m : Mark) (ts : List Token) : accept m (.mark m :: ts) = some (true, ts) := by
  cases m <;> rfl

theorem accept_of_ne {m : Mark} (h : ts.head? ≠ some (.mark m)) :
    accept m ts = some (false, ts) := by
  have hpeek : at? m ts = some (false, ts) := by
    change some (ts.head? == some (.mark m), ts) = _
    rw [beq_eq_false_iff_ne.mpr h]
  unfold accept
  rw [bind_of_some hpeek]
  rfl

theorem at?_apply (m : Mark) (ts : List Token) :
    at? m ts = some (ts.head? == some (.mark m), ts) := rfl

theorem fuel_apply (ts : List Token) : fuel ts = some (ts.length + 1, ts) := rfl

/-! ### Readers in context -/

/-- Whether a token can go on with a type, a default or a use of a directive. -/
def goesOn : Token → Bool
  | .mark .bang | .mark .bracketL | .mark .equals | .mark .parenL => true
  | _ => false

/-- Nothing before some tokens goes on into them. -/
def Ends (rest : List Token) : Prop := ∀ t ∈ rest.head?, goesOn t = false

/-- One reader reads in context what another reads alone, and leaves no more than it got. The
two differ in fuel only. -/
structure Carries (p q : Parser α) : Prop where
  /-- What follows is left as it is. -/
  append : ∀ {ts x r} rest, p ts = some (x, r) → (r = [] → Ends rest) →
    q (ts ++ rest) = some (x, r ++ rest)
  /-- What is left was there. -/
  length_le : ∀ {ts x r}, p ts = some (x, r) → r.length ≤ ts.length

namespace Carries

theorem pure (x : α) : Carries (Pure.pure x) (Pure.pure x) := by
  constructor
  · intro ts y r rest h _
    cases h
    rfl
  · intro ts y r h
    cases h
    exact Nat.le_refl _

theorem failure (q : Parser α) : Carries Alternative.failure q := by
  constructor
  · intro ts x r rest h _
    cases h
  · intro ts x r h
    cases h

theorem bind {p q : Parser α} {f g : α → Parser β} (hp : Carries p q)
    (hf : ∀ x, Carries (f x) (g x)) : Carries (p >>= f) (q >>= g) := by
  constructor
  · intro ts y r rest h hr
    obtain ⟨x, ts', hx, hy⟩ := bind_eq_some.mp h
    have hle := (hf x).length_le hy
    have hts' : ts' = [] → Ends rest := by
      rintro rfl
      exact hr (List.eq_nil_of_length_eq_zero (Nat.le_zero.mp hle))
    rw [bind_of_some (hp.append rest hx hts')]
    exact (hf x).append rest hy hr
  · intro ts y r h
    obtain ⟨x, ts', hx, hy⟩ := bind_eq_some.mp h
    exact Nat.le_trans ((hf x).length_le hy) (hp.length_le hx)

theorem map {p q : Parser α} (hp : Carries p q) (f : α → β) : Carries (f <$> p) (f <$> q) :=
  hp.bind fun x => pure (f x)

theorem ite {c : Prop} [Decidable c] {p q p' q' : Parser α} (hp : Carries p q)
    (hp' : Carries p' q') : Carries (if c then p else p') (if c then q else q') := by
  split
  · exact hp
  · exact hp'

theorem next : Carries next next := by
  constructor
  · intro ts x r rest h _
    cases ts with
    | nil => cases h
    | cons t ts =>
      cases h
      rfl
  · intro ts x r h
    cases ts with
    | nil => cases h
    | cons t ts =>
      cases h
      exact Nat.le_succ _

theorem expect (m : Mark) : Carries (expect m) (expect m) :=
  next.bind fun _ => ite (pure _) (failure _)

theorem name : Carries name name := by
  refine next.bind fun t => ?_
  split
  · exact pure _
  · exact failure _

/-- A mark that can go on with what is before it is looked for. -/
theorem accept {m : Mark} (hm : goesOn (.mark m) = true) : Carries (accept m) (accept m) := by
  have hsplit : ∀ ts : List Token, (∃ tail, ts = .mark m :: tail) ∨ ts.head? ≠ some (.mark m) := by
    intro ts
    cases ts with
    | nil => exact .inr (by simp)
    | cons t tail =>
      by_cases ht : t = .mark m
      · exact .inl ⟨tail, by rw [ht]⟩
      · exact .inr (by simpa using ht)
  constructor
  · intro ts x r rest h hr
    rcases hsplit ts with ⟨tail, rfl⟩ | hne
    · rw [accept_cons] at h
      cases h
      exact accept_cons m _
    · rw [accept_of_ne hne] at h
      cases h
      refine accept_of_ne ?_
      cases ts with
      | nil =>
        intro heq
        have := hr rfl _ heq
        rw [hm] at this
        cases this
      | cons t tail => exact hne
  · intro ts x r h
    rcases hsplit ts with ⟨tail, rfl⟩ | hne
    · rw [accept_cons] at h
      cases h
      exact Nat.le_succ _
    · rw [accept_of_ne hne] at h
      cases h
      exact Nat.le_refl _

/-- Fuel for all tokens is more in context. -/
theorem fuel {f g : Nat → Parser α} (h : ∀ {n m}, n ≤ m → Carries (f n) (g m)) :
    Carries (fuel >>= f) (fuel >>= g) := by
  constructor
  · intro ts x r rest hx hr
    rw [bind_of_some (fuel_apply _)] at hx ⊢
    exact (h (by simp)).append rest hx hr
  · intro ts x r hx
    rw [bind_of_some (fuel_apply _)] at hx
    exact (h (Nat.le_refl _)).length_le hx

/-! ### Repetition -/

/-- Items up to a closing mark do not end without the mark. -/
theorem upTo_nil {p q : Parser α} (hp : Carries p q) (close : Mark) (n : Nat) :
    Parser.upTo p close n [] = none := by
  induction n with
  | zero => rfl
  | succ n ih =>
    unfold Parser.upTo
    rw [bind_of_some (accept_of_ne (by simp))]
    simp only [Bool.false_eq_true, if_false]
    cases hx : p [] with
    | none => exact bind_of_none hx
    | some y =>
      obtain ⟨x, r⟩ := y
      have hr := hp.length_le hx
      rw [List.eq_nil_of_length_eq_zero (Nat.le_zero.mp hr)] at hx
      rw [bind_of_some hx, bind_of_none ih]

theorem upTo {p q : Parser α} (hp : Carries p q) (close : Mark) (h : n ≤ m) :
    Carries (upTo p close n) (upTo q close m) := by
  induction n generalizing m with
  | zero => exact failure _
  | succ n ih =>
    obtain ⟨m, rfl⟩ : ∃ k, m = k + 1 := ⟨m - 1, by omega⟩
    have hstep := hp.bind fun x => (ih (Nat.le_of_succ_le_succ h)).bind fun xs => pure (x :: xs)
    constructor
    · intro ts xs r rest hxs hr
      cases ts with
      | nil =>
        rw [upTo_nil hp] at hxs
        cases hxs
      | cons t ts =>
        unfold Parser.upTo at hxs ⊢
        by_cases ht : t = .mark close
        · subst ht
          rw [bind_of_some (accept_cons _ _)] at hxs
          cases hxs
          exact bind_of_some (accept_cons _ _)
        · rw [bind_of_some (accept_of_ne (by simpa using ht))] at hxs
          rw [List.cons_append, bind_of_some (accept_of_ne (by simpa using ht))]
          exact hstep.append rest hxs hr
    · intro ts xs r hxs
      unfold Parser.upTo at hxs
      by_cases ht : ts.head? = some (.mark close)
      · cases ts with
        | nil => cases ht
        | cons t ts =>
          rw [Option.some.inj ht, bind_of_some (accept_cons _ _)] at hxs
          cases hxs
          exact Nat.le_succ _
      · rw [bind_of_some (accept_of_ne ht)] at hxs
        exact hstep.length_le hxs

/-- Items between marks, of which the first can go on with what is before it. -/
theorem optionalMany {p q : Parser α} (hp : Carries p q) {opening : Mark}
    (hopening : goesOn (.mark opening) = true) (close : Mark) :
    Carries (optionalMany opening p close) (optionalMany opening q close) := by
  have hmany : Carries (many opening p close) (many opening q close) :=
    (expect opening).bind fun _ => hp.bind fun x => fuel fun h =>
      (hp.upTo close h).bind fun xs => pure (x :: xs)
  constructor
  · intro ts xs r rest hxs hr
    unfold Parser.optionalMany at hxs ⊢
    rw [bind_of_some (at?_apply _ _)] at hxs ⊢
    by_cases ht : ts.head? = some (.mark opening)
    · have ht' : (ts ++ rest).head? = some (.mark opening) := by
        cases ts with
        | nil => cases ht
        | cons t ts => exact ht
      rw [beq_iff_eq.mpr ht, if_pos rfl] at hxs
      rw [beq_iff_eq.mpr ht', if_pos rfl]
      exact hmany.append rest hxs hr
    · rw [beq_eq_false_iff_ne.mpr ht, if_neg Bool.false_ne_true] at hxs
      cases hxs
      have ht' : (ts ++ rest).head? ≠ some (.mark opening) := by
        cases ts with
        | nil =>
          intro heq
          have := hr rfl _ heq
          rw [hopening] at this
          cases this
        | cons t ts => exact ht
      rw [beq_eq_false_iff_ne.mpr ht', if_neg Bool.false_ne_true]
      rfl
  · intro ts xs r hxs
    unfold Parser.optionalMany at hxs
    rw [bind_of_some (at?_apply _ _)] at hxs
    split at hxs
    · exact hmany.length_le hxs
    · cases hxs
      exact Nat.le_refl _

/-! ### Types, literals and uses of directives -/

theorem typeRef (h : n ≤ m) : Carries (typeRef n) (typeRef m) := by
  induction n generalizing m with
  | zero => exact failure _
  | succ n ih =>
    obtain ⟨m, rfl⟩ : ∃ k, m = k + 1 := ⟨m - 1, by omega⟩
    have hinner := ih (Nat.le_of_succ_le_succ h)
    unfold Parser.typeRef
    have hbang : ∀ inner : TypeRef, Carries (Parser.accept .bang >>= fun bang =>
          if bang = true then Pure.pure inner.nonNull else Pure.pure inner)
        (Parser.accept .bang >>= fun bang =>
          if bang = true then Pure.pure inner.nonNull else Pure.pure inner) :=
      fun inner => (accept rfl).bind fun bang => ite (pure _) (pure _)
    refine (accept rfl).bind fun bracket => ite ?_ ?_
    · exact hinner.bind fun t => (expect _).bind fun _ => (pure _).bind hbang
    · exact (name.map _).bind hbang

theorem literal (const : Bool) (h : n ≤ m) : Carries (literal const n) (literal const m) := by
  induction n generalizing m with
  | zero => exact failure _
  | succ n ih =>
    obtain ⟨m, rfl⟩ : ∃ k, m = k + 1 := ⟨m - 1, by omega⟩
    have hitem := ih (Nat.le_of_succ_le_succ h)
    unfold Parser.literal
    refine next.bind fun t => ?_
    split
    · exact fuel fun h => (hitem.upTo _ h).map _
    · refine fuel fun h => (upTo ?_ _ h).map _
      exact name.bind fun key => (expect _).bind fun _ => hitem.bind fun x => pure _
    · exact ite (failure _) (name.map _)
    all_goals first | exact pure _ | skip
    · exact ite (pure _) (ite (pure _) (ite (pure _) (pure _)))
    · exact failure _

theorem type : Carries type type := fuel typeRef

theorem value (const : Bool) : Carries (value const) (value const) := fuel (literal const)

theorem arguments (const : Bool) : Carries (arguments const) (arguments const) :=
  (name.bind fun _ => (expect _).bind fun _ => (value const).bind fun _ => pure _).optionalMany
    rfl _

theorem defaultValue : Carries defaultValue defaultValue :=
  (accept rfl).bind fun _ => ite ((value true).map _) (pure _)

end Carries

/-- A type and its default, if one follows. -/
def typed : Parser (TypeRef × Option Literal) := do
  let t ← type
  return (t, ← defaultValue)

/-- One use of a directive. -/
def use : Parser DirectiveUse := do
  expect .at
  let key ← name
  return ⟨key, ← arguments true⟩

theorem Carries.typed : Carries typed typed :=
  type.bind fun _ => defaultValue.bind fun _ => pure _

theorem Carries.use : Carries use use :=
  (expect _).bind fun _ => name.bind fun _ => (arguments true).bind fun _ => pure _

/-! ### Texts that read -/

/-- A text without comments reads as something. -/
def Reads (p : Parser α) (s : String) (x : α) : Prop :=
  ∃ ts, Spells s.toList ts ∧ p ts = some (x, [])

/-- The tokens of a text, none if it has none. -/
def tokens (s : String) : List Token := (Token.ofText? s).getD []

namespace Reads

variable {p : Parser α} {s : String} {x : α}

theorem spells (h : p.Reads s x) : Spells s.toList (tokens s) := by
  obtain ⟨ts, hs, -⟩ := h
  rw [tokens, Token.ofText?_of_spells hs]
  exact hs

/-- What reads alone is what the text is. -/
theorem run_eq (h : p.Reads s x) : p.run s = .ok x := by
  obtain ⟨ts, hs, hx⟩ := h
  unfold Parser.run
  rw [Token.ofText?_of_spells hs, Option.bind_some, show StateT.run p ts = some (x, []) from hx]

/-- A text reads as one thing only. -/
theorem unique {y : α} (h : p.Reads s x) (h' : p.Reads s y) : x = y :=
  Except.ok.inj (h.run_eq.symm.trans h'.run_eq)

/-- **What reads alone reads in context.** -/
theorem append (h : p.Reads s x) (hp : Carries p p) (hrest : Ends rest) :
    p (tokens s ++ rest) = some (x, rest) := by
  obtain ⟨ts, hs, hx⟩ := h
  rw [tokens, Token.ofText?_of_spells hs]
  exact hp.append rest hx fun _ => hrest

end Reads

end SchemaForge.Language.Parser
