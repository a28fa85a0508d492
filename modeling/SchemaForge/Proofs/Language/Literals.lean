import SchemaForge.Proofs.Language.Items
import SchemaForge.Proofs.Language.Numerals
import SchemaForge.Proofs.Language.Quoting
import SchemaForge.Registry.Directives

/-!
# Values as literals

What data exchange writes for a truth value, a finite number, a text or a list of such is a
literal of the schema language. Infinite numbers and missing ones have no notation there.
-/
namespace SchemaForge

open Language Parser

namespace Value

mutual

/-- Whether every floating-point number in a value is finite. -/
def isFinite : Value → Bool
  | .real x => x.isFinite
  | .list xs => allFinite xs
  | .tuple xs => allFinite xs
  | _ => true

/-- Whether every floating-point number in some values is finite. -/
def allFinite : List Value → Bool
  | [] => true
  | x :: xs => x.isFinite && allFinite xs

end

mutual

/-- Whether a value is null, a truth value, a finite number, a text or a list of such. -/
def isLiteral : Value → Bool
  | .null => true
  | .bool _ => true
  | .int _ => true
  | .real x => x.isFinite
  | .text _ => true
  | .list xs => allLiteral xs
  | .tuple xs => allLiteral xs
  | _ => false

/-- Whether all of some values are literals. -/
def allLiteral : List Value → Bool
  | [] => true
  | x :: xs => x.isLiteral && allLiteral xs

end

mutual

/-- The literal that such a value is. -/
def literal : Value → Literal
  | .bool b => .bool b
  | .int n => .int (String.ofList (Text.ofInt n))
  | .real x => .float (x.text Real64.notation64)
  | .text s => .string s false
  | .list xs => .list (literals xs)
  | .tuple xs => .list (literals xs)
  | _ => .null

/-- The literals that values are. -/
def literals : List Value → List Literal
  | [] => []
  | x :: xs => x.literal :: literals xs

end

end Value

/-! ### Texts of literals -/

/-- A text is a literal without variables, whatever follows it. -/
def ReadsLiteral (s : String) (x : Literal) : Prop :=
  ∃ ts, Spells s.toList ts ∧ ∀ n rest, ts.length ≤ n → literal true n (ts ++ rest) = some (x, rest)

namespace ReadsLiteral

variable {s : String} {x : Literal} {n : Nat}

theorem spells (h : ReadsLiteral s x) : Spells s.toList (tokens s) := by
  obtain ⟨ts, hs, -⟩ := h
  rw [tokens_of_spells hs]
  exact hs

theorem read (h : ReadsLiteral s x) (hn : (tokens s).length ≤ n) (rest : List Token) :
    literal true n (tokens s ++ rest) = some (x, rest) := by
  obtain ⟨ts, hs, hread⟩ := h
  rw [tokens_of_spells hs] at hn ⊢
  exact hread n rest hn

/-- A literal has tokens, and the first does not close a list. -/
theorem head (h : ReadsLiteral s x) :
    ∃ t tail, tokens s = t :: tail ∧ t ≠ .mark .bracketR := by
  have hread := h.read (Nat.le_succ _) []
  cases htokens : tokens s with
  | nil =>
    rw [htokens] at hread
    cases hread
  | cons t tail =>
    refine ⟨t, tail, rfl, ?_⟩
    rintro rfl
    rw [htokens] at hread
    cases hread

theorem value (h : ReadsLiteral s x) (rest : List Token) :
    Parser.value true (tokens s ++ rest) = some (x, rest) := by
  unfold Parser.value
  rw [bind_of_some (fuel_apply _)]
  exact h.read (by rw [List.length_append]; omega) rest

/-- A literal of one token. -/
theorem of_token {t : Token} (hs : Spells s.toList [t])
    (h : ∀ n rest, literal true (n + 1) (t :: rest) = some (x, rest)) : ReadsLiteral s x := by
  refine ⟨[t], hs, fun n rest hn => ?_⟩
  obtain ⟨n, rfl⟩ : ∃ k, n = k + 1 := ⟨n - 1, by simp at hn; omega⟩
  exact h n rest

/-- Items up to the end of a list are read one after another. -/
theorem upTo {texts : List String} {xs : List Literal} (h : List.Forall₂ ReadsLiteral texts xs)
    {m : Nat} (hm : texts.length < m) (hn : (texts.flatMap tokens).length ≤ n)
    (rest : List Token) :
    Parser.upTo (literal true n) .bracketR m (texts.flatMap tokens ++ .mark .bracketR :: rest)
      = some (xs, rest) := by
  induction h generalizing m with
  | nil =>
    obtain ⟨m, rfl⟩ : ∃ k, m = k + 1 := ⟨m - 1, by omega⟩
    unfold Parser.upTo
    exact bind_of_some (accept_cons _ _)
  | @cons s x texts xs hs _ ih =>
    obtain ⟨m, rfl⟩ : ∃ k, m = k + 1 := ⟨m - 1, by omega⟩
    rw [List.flatMap_cons, List.length_append] at hn
    obtain ⟨t, tail, htokens, hne⟩ := hs.head
    have hread := hs.read (n := n) (by omega) (texts.flatMap tokens ++ .mark .bracketR :: rest)
    have hrest := ih (Nat.lt_of_succ_lt_succ hm) (by omega)
    have hopen : (tokens s ++ (texts.flatMap tokens ++ .mark .bracketR :: rest)).head?
        ≠ some (.mark .bracketR) := by
      rw [htokens]
      exact fun heq => hne (Option.some.inj heq)
    unfold Parser.upTo
    rw [List.flatMap_cons, List.append_assoc, bind_of_some (accept_of_ne hopen),
      if_neg Bool.false_ne_true, bind_of_some hread]
    exact bind_of_some hrest

theorem length_le {texts : List String} {xs : List Literal}
    (h : List.Forall₂ ReadsLiteral texts xs) : texts.length ≤ (texts.flatMap tokens).length := by
  induction h with
  | nil => exact Nat.le_refl _
  | cons hs _ ih =>
    obtain ⟨t, tail, htokens, -⟩ := hs.head
    rw [List.flatMap_cons, htokens, List.length_append, List.length_cons, List.length_cons]
    omega

theorem spells_all {texts : List String} {xs : List Literal}
    (h : List.Forall₂ ReadsLiteral texts xs) : ∀ s ∈ texts, Spells s.toList (tokens s) := by
  induction h with
  | nil => exact fun s hs => by cases hs
  | cons hx _ ih =>
    intro u hu
    rcases List.mem_cons.mp hu with rfl | hu
    · exact hx.spells
    · exact ih u hu

/-- A list of literals is a literal. -/
theorem list {texts : List String} {xs : List Literal} (h : List.Forall₂ ReadsLiteral texts xs) :
    ReadsLiteral ("[" ++ String.intercalate ", " texts ++ "]") (.list xs) := by
  have hclose : Spells "]".toList [.mark .bracketR] := .mark rfl (.done rfl)
  refine ⟨.mark .bracketL :: (texts.flatMap tokens ++ [.mark .bracketR]), ?_, fun n rest hn => ?_⟩
  · rw [String.append_assoc, String.toList_append]
    refine .mark rfl ((Spells.intercalate rfl rfl (spells_all h)).concat hclose ?_)
    rintro c ⟨⟩
    rfl
  · simp only [List.length_cons, List.length_append] at hn
    obtain ⟨n, rfl⟩ : ∃ k, n = k + 1 := ⟨n - 1, by omega⟩
    have hlength := length_le h
    have hitems := upTo h (m := (texts.flatMap tokens ++ .mark .bracketR :: rest).length + 1)
      (by rw [List.length_append]; omega) (n := n) (by omega) rest
    unfold literal
    rw [List.cons_append, List.append_assoc, bind_of_some (next_cons _ _), List.cons_append,
      List.nil_append]
    dsimp only
    rw [bind_of_some (fuel_apply _), map_apply, hitems]
    rfl

end ReadsLiteral

/-! ### Texts of values -/

namespace Value

theorem reads_null : ReadsLiteral (json .null) .null :=
  .of_token (Spells.name (s := "null") (by decide)) fun _ _ => rfl

theorem reads_bool (b : Bool) : ReadsLiteral (json (.bool b)) (.bool b) := by
  cases b with
  | true => exact .of_token (Spells.name (s := "true") (by decide)) fun _ _ => rfl
  | false => exact .of_token (Spells.name (s := "false") (by decide)) fun _ _ => rfl

mutual

/-- **A literal value is written as its literal.** -/
theorem reads_literal : (v : Value) → v.isLiteral = true → ReadsLiteral v.json v.literal
  | .null, _ => reads_null
  | .bool b, _ => reads_bool b
  | .int n, _ => by
    have hs : Spells (json (.int n)).toList [.int (String.ofList (Text.ofInt n))] := by
      rw [json, Json.write, String.toList_ofList]
      exact .ofInt n
    exact .of_token hs fun _ _ => rfl
  | .real x, h => .of_token (Spells.ofReal h _) fun _ _ => rfl
  | .text s, _ => .of_token (Spells.literal s) fun _ _ => rfl
  | .list xs, h => .list (reads_literals xs h)
  | .tuple xs, h => .list (reads_literals xs h)

theorem reads_literals : (xs : List Value) → allLiteral xs = true →
    List.Forall₂ ReadsLiteral (Json.writeAll xs) (literals xs)
  | [], _ => .nil
  | x :: xs, h => by
    rw [allLiteral, Bool.and_eq_true] at h
    exact .cons (reads_literal x h.1) (reads_literals xs h.2)

end

mutual

/-- A value of a literal kind is a literal, if its numbers are finite. -/
theorem isLiteral_of_ofValue : (v : Value) → {k : LiteralKind} → LiteralKind.ofValue v = .ok k →
    v.isFinite = true → v.isLiteral = true
  | .bool _, _, _, _ => rfl
  | .int _, _, _, _ => rfl
  | .real _, _, _, hfinite => hfinite
  | .text _, _, _, _ => rfl
  | .list xs, _, h, hfinite => by
    rw [LiteralKind.ofValue] at h
    cases hitems : LiteralKind.ofItems xs with
    | error e => rw [hitems] at h; cases h
    | ok ks => exact allLiteral_of_ofItems xs hitems hfinite
  | .tuple xs, _, h, hfinite => by
    rw [LiteralKind.ofValue] at h
    cases hitems : LiteralKind.ofItems xs with
    | error e => rw [hitems] at h; cases h
    | ok ks => exact allLiteral_of_ofItems xs hitems hfinite

theorem allLiteral_of_ofItems : (xs : List Value) → {ks : List LiteralKind} →
    LiteralKind.ofItems xs = .ok ks → allFinite xs = true → allLiteral xs = true
  | [], _, _, _ => rfl
  | x :: xs, ks, h, hfinite => by
    rw [allFinite, Bool.and_eq_true] at hfinite
    rw [LiteralKind.ofItems] at h
    rw [allLiteral, Bool.and_eq_true]
    split at h
    · rename_i hnull
      cases x with
      | null => exact ⟨rfl, allLiteral_of_ofItems xs h hfinite.2⟩
      | _ => cases hnull
    · cases hkind : LiteralKind.ofValue x with
      | error e => rw [hkind] at h; cases h
      | ok k =>
        rw [hkind] at h
        obtain ⟨ks', hks, -⟩ := Outcome.map_eq_ok.mp h
        exact ⟨isLiteral_of_ofValue x hkind hfinite.1, allLiteral_of_ofItems xs hks hfinite.2⟩

end

end Value
end SchemaForge
