import SchemaForge.Language.Printer
import SchemaForge.Proofs.Registry.Calls
import SchemaForge.Proofs.Registry.Records

/-!
# Types of arguments of directives

The type that the kinds of an argument make admits every literal that was given for it: a
literal is of its own kind, and kinds merge into one only if that one covers them all.
-/
namespace SchemaForge

open Language

/-- Whether a literal may stand where a type is expected: whole numbers may stand for
floating-point ones, and null wherever it is not excluded. -/
def Language.TypeRef.admits : TypeRef → Literal → Bool
  | .nonNull t, x => match x with
    | .null => false
    | x => t.admits x
  | .named n, x => match x with
    | .null => true
    | .int _ => n == "Int" || n == "Float"
    | .float _ => n == "Float"
    | .string .. => n == "String"
    | .bool _ => n == "Boolean"
    | _ => false
  | .list t, x => match x with
    | .null => true
    | .list xs => xs.all t.admits
    | _ => false

namespace LiteralKind

variable {k l m : LiteralKind} {ks : List LiteralKind}

theorem ref_admits_null (k : LiteralKind) : k.ref.admits .null = true := by
  cases k <;> rfl

theorem literal_ne_null {v : Value} (h : ofValue v = .ok k) : v.literal ≠ .null := by
  intro hliteral
  cases v with
  | bool _ | int _ | real _ | text _ | list _ | tuple _ => cases hliteral
  | _ => cases h

mutual

/-- **A literal is of the type of its kind.** -/
theorem admits_literal : (v : Value) → {k : LiteralKind} → ofValue v = .ok k →
    k.ref.admits v.literal = true
  | .bool _, _, h => by cases h; rfl
  | .int _, _, h => by cases h; rfl
  | .real _, _, h => by cases h; rfl
  | .text _, _, h => by cases h; rfl
  | .list xs, _, h => by
    rw [ofValue] at h
    cases hitems : ofItems xs with
    | error e => rw [hitems] at h; cases h
    | ok ks =>
      rw [hitems] at h
      exact admits_literals xs hitems h
  | .tuple xs, _, h => by
    rw [ofValue] at h
    cases hitems : ofItems xs with
    | error e => rw [hitems] at h; cases h
    | ok ks =>
      rw [hitems] at h
      exact admits_literals xs hitems h

theorem admits_literals (xs : List Value) {whole : Value} {ks : List LiteralKind}
    {k : LiteralKind} (h : ofItems xs = .ok ks) (hwhole : ofKinds whole ks = .ok k) :
    k.ref.admits (.list (Value.literals xs)) = true := by
  have hone : ∃ i, k = list i ∧ ∀ j ∈ ks, j = i := by
    unfold ofKinds at hwhole
    split at hwhole
    · cases hwhole
      exact ⟨string, rfl, fun j hj => by cases hj⟩
    · rename_i j ks
      split at hwhole
      · rename_i hall
        cases hwhole
        refine ⟨j, rfl, fun i hi => ?_⟩
        rcases List.mem_cons.mp hi with rfl | hi
        · rfl
        · exact beq_iff_eq.mp (List.all_eq_true.mp hall i hi)
      · cases hwhole
  obtain ⟨i, rfl, hi⟩ := hone
  exact List.all_eq_true.mpr (admits_items xs h hi)

theorem admits_items : (xs : List Value) → {ks : List LiteralKind} → {i : LiteralKind} →
    ofItems xs = .ok ks → (∀ j ∈ ks, j = i) → ∀ x ∈ Value.literals xs, i.ref.admits x = true
  | [], _, _, _, _ => fun x hx => by cases hx
  | v :: vs, ks, i, h, hi => by
    rw [ofItems] at h
    intro x hx
    rw [Value.literals] at hx
    split at h
    · rename_i hnull
      rcases List.mem_cons.mp hx with rfl | hx
      · cases v with
        | null => exact ref_admits_null i
        | _ => cases hnull
      · exact admits_items vs h hi x hx
    · cases hkind : ofValue v with
      | error e => rw [hkind] at h; cases h
      | ok j =>
        rw [hkind] at h
        obtain ⟨js, hjs, rfl⟩ := Outcome.map_eq_ok.mp h
        rcases List.mem_cons.mp hx with rfl | hx
        · rw [← hi j (List.mem_cons_self ..)]
          exact admits_literal v hkind
        · exact admits_items vs hjs (fun j' hj' => hi j' (List.mem_cons_of_mem _ hj')) x hx

end

/-! ### Kinds that one type covers -/

/-- A kind with whole numbers counted as floating-point ones, alone or in lists. -/
def widened : LiteralKind → LiteralKind
  | int => float
  | list int => list float
  | k => k

/-- Whether one type covers two kinds: they are the same, or whole numbers meet
floating-point ones, alone or in lists. -/
def Merges (k l : LiteralKind) : Prop := k.widened = l.widened

/-- The kind that several make covers each of them. -/
theorem covers_of_merge? (h : merge? ks = some m) (hk : k ∈ ks) :
    k = m ∨ (k = int ∧ m = float) ∨ (k = list int ∧ m = list float) := by
  unfold merge? at h
  split at h <;> cases h <;> simp only [List.mem_cons, List.not_mem_nil, or_false] at hk
  · exact .inl hk
  all_goals rcases hk with rfl | rfl <;> simp

theorem admits_of_merge? (h : merge? ks = some m) (hk : k ∈ ks) {x : Literal}
    (hx : k.ref.admits x = true) : m.ref.admits x = true := by
  have hnumber : ∀ y : Literal, int.ref.admits y = true → float.ref.admits y = true := by
    intro y hy
    cases y <;> first | rfl | cases hy
  rcases covers_of_merge? h hk with rfl | ⟨rfl, rfl⟩ | ⟨rfl, rfl⟩
  · exact hx
  · exact hnumber x hx
  · cases x with
    | list xs =>
      refine List.all_eq_true.mpr fun y hy => hnumber y ?_
      exact List.all_eq_true.mp hx y hy
    | null => rfl
    | _ => cases hx

theorem merges_of_merge? (h : merge? ks = some m) (hk : k ∈ ks) : Merges k m := by
  rcases covers_of_merge? h hk with rfl | ⟨rfl, rfl⟩ | ⟨rfl, rfl⟩ <;> rfl

/-- Besides itself a kind merges with at most one other. -/
theorem eq_of_merges (hkl : k ≠ l) (hkm : k ≠ m) (hl : Merges k l) (hm : Merges k m) : l = m := by
  unfold Merges at hl hm
  have hdefault : ∀ j : LiteralKind, j.widened = j ∨ (j = int ∧ j.widened = float)
      ∨ (j = list int ∧ j.widened = list float) := by
    intro j
    unfold widened
    split <;> simp
  have hk := hdefault k
  have hl' := hdefault l
  have hm' := hdefault m
  grind

/-- **Different kinds make none if and only if two of them do not merge.** -/
theorem merge?_eq_none_iff (hks : ks.Nodup) (hne : ks ≠ []) :
    merge? ks = none ↔ ∃ k ∈ ks, ∃ l ∈ ks, ¬ Merges k l := by
  constructor
  · intro h
    by_contra hall
    push Not at hall
    match ks, hne with
    | [k], _ => cases h
    | [k, l], _ =>
      have hkl : k ≠ l := by simpa using hks
      have hmerges : k.widened = l.widened := hall k (by simp) l (by simp)
      unfold merge? at h
      unfold widened at hmerges
      grind
    | k :: l :: m :: ks, _ =>
      have hkl : k ≠ l ∧ k ≠ m ∧ l ≠ m := by
        simp only [List.nodup_cons, List.mem_cons, not_or] at hks
        exact ⟨hks.1.1, hks.1.2.1, hks.2.1.1⟩
      exact hkl.2.2 (eq_of_merges hkl.1 hkl.2.1 (hall k (by simp) l (by simp))
        (hall k (by simp) m (by simp)))
  · rintro ⟨k, hk, l, hl, hkl⟩
    cases h : merge? ks with
    | none => rfl
    | some m => exact absurd ((merges_of_merge? h hk).trans (merges_of_merge? h hl).symm) hkl

end LiteralKind
end SchemaForge
