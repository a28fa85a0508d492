import Mathlib.Algebra.Order.Field.Rat
import Mathlib.Tactic.Positivity
import SchemaForge.Value.Equality

/-!
# Comparing numbers

Numbers of all kinds lie on one line: the finite ones as fractions, and an infinity on each side.
`Numeral.compare?_eq` says that two numbers compare as their places on this line do, so numbers
that are equal compare alike with any other.
-/
namespace SchemaForge

namespace Real64

/-- Fractions compare as rational numbers. -/
theorem compareFractions_eq {a b : Int × Nat} (ha : 0 < a.2) (hb : 0 < b.2) :
    compareFractions a b = compare ((a.1 : ℚ) / a.2) ((b.1 : ℚ) / b.2) := by
  have ha' : (0 : ℚ) < a.2 := by exact_mod_cast ha
  have hb' : (0 : ℚ) < b.2 := by exact_mod_cast hb
  have hlt : ∀ {p q : Int × Nat}, (0 : ℚ) < p.2 → (0 : ℚ) < q.2 →
      (p.1 * q.2 < q.1 * p.2 ↔ (p.1 : ℚ) / p.2 < (q.1 : ℚ) / q.2) := by
    intro p q hp hq
    rw [div_lt_div_iff₀ hp hq]
    exact_mod_cast Iff.rfl
  unfold compareFractions
  rcases lt_trichotomy (a.1 * b.2) (b.1 * a.2) with h | h | h
  · rw [compare_lt_iff_lt.mpr h, compare_lt_iff_lt.mpr ((hlt ha' hb').mp h)]
  · have heq : (a.1 : ℚ) / a.2 = (b.1 : ℚ) / b.2 := by
      rw [div_eq_div_iff ha'.ne' hb'.ne']
      exact_mod_cast h
    rw [compare_eq_iff_eq.mpr h, compare_eq_iff_eq.mpr heq]
  · rw [compare_gt_iff_gt.mpr h, compare_gt_iff_gt.mpr ((hlt hb' ha').mp h)]

theorem toFraction_pos (x : Real64) : 0 < x.toFraction.2 := by
  unfold toFraction
  dsimp only
  split
  · exact Nat.pow_pos (by decide)
  · exact Nat.one_pos

end Real64

namespace Numeral

/-- The place of a number on the line: its side, where the finite numbers are in the middle, and
among these its fraction. -/
def place? : Numeral → Option (Int × ℚ)
  | .int n => some (0, n)
  | .real x =>
    if x.isNaN then none
    else if x.isInfinite then some (if x.isNegative then -1 else 1, 0)
    else some (0, x.toFraction.1 / x.toFraction.2)

/-- The order of two places. -/
def comparePlaces (p q : Int × ℚ) : Ordering := (compare p.1 q.1).then (compare p.2 q.2)

theorem comparePlaces_swap (p q : Int × ℚ) : comparePlaces q p = (comparePlaces p q).swap := by
  unfold comparePlaces
  rw [Ordering.swap_then]
  exact congrArg₂ _ Std.OrientedCmp.eq_swap Std.OrientedCmp.eq_swap

theorem eq_of_comparePlaces {p q : Int × ℚ} (h : comparePlaces p q = .eq) : p = q := by
  obtain ⟨hside, hfraction⟩ := Ordering.then_eq_eq.mp h
  exact Prod.ext (compare_eq_iff_eq.mp hside) (compare_eq_iff_eq.mp hfraction)

theorem comparePlaces_middle (a b : ℚ) : comparePlaces (0, a) (0, b) = compare a b := by
  rw [comparePlaces, compare_eq_iff_eq.mpr rfl, Ordering.eq_then]

theorem compareInt?_eq (n : Int) (y : Real64) : Real64.compareInt? n y
    = (place? (.real y)).map (comparePlaces (0, (n : ℚ))) := by
  simp only [Real64.compareInt?, place?]
  cases y.isNaN with
  | true => rfl
  | false =>
    cases y.isInfinite with
    | true => cases y.isNegative <;> rfl
    | false =>
      have hmiddle : Real64.compareFractions (n, 1) y.toFraction
          = comparePlaces (0, (n : ℚ)) (0, y.toFraction.1 / y.toFraction.2) := by
        rw [comparePlaces_middle, Real64.compareFractions_eq (a := (n, 1)) Nat.one_pos
          y.toFraction_pos, Nat.cast_one, div_one]
      exact congrArg some hmiddle

theorem compareReals?_eq (x y : Real64) : Real64.compare? x y
    = (place? (.real x)).bind fun p => (place? (.real y)).map (comparePlaces p) := by
  simp only [Real64.compare?, place?]
  cases x.isNaN with
  | true => rfl
  | false =>
    cases y.isNaN with
    | true => cases x.isInfinite <;> rfl
    | false =>
      have hmiddle : Real64.compareFractions x.toFraction y.toFraction = comparePlaces
          (0, x.toFraction.1 / x.toFraction.2) (0, y.toFraction.1 / y.toFraction.2) := by
        rw [comparePlaces_middle, Real64.compareFractions_eq x.toFraction_pos y.toFraction_pos]
      cases x.isInfinite <;> cases y.isInfinite
      · exact congrArg some hmiddle
      · cases y.isNegative <;> rfl
      · cases x.isNegative <;> rfl
      · cases x.isNegative <;> cases y.isNegative <;> rfl

/-- **Numbers compare as their places on the line do**, and what has none compares with nothing. -/
theorem compare?_eq (m n : Numeral) :
    compare? m n = (place? m).bind fun p => (place? n).map (comparePlaces p) := by
  cases m with
  | int a =>
    cases n with
    | int b =>
      have hmiddle : compare a b = comparePlaces (0, (a : ℚ)) (0, (b : ℚ)) := by
        have h := Real64.compareFractions_eq (a := (a, 1)) (b := (b, 1)) Nat.one_pos Nat.one_pos
        rw [Real64.compareFractions, Nat.cast_one, mul_one, mul_one, Nat.cast_one, div_one,
          div_one] at h
        rw [comparePlaces_middle, h]
      exact congrArg some hmiddle
    | real y => exact compareInt?_eq a y
  | real x =>
    cases n with
    | int b =>
      rw [compare?, compareInt?_eq, Option.map_map]
      cases place? (.real x) with
      | none => rfl
      | some p => exact congrArg some (comparePlaces_swap _ _).symm
    | real y => exact compareReals?_eq x y

theorem compare?_swap (m n : Numeral) : compare? n m = (compare? m n).map Ordering.swap := by
  rw [compare?_eq, compare?_eq]
  cases place? m with
  | none => cases place? n <;> rfl
  | some p =>
    cases place? n with
    | none => rfl
    | some q => exact congrArg some (comparePlaces_swap p q)

/-- Numbers that are equal compare alike with any other. -/
theorem compare?_congr {m n : Numeral} (h : compare? m n = some .eq) (s : Numeral) :
    compare? m s = compare? n s := by
  rw [compare?_eq] at h
  obtain ⟨p, hp, hq⟩ := Option.bind_eq_some_iff.mp h
  obtain ⟨q, hq, heq⟩ := Option.map_eq_some_iff.mp hq
  obtain rfl := eq_of_comparePlaces heq
  rw [compare?_eq, compare?_eq, hp, hq]

end Numeral
end SchemaForge
