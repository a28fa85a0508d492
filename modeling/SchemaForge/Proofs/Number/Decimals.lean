import SchemaForge.Proofs.Number.Rounding
import SchemaForge.Proofs.Number.Shortest

/-!
# Decimals that read back

The shortest decimal of a number lies in the interval of what is rounded to it. It is looked for
on finer and finer grids, and on the grid of seventeen digits one of the two neighbours of the
number is always near enough. What it is read as depends on its value only, so every notation of
it reads back as the number.
-/
namespace SchemaForge

open Real64

namespace Decimal

/-- The number that a decimal is. -/
def value (d : Decimal) : ℚ := d.digits * (10 : ℚ) ^ d.power

theorem ten_zpow_of_neg {k : ℤ} (hk : k < 0) : (10 : ℚ) ^ k = ((10 ^ (-k).toNat : ℕ) : ℚ)⁻¹ := by
  rw [Nat.cast_pow, Nat.cast_ofNat, ← zpow_natCast, ← zpow_neg, Int.toNat_of_nonneg (by omega),
    neg_neg]

theorem ten_zpow_of_nonneg {k : ℤ} (hk : ¬k < 0) : (10 : ℚ) ^ k = ((10 ^ k.toNat : ℕ) : ℚ) := by
  rw [Nat.cast_pow, Nat.cast_ofNat, ← zpow_natCast, Int.toNat_of_nonneg (by omega)]

/-! ### Intervals -/

variable {i : Interval} {d m : ℕ} {k q : ℤ}

/-- A decimal in an interval lies between its ends. -/
theorem Interval.holds_iff (hden : 0 < i.den) : i.holds d k = true
    ↔ (i.low : ℚ) / i.den ≤ d * 10 ^ k ∧ (d : ℚ) * 10 ^ k ≤ i.high / i.den
      ∧ (i.closed = true ∨ ((i.low : ℚ) / i.den < d * 10 ^ k ∧ (d : ℚ) * 10 ^ k < i.high / i.den)) := by
  have hpos : (0 : ℚ) < i.den := by exact_mod_cast hden
  -- Both sides are scaled by the denominator and, where the power is negative, by it.
  obtain ⟨x, scale, hscale, hvalue, hholds⟩ : ∃ x scale : ℕ, 0 < scale
      ∧ (d : ℚ) * 10 ^ k = x / (scale * i.den)
      ∧ i.holds d k = if i.closed then decide (i.low * scale ≤ x) && decide (x ≤ i.high * scale)
        else decide (i.low * scale < x) && decide (x < i.high * scale) := by
    by_cases hk : k < 0
    · refine ⟨d * i.den, 10 ^ (-k).toNat, by positivity, ?_, ?_⟩
      · rw [ten_zpow_of_neg hk]
        push_cast
        field_simp
      · simp only [Interval.holds, if_pos hk, Nat.pow_eq]
    · refine ⟨d * 10 ^ k.toNat * i.den, 1, by positivity, ?_, ?_⟩
      · rw [ten_zpow_of_nonneg hk]
        push_cast
        field_simp
      · simp only [Interval.holds, if_neg hk, Nat.pow_eq]
  have hscale' : (0 : ℚ) < scale := by exact_mod_cast hscale
  have hle : ∀ y : ℕ, (y : ℚ) / i.den ≤ x / (scale * i.den) ↔ y * scale ≤ x := fun y => by
    rw [← div_div, div_le_div_iff_of_pos_right hpos, le_div_iff₀ hscale']
    exact_mod_cast Iff.rfl
  have hge : ∀ y : ℕ, (x : ℚ) / (scale * i.den) ≤ y / i.den ↔ x ≤ y * scale := fun y => by
    rw [← div_div, div_le_div_iff_of_pos_right hpos, div_le_iff₀ hscale']
    exact_mod_cast Iff.rfl
  rw [hholds, hvalue]
  simp only [← not_le, hle, hge]
  cases i.closed
  · simp only [Bool.false_eq_true, if_false, Bool.and_eq_true, decide_eq_true_eq, false_or]
    omega
  · simp

/-- The units of a grid in the value, rounded down. -/
theorem Interval.floor_bounds (hden : 0 < i.den) (k : ℤ) :
    (i.floor k : ℚ) * 10 ^ k ≤ i.mid / i.den ∧ (i.mid : ℚ) / i.den < (i.floor k + 1) * 10 ^ k := by
  have hdiv : ∀ a b : ℕ, 0 < b → ((a / b : ℕ) : ℚ) ≤ a / b ∧ (a : ℚ) / b < ((a / b : ℕ) : ℚ) + 1 :=
    fun a b hb => by
      have hb' : (0 : ℚ) < b := by exact_mod_cast hb
      rw [le_div_iff₀ hb', div_lt_iff₀ hb']
      exact ⟨by exact_mod_cast Nat.div_mul_le_self a b,
        by exact_mod_cast (Nat.div_lt_iff_lt_mul hb).mp (Nat.lt_succ_self _)⟩
  have hten : (0 : ℚ) < 10 ^ k := by positivity
  rw [← le_div_iff₀ hten, ← div_lt_iff₀ hten]
  unfold Interval.floor
  split
  · rename_i hk
    rw [ten_zpow_of_neg hk, div_inv_eq_mul, div_mul_eq_mul_div, ← Nat.cast_mul]
    exact hdiv _ _ hden
  · rename_i hk
    rw [ten_zpow_of_nonneg hk, div_div, ← Nat.cast_mul]
    exact hdiv _ _ (Nat.mul_pos hden (Nat.pow_pos (by decide)))

/-- A neighbour on a grid lies in the interval. -/
theorem Interval.neighbour?_holds (h : i.neighbour? k = some d) : i.holds d k = true := by
  unfold Interval.neighbour? at h
  dsimp only at h
  split at h
  · rename_i hlow hhigh
    rw [Bool.and_eq_true] at hlow
    have hd := Option.some.inj h
    obtain rfl | rfl : d = i.floor k ∨ d = i.floor k + 1 := by
      split at hd
      · exact .inl hd.symm
      · split at hd
        · exact .inr hd.symm
        · omega
    · exact hlow.1
    · exact hhigh
  · rename_i hlow _
    rw [Bool.and_eq_true] at hlow
    cases Option.some.inj h
    exact hlow.1
  · rename_i hhigh
    cases Option.some.inj h
    exact hhigh
  · cases h

theorem Interval.neighbour?_isSome (hfloor : i.floor k ≠ 0)
    (h : i.holds (i.floor k) k = true ∨ i.holds (i.floor k + 1) k = true) :
    (i.neighbour? k).isSome = true := by
  unfold Interval.neighbour?
  dsimp only
  rw [show (i.floor k != 0) = true from bne_iff_ne.mpr hfloor, Bool.and_true]
  rcases h with h | h <;> rw [h] <;> split <;> simp_all

/-- If one of the grids has a neighbour, the search finds a decimal in the interval. -/
theorem Interval.search_holds {top : ℤ} {fuel n j : ℕ} (hn : n ≤ j) (hj : j < n + fuel)
    (h : (i.neighbour? (top - j)).isSome = true) :
    i.holds (i.search top fuel n).digits (i.search top fuel n).power = true := by
  induction fuel generalizing n with
  | zero => omega
  | succ fuel ih =>
    unfold Interval.search
    split
    · rename_i d hd
      exact i.neighbour?_holds hd
    · rename_i hnone
      refine ih ?_ (by omega)
      rcases Nat.lt_or_eq_of_le hn with hlt | rfl
      · exact hlt
      · rw [hnone] at h
        cases h

/-! ### The interval of a number -/

/-- The ends of the interval of a number, and the number. -/
theorem interval_eq (m : ℕ) (q : ℤ) (hm : 0 < m) :
    ((interval m q).low : ℚ) / (interval m q).den
        = (4 * m - (if m = 2 ^ 52 ∧ -1074 < q then 1 else 2)) * 2 ^ (q - 2)
      ∧ ((interval m q).mid : ℚ) / (interval m q).den = 4 * m * 2 ^ (q - 2)
      ∧ ((interval m q).high : ℚ) / (interval m q).den = (4 * m + 2) * 2 ^ (q - 2) := by
  have hscale : ∀ y : ℕ, ((y * (if 2 ≤ q then Nat.pow 2 (q - 2).toNat else 1) : ℕ) : ℚ)
      / ((if q < 2 then Nat.pow 2 (2 - q).toNat else 1 : ℕ) : ℚ) = y * 2 ^ (q - 2) := fun y => by
    by_cases hq : q < 2
    · rw [if_pos hq, if_neg (by omega), Nat.mul_one, zpow_of_neg (by omega), Nat.pow_eq,
        show -(q - 2) = 2 - q by omega, div_eq_mul_inv]
    · rw [if_neg hq, if_pos (by omega), zpow_of_nonneg (by omega), Nat.pow_eq]
      push_cast
      ring
  unfold interval
  dsimp only
  rw [hscale, hscale, hscale, Nat.pow_eq]
  refine ⟨?_, by push_cast; ring, by push_cast; ring⟩
  rw [Nat.cast_sub (by split <;> omega)]
  split <;> push_cast <;> ring

/-- **The decimals in the interval of a number are rounded to it.** -/
theorem holds_interval_iff (hm : 0 < m) :
    (interval m q).holds d k = true ↔ RoundsTo m q (d * 10 ^ k) := by
  obtain ⟨hlow, -, hhigh⟩ := interval_eq m q hm
  rw [Interval.holds_iff (den_interval_pos m q), hlow, hhigh]
  have hclosed : (interval m q).closed = true ↔ m % 2 = 0 := decide_eq_true_iff
  rw [hclosed]
  exact ⟨fun ⟨h₁, h₂, h₃⟩ => ⟨h₁, h₂, h₃⟩, fun h => ⟨h.low, h.high, h.ends⟩⟩

/-- On the grid of seventeen digits one of the two neighbours of a number is rounded to it. -/
theorem neighbour?_interval_isSome {top : ℤ} (hm : IsSignificand m q)
    (htop : 1 ≤ (interval m q).floor top) :
    ((interval m q).neighbour? (top - (16 : ℕ))).isSome = true := by
  have hden := den_interval_pos m q
  obtain ⟨-, hmid, -⟩ := interval_eq m q hm.pos
  have hunit := (Interval.floor_bounds hden top).1
  have hfloor := (interval m q).floor_le_floor_sub top 16
  generalize hk : top - ((16 : ℕ) : ℤ) = k at hfloor ⊢
  obtain ⟨hbelow, habove⟩ := Interval.floor_bounds hden k
  rw [hmid] at hunit hbelow habove
  -- A unit of the grid is small against the spacing of the numbers.
  have hsmall : (10 : ℚ) ^ 16 * 10 ^ k ≤ 4 * m * 2 ^ (q - 2) := by
    have hcoarse : (10 : ℚ) ^ top = 10 ^ 16 * 10 ^ k := by
      rw [show top = ((16 : ℕ) : ℤ) + k by omega, zpow_add₀ (by norm_num), zpow_natCast]
    have hone : (1 : ℚ) ≤ (interval m q).floor top := by exact_mod_cast htop
    rw [← hcoarse]
    refine le_trans ?_ hunit
    exact le_mul_of_one_le_left (by positivity) hone
  have hpos : (0 : ℚ) < 2 ^ (q - 2) := by positivity
  have hmlt : (m : ℚ) + 1 ≤ 2 ^ 53 := by exact_mod_cast hm.lt
  refine Interval.neighbour?_isSome (by omega) ?_
  rw [holds_interval_iff hm.pos, holds_interval_iff hm.pos]
  by_cases hnear : ((interval m q).floor k + 1) * (10 : ℚ) ^ k < (4 * m + 2) * 2 ^ (q - 2)
  · refine .inr ⟨?_, by exact_mod_cast hnear.le, .inr ⟨?_, by exact_mod_cast hnear⟩⟩ <;> push_cast
    · refine le_trans ?_ habove.le
      split <;> nlinarith
    · refine lt_of_le_of_lt ?_ habove
      split <;> nlinarith
  · -- The upper neighbour is too far, so the lower one is near.
    rw [not_lt] at hnear
    have hlow : (4 * m - (if m = 2 ^ 52 ∧ -1074 < q then 1 else 2)) * (2 : ℚ) ^ (q - 2)
        < (interval m q).floor k * 10 ^ k := by
      split
      · rename_i hpower
        have hcast : (m : ℚ) = 2 ^ 52 := by exact_mod_cast hpower.1
        nlinarith
      · nlinarith
    refine .inl ⟨hlow.le, ?_, .inr ⟨hlow, ?_⟩⟩
    · refine le_trans hbelow ?_
      nlinarith
    · refine lt_of_le_of_lt hbelow ?_
      nlinarith

/-! ### The shortest decimal -/

theorem value_strip (d : Decimal) : (strip d).value = d.value := by
  induction d using strip.induct with
  | case1 d hd ih =>
    rw [strip, dif_pos hd, ih]
    have hdigits : (d.digits : ℚ) = ((d.digits / 10 : ℕ) : ℚ) * 10 := by
      exact_mod_cast (show d.digits = d.digits / 10 * 10 by omega)
    unfold value
    dsimp only
    rw [hdigits, zpow_add_one₀ (by norm_num)]
    ring
  | case2 d hd => rw [strip, dif_neg hd]

/-- **The shortest decimal of a number is rounded to it.** -/
theorem roundsTo_shortest (hm : IsSignificand m q) : RoundsTo m q (shortest m q).value := by
  have hend : 1 ≤ (interval m q).floor (310 - (640 : ℕ)) :=
    one_le_floor_interval hm.pos.ne' hm.le
  have htop := Interval.one_le_floor_magnitude hend
  have hsearch := Interval.search_holds (Nat.zero_le 16) (show 16 < 0 + 17 by decide)
    (neighbour?_interval_isSome hm htop)
  rw [shortest, value_strip]
  exact (holds_interval_iff hm.pos).mp hsearch

end Decimal

/-! ### Reading -/

namespace Real64

/-- A decimal with a large exponent is beyond the finite numbers. -/
theorem le_of_large {digits : ℕ} {power : ℤ} (hdigits : digits ≠ 0) (hpower : 400 < power) :
    (2 : ℚ) ^ (1024 : ℤ) ≤ digits * 10 ^ power := by
  have hone : (1 : ℚ) ≤ digits := by exact_mod_cast Nat.one_le_iff_ne_zero.mpr hdigits
  calc (2 : ℚ) ^ (1024 : ℤ) ≤ 10 ^ (400 : ℤ) := by
        rw [show (1024 : ℤ) = ((128 * 8 : ℕ) : ℤ) from rfl,
          show (400 : ℤ) = ((50 * 8 : ℕ) : ℤ) from rfl, zpow_natCast, zpow_natCast, pow_mul,
          pow_mul]
        exact pow_le_pow_left₀ (by norm_num) (by norm_num) 8
    _ ≤ 10 ^ power := zpow_le_zpow_right₀ (by norm_num) hpower.le
    _ ≤ digits * 10 ^ power := le_mul_of_one_le_left (by positivity) hone

/-- A decimal with few digits for its small exponent is below the numbers that are not zero. -/
theorem lt_of_small {digits : ℕ} {power : ℤ} (hpower : power + digits.log2 < -1200) :
    (digits : ℚ) * 10 ^ power < 2 ^ (-1076 : ℤ) := by
  have hdigits : (digits : ℚ) < 2 ^ ((digits.log2 : ℤ) + 1) := by
    rw [← Nat.cast_succ, zpow_natCast]
    exact_mod_cast (Nat.lt_log2_self (n := digits))
  have hten : (10 : ℚ) ^ power ≤ 2 ^ power := by
    rw [Decimal.ten_zpow_of_neg (by omega), zpow_of_neg (by omega)]
    refine inv_anti₀ (by positivity) ?_
    exact_mod_cast Nat.pow_le_pow_left (by decide) _
  calc (digits : ℚ) * 10 ^ power ≤ digits * 2 ^ power := by gcongr
    _ < 2 ^ ((digits.log2 : ℤ) + 1) * 2 ^ power := by gcongr
    _ = 2 ^ ((digits.log2 : ℤ) + 1 + power) := (zpow_add₀ (by norm_num) _ _).symm
    _ ≤ 2 ^ (-1076 : ℤ) := zpow_le_zpow_right₀ (by norm_num) (by omega)

/-- **What is read depends on the value only**: every decimal that is rounded to a finite number
is read as this number. -/
theorem ofDecimal_eq {x : Real64} (hfinite : x.isFinite = true) (hzero : x.mantissa ≠ 0)
    {digits : ℕ} {power : ℤ} (hdigits : digits ≠ 0)
    (h : RoundsTo x.mantissa x.exponent (digits * 10 ^ power)) :
    ofDecimal x.isNegative digits power = x := by
  obtain ⟨heq, hbound⟩ := eq_ofMagnitude hfinite
  have hm := isSignificand hzero
  obtain ⟨hlow, hhigh⟩ := h.bounds hm hbound
  have hlarge : ¬(400 < power + digits.log2 / 3 ∧ 400 < power) := fun hpower =>
    absurd hhigh (not_lt.mpr (le_of_large hdigits hpower.2))
  have hsmall : ¬power + digits.log2 < -1200 := fun hpower =>
    absurd hlow (not_le.mpr (lt_of_small hpower))
  unfold ofDecimal
  rw [if_neg hdigits, if_neg hlarge, if_neg hsmall]
  split
  · rename_i hneg
    refine (ofRatio_eq _ (Nat.pos_of_ne_zero hdigits) (Nat.pow_pos (by decide)) hm ?_ hbound).trans
      heq.symm
    rw [Decimal.ten_zpow_of_neg hneg, ← div_eq_mul_inv] at h
    exact h
  · rename_i hneg
    refine (ofRatio_eq _ (Nat.mul_pos (Nat.pos_of_ne_zero hdigits) (Nat.pow_pos (by decide)))
      Nat.one_pos hm ?_ hbound).trans heq.symm
    rw [Decimal.ten_zpow_of_nonneg hneg, ← Nat.cast_mul] at h
    rw [Nat.cast_one, div_one]
    exact h

end Real64
end SchemaForge
