import Mathlib.Algebra.Order.Field.Power
import Mathlib.Algebra.Order.Field.Rat
import Mathlib.Tactic.FieldSimp
import Mathlib.Tactic.Linarith
import Mathlib.Tactic.Positivity
import Mathlib.Tactic.Ring
import SchemaForge.Number.Real64

/-!
# Rounding to the nearest number

A quotient is rounded at the scale at which it has fifty-three binary digits, or at the least
scale if it is too small for that. `Real64.ofRatio_eq` says which quotients give a number: those
within half a unit of its significand, where a tie goes to an even one, and below a power of two,
where the grid is finer, those within a quarter.
-/
namespace SchemaForge.Real64

/-! ### Integers nearest to a quotient -/

/-- An integer is nearest to a quotient if it is at most half away, and even if it is as near
as the next one. -/
theorem roundQuotient_eq {num den n : Nat} (hden : 0 < den) (hlow : 2 * n * den ≤ 2 * num + den)
    (hhigh : 2 * num ≤ 2 * n * den + den)
    (htie : n % 2 = 0 ∨ (2 * n * den < 2 * num + den ∧ 2 * num < 2 * n * den + den)) :
    roundQuotient num den = n := by
  have hdiv := Nat.div_add_mod num den
  have hmod := Nat.mod_lt num hden
  unfold roundQuotient
  dsimp only
  generalize num / den = q at hdiv ⊢
  generalize num % den = r at hdiv hmod ⊢
  subst hdiv
  -- The quotient is the integer itself or the one below it.
  have hle : n ≤ q + 1 := by
    by_contra hlt
    have hmul : (q + 2) * den ≤ n * den := Nat.mul_le_mul_right den (by omega)
    nlinarith
  have hge : q ≤ n := by
    by_contra hlt
    have hmul : (n + 1) * den ≤ q * den := Nat.mul_le_mul_right den (by omega)
    nlinarith
  obtain rfl | rfl : n = q ∨ n = q + 1 := by omega
  · split
    · rfl
    · rename_i hhalf
      have hhalf' : 2 * r = den := by nlinarith
      rw [if_neg (by omega)]
      have heven : n % 2 = 0 := htie.resolve_right fun h => by nlinarith [h.2]
      omega
  · have hhalf : den ≤ 2 * r := by nlinarith
    rw [if_neg (by omega)]
    split
    · rfl
    · have hhalf' : 2 * r = den := by omega
      have heven : (q + 1) % 2 = 0 := htie.resolve_right fun h => by nlinarith [h.1]
      omega

/-- An integer nearest to a number, the even one of two. -/
structure Nearest (v : ℚ) (n : ℕ) : Prop where
  /-- It is at most half below. -/
  low : (n : ℚ) - 1 / 2 ≤ v
  /-- It is at most half above. -/
  high : v ≤ n + 1 / 2
  /-- It is even, or the only one. -/
  tie : n % 2 = 0 ∨ ((n : ℚ) - 1 / 2 < v ∧ v < n + 1 / 2)

theorem roundQuotient_of_nearest {num den n : ℕ} (hden : 0 < den)
    (h : Nearest ((num : ℚ) / den) n) : roundQuotient num den = n := by
  have hpos : (0 : ℚ) < den := by exact_mod_cast hden
  have hle : ∀ a b : ℕ, (a : ℚ) - b ≤ 0 → a ≤ b := fun a b hab => by
    exact_mod_cast (sub_nonpos.mp hab)
  have hlow := h.low
  have hhigh := h.high
  rw [le_div_iff₀ hpos] at hlow
  rw [div_le_iff₀ hpos] at hhigh
  refine roundQuotient_eq hden ?_ ?_ (h.tie.imp id fun ⟨hlt, hgt⟩ => ⟨?_, ?_⟩)
  · exact hle _ _ (by push_cast; linarith)
  · exact hle _ _ (by push_cast; linarith)
  · rw [lt_div_iff₀ hpos] at hlt
    have hcast : ((2 * n * den : ℕ) : ℚ) < ((2 * num + den : ℕ) : ℚ) := by push_cast; linarith
    exact_mod_cast hcast
  · rw [div_lt_iff₀ hpos] at hgt
    have hcast : ((2 * num : ℕ) : ℚ) < ((2 * n * den + den : ℕ) : ℚ) := by push_cast; linarith
    exact_mod_cast hcast

/-! ### Scales -/

theorem zpow_of_neg {e : ℤ} (he : e < 0) : (2 : ℚ) ^ e = ((2 ^ (-e).toNat : ℕ) : ℚ)⁻¹ := by
  rw [Nat.cast_pow, Nat.cast_ofNat, ← zpow_natCast, ← zpow_neg, Int.toNat_of_nonneg (by omega),
    neg_neg]

theorem zpow_of_nonneg {e : ℤ} (he : ¬e < 0) : (2 : ℚ) ^ e = ((2 ^ e.toNat : ℕ) : ℚ) := by
  rw [Nat.cast_pow, Nat.cast_ofNat, ← zpow_natCast, Int.toNat_of_nonneg (by omega)]

/-- A quotient at a scale, rounded. -/
theorem significand_eq {num den n : ℕ} {e : ℤ} (hden : 0 < den)
    (h : Nearest ((num : ℚ) / den / 2 ^ e) n) :
    (if e < 0 then roundQuotient (num * Nat.pow 2 (-e).toNat) den
      else roundQuotient num (den * Nat.pow 2 e.toNat)) = n := by
  split
  · rename_i he
    refine roundQuotient_of_nearest hden ?_
    rw [zpow_of_neg he, div_inv_eq_mul] at h
    rw [Nat.pow_eq, Nat.cast_mul, mul_div_right_comm]
    exact h
  · rename_i he
    refine roundQuotient_of_nearest (Nat.mul_pos hden (Nat.pow_pos (by decide))) ?_
    rw [zpow_of_nonneg he, div_div] at h
    rw [Nat.pow_eq, Nat.cast_mul]
    exact h

/-- A quotient has fifty-three binary digits at a scale or is larger. -/
theorem fits_iff {num den : ℕ} (hden : 0 < den) (e : ℤ) :
    (if e < 0 then decide (Nat.pow 2 52 * den ≤ num * Nat.pow 2 (-e).toNat)
      else decide (Nat.pow 2 52 * den * Nat.pow 2 e.toNat ≤ num)) = true
      ↔ (2 : ℚ) ^ (52 + e) ≤ (num : ℚ) / den := by
  have hpos : (0 : ℚ) < den := by exact_mod_cast hden
  rw [le_div_iff₀ hpos, zpow_add₀ (by norm_num)]
  split <;> rw [decide_eq_true_eq]
  · rename_i he
    rw [zpow_of_neg he, ← div_eq_mul_inv, div_mul_eq_mul_div, div_le_iff₀ (by positivity)]
    exact_mod_cast Iff.rfl
  · rename_i he
    rw [zpow_of_nonneg he, mul_right_comm]
    exact_mod_cast Iff.rfl

/-- Powers of two around a quotient. -/
theorem zpow_log2_le {num den : ℕ} (hnum : 0 < num) (hden : 0 < den) :
    (2 : ℚ) ^ ((num.log2 : ℤ) - den.log2 - 1) < (num : ℚ) / den
      ∧ (num : ℚ) / den < 2 ^ ((num.log2 : ℤ) - den.log2 + 1) := by
  have hnumLow : ((2 ^ num.log2 : ℕ) : ℚ) ≤ num := by exact_mod_cast Nat.log2_self_le hnum.ne'
  have hnumHigh : (num : ℚ) < ((2 ^ (num.log2 + 1) : ℕ) : ℚ) := by exact_mod_cast Nat.lt_log2_self
  have hdenLow : ((2 ^ den.log2 : ℕ) : ℚ) ≤ den := by exact_mod_cast Nat.log2_self_le hden.ne'
  have hdenHigh : (den : ℚ) < ((2 ^ (den.log2 + 1) : ℕ) : ℚ) := by exact_mod_cast Nat.lt_log2_self
  push_cast at hnumLow hnumHigh hdenLow hdenHigh
  have hpos : (0 : ℚ) < den := by exact_mod_cast hden
  have hsub : ∀ a b : ℕ, (2 : ℚ) ^ ((a : ℤ) - b) = 2 ^ a / 2 ^ b := fun a b => by
    rw [zpow_sub₀ (by norm_num), zpow_natCast, zpow_natCast]
  constructor
  · rw [show (num.log2 : ℤ) - den.log2 - 1 = (num.log2 : ℤ) - ((den.log2 + 1 : ℕ) : ℤ) by
      push_cast; ring, hsub, div_lt_div_iff₀ (by positivity) hpos]
    calc (2 : ℚ) ^ num.log2 * den < 2 ^ num.log2 * 2 ^ (den.log2 + 1) := by gcongr
      _ ≤ num * 2 ^ (den.log2 + 1) := by gcongr
  · rw [show (num.log2 : ℤ) - den.log2 + 1 = ((num.log2 + 1 : ℕ) : ℤ) - den.log2 by
      push_cast; ring, hsub, div_lt_div_iff₀ hpos (by positivity)]
    calc (num : ℚ) * 2 ^ den.log2 < 2 ^ (num.log2 + 1) * 2 ^ den.log2 := by gcongr
      _ ≤ 2 ^ (num.log2 + 1) * den := by gcongr

/-- **The scale of a quotient** is the one at which it has fifty-three binary digits, or the
least one if it is too small. -/
theorem scaleOf_eq {num den : ℕ} {e : ℤ} (hnum : 0 < num) (hden : 0 < den) (he : -1074 ≤ e)
    (hlow : e = -1074 ∨ (2 : ℚ) ^ (52 + e) ≤ (num : ℚ) / den)
    (hhigh : (num : ℚ) / den < 2 ^ (53 + e)) : scaleOf num den = e := by
  obtain ⟨hbelow, habove⟩ := zpow_log2_le hnum hden
  have hlt : ∀ {a b : ℤ}, (2 : ℚ) ^ a < 2 ^ b → a < b := fun h =>
    (zpow_lt_zpow_iff_right₀ (by norm_num)).mp h
  unfold scaleOf
  dsimp only
  generalize hguess : (num.log2 : ℤ) - den.log2 - 52 = guess
  have hbelow' : (2 : ℚ) ^ (51 + guess) < (num : ℚ) / den := by
    rwa [show 51 + guess = (num.log2 : ℤ) - den.log2 - 1 by omega]
  have habove' : (num : ℚ) / den < 2 ^ (53 + guess) := by
    rwa [show 53 + guess = (num.log2 : ℤ) - den.log2 + 1 by omega]
  -- Two scales at which the quotient has fifty-three digits are the same.
  have hunique : ∀ e', (2 : ℚ) ^ (52 + e') ≤ (num : ℚ) / den → (num : ℚ) / den < 2 ^ (53 + e') →
      max e' (-1074) = e := by
    intro e' hlow' hhigh'
    have hupper := hlt (hlow'.trans_lt hhigh)
    rcases hlow with rfl | hlow
    · omega
    · have hlower := hlt (hlow.trans_lt hhigh')
      omega
  by_cases hfits : (2 : ℚ) ^ (52 + guess) ≤ (num : ℚ) / den
  · rw [if_pos ((fits_iff hden guess).mpr hfits)]
    exact hunique guess hfits habove'
  · rw [if_neg fun h => hfits ((fits_iff hden guess).mp h)]
    refine hunique (guess - 1) ?_ ?_
    · rw [show 52 + (guess - 1) = 51 + guess by omega]
      exact hbelow'.le
    · rw [show 53 + (guess - 1) = 52 + guess by omega]
      exact lt_of_not_ge hfits

/-! ### Numbers nearest to a quotient -/

/-- A quotient that is nearest to a significand at its scale. -/
theorem ofRatio_of_nearest {num den n : ℕ} {e : ℤ} (negative : Bool) (hnum : 0 < num)
    (hden : 0 < den) (hscale : scaleOf num den = e) (h : Nearest ((num : ℚ) / den / 2 ^ e) n)
    (hfinite : (e + 1074).toNat * Nat.pow 2 52 + n < 2047 * Nat.pow 2 52) :
    ofRatio negative num den = ofMagnitude negative ((e + 1074).toNat * Nat.pow 2 52 + n) := by
  have hsignificand := significand_eq hden h
  unfold ofRatio
  rw [if_neg (by omega)]
  dsimp only
  rw [hscale, hsignificand, if_neg (by omega)]

/-- The quotients that are rounded to `m * 2 ^ q`: they are at most half a unit away, or a
quarter below a power of two, and the ends count if `m` is even. -/
structure RoundsTo (m : ℕ) (q : ℤ) (v : ℚ) : Prop where
  /-- The lower end. -/
  low : (4 * m - (if m = 2 ^ 52 ∧ -1074 < q then 1 else 2)) * (2 : ℚ) ^ (q - 2) ≤ v
  /-- The upper end. -/
  high : v ≤ (4 * m + 2) * (2 : ℚ) ^ (q - 2)
  /-- The ends. -/
  ends : m % 2 = 0 ∨ ((4 * m - (if m = 2 ^ 52 ∧ -1074 < q then 1 else 2)) * (2 : ℚ) ^ (q - 2) < v
    ∧ v < (4 * m + 2) * (2 : ℚ) ^ (q - 2))

/-- A significand and an exponent as numbers have them. -/
structure IsSignificand (m : ℕ) (q : ℤ) : Prop where
  /-- It is positive. -/
  pos : 0 < m
  /-- It has at most fifty-three digits. -/
  lt : m < 2 ^ 53
  /-- The exponent is not too small. -/
  le : -1074 ≤ q
  /-- It has fewer digits for the least exponent only. -/
  full : q = -1074 ∨ 2 ^ 52 ≤ m

theorem zpow_natCast_add (k : ℕ) (q : ℤ) : (2 : ℚ) ^ ((k : ℤ) + q) = 2 ^ k * 2 ^ q := by
  rw [zpow_add₀ (by norm_num), zpow_natCast]

theorem zpow_sub_two (q : ℤ) : (2 : ℚ) ^ (q - 2) = 2 ^ q / 4 := by
  rw [zpow_sub₀ (by norm_num)]
  norm_num

namespace RoundsTo

variable {m : ℕ} {q : ℤ} {v : ℚ} (h : RoundsTo m q v)
include h

/-- At the scale of a number, what is rounded to it is nearest to its significand. -/
theorem nearest : Nearest (v / 2 ^ q) m := by
  have hpos : (0 : ℚ) < 2 ^ q := by positivity
  obtain ⟨hlow, hhigh, hends⟩ := h
  rw [zpow_sub_two] at hlow hhigh hends
  refine ⟨?_, ?_, hends.imp id ?_⟩
  · rw [le_div_iff₀ hpos]
    refine le_trans ?_ hlow
    split <;> nlinarith
  · rw [div_le_iff₀ hpos]
    linarith
  · rintro ⟨hlt, hgt⟩
    rw [lt_div_iff₀ hpos, div_lt_iff₀ hpos]
    refine ⟨lt_of_le_of_lt ?_ hlt, by linarith⟩
    split <;> nlinarith

/-- What is rounded to a number has no more than its digits. -/
theorem lt_zpow (hm : m < 2 ^ 53) : v < 2 ^ (53 + q) := by
  have hpos : (0 : ℚ) < 2 ^ q := by positivity
  have hmlt : (m : ℚ) + 1 ≤ 2 ^ 53 := by exact_mod_cast hm
  have hhigh := h.high
  rw [zpow_sub_two] at hhigh
  rw [show (53 + q : ℤ) = ((53 : ℕ) : ℤ) + q from rfl, zpow_natCast_add]
  nlinarith

/-- Only what is rounded to a power of two may have fewer digits. -/
theorem eq_power (hfull : 2 ^ 52 ≤ m) (hbelow : v < 2 ^ (52 + q)) : m = 2 ^ 52 := by
  have hpos : (0 : ℚ) < 2 ^ q := by positivity
  have hlow := h.low
  rw [zpow_sub_two] at hlow
  rw [show (52 + q : ℤ) = ((52 : ℕ) : ℤ) + q from rfl, zpow_natCast_add] at hbelow
  refine le_antisymm ?_ hfull
  by_contra hlarge
  have hlarge : (2 : ℚ) ^ 52 + 1 ≤ m := by exact_mod_cast not_le.mp hlarge
  split at hlow <;> nlinarith

omit h

/-- Just below a power of two the grid is finer. There what is rounded to the power is nearest
to it, and has one digit less. -/
theorem nearest_below (h : RoundsTo (2 ^ 52) q v) (hq : -1074 < q) (hbelow : v < 2 ^ (52 + q)) :
    Nearest (v / 2 ^ (q - 1)) (2 ^ 53) ∧ (2 : ℚ) ^ (51 + q) ≤ v := by
  have hpos : (0 : ℚ) < 2 ^ q := by positivity
  have hlow := h.low
  rw [if_pos ⟨rfl, hq⟩, zpow_sub_two, Nat.cast_pow, Nat.cast_ofNat] at hlow
  rw [show (52 + q : ℤ) = ((52 : ℕ) : ℤ) + q from rfl, zpow_natCast_add] at hbelow
  refine ⟨⟨?_, ?_, .inl (by norm_num)⟩, ?_⟩
  · rw [zpow_sub_one₀ two_ne_zero, le_div_iff₀ (by positivity), Nat.cast_pow, Nat.cast_ofNat]
    linarith
  · rw [zpow_sub_one₀ two_ne_zero, div_le_iff₀ (by positivity), Nat.cast_pow, Nat.cast_ofNat]
    linarith
  · rw [show (51 + q : ℤ) = ((51 : ℕ) : ℤ) + q from rfl, zpow_natCast_add]
    refine le_trans ?_ hlow
    nlinarith

end RoundsTo

/-- **A quotient that is rounded to a number gives this number.** -/
theorem ofRatio_eq {num den m : ℕ} {q : ℤ} (negative : Bool) (hnum : 0 < num) (hden : 0 < den)
    (hm : IsSignificand m q) (h : RoundsTo m q ((num : ℚ) / den))
    (hfinite : (q + 1074).toNat * Nat.pow 2 52 + m < 2047 * Nat.pow 2 52) :
    ofRatio negative num den = ofMagnitude negative ((q + 1074).toNat * Nat.pow 2 52 + m) := by
  by_cases hfull : q = -1074 ∨ (2 : ℚ) ^ (52 + q) ≤ (num : ℚ) / den
  · have hscale : scaleOf num den = q := scaleOf_eq hnum hden hm.le hfull (h.lt_zpow hm.lt)
    exact ofRatio_of_nearest negative hnum hden hscale h.nearest hfinite
  · -- The quotient is below the power of two that it is rounded to.
    obtain ⟨hleast, hbelow⟩ := not_or.mp hfull
    rw [not_le] at hbelow
    obtain rfl := h.eq_power (hm.full.resolve_left hleast) hbelow
    have hq := hm.le
    obtain ⟨hnearest, habove⟩ := h.nearest_below (by omega) hbelow
    have hscale : scaleOf num den = q - 1 := by
      refine scaleOf_eq hnum hden (by omega) (.inr ?_) ?_
      · rwa [show 52 + (q - 1) = 51 + q by omega]
      · rwa [show 53 + (q - 1) = 52 + q by omega]
    have hmagnitude : (q - 1 + 1074).toNat * Nat.pow 2 52 + 2 ^ 53
        = (q + 1074).toNat * Nat.pow 2 52 + 2 ^ 52 := by
      rw [show (q + 1074).toNat = (q - 1 + 1074).toNat + 1 by omega, Nat.pow_eq]
      ring
    rw [← hmagnitude] at hfinite ⊢
    exact ofRatio_of_nearest negative hnum hden hscale hnearest hfinite

/-! ### Finite numbers -/

/-- A finite number by its sign, exponent and significand. -/
theorem eq_ofMagnitude {x : Real64} (h : x.isFinite = true) :
    x = ofMagnitude x.isNegative ((x.exponent + 1074).toNat * Nat.pow 2 52 + x.mantissa)
      ∧ (x.exponent + 1074).toNat * Nat.pow 2 52 + x.mantissa < 2047 * Nat.pow 2 52 := by
  have hbiased : x.biased < 2047 := of_decide_eq_true h
  have hfraction : x.fraction < Nat.pow 2 52 := Nat.mod_lt _ (Nat.pow_pos (by decide))
  have hmagnitude : (x.exponent + 1074).toNat * Nat.pow 2 52 + x.mantissa
      = x.biased * Nat.pow 2 52 + x.fraction := by
    unfold exponent mantissa
    split
    · rename_i hzero
      rw [hzero]
      simp
    · rw [show (((max x.biased 1 : ℕ) : ℤ) - 1075 + 1074).toNat = x.biased - 1 by omega]
      obtain ⟨k, hk⟩ : ∃ k, x.biased = k + 1 := ⟨x.biased - 1, by omega⟩
      rw [hk, Nat.add_sub_cancel]
      ring
  rw [hmagnitude]
  refine ⟨?_, by nlinarith⟩
  have hbits : x.bits.toNat = (if x.isNegative then Nat.pow 2 63 else 0)
      + (x.biased * Nat.pow 2 52 + x.fraction) := by
    have hlt : x.bits.toNat < 2 ^ 64 := x.bits.toNat_lt
    unfold isNegative biased fraction
    simp only [Nat.pow_eq, decide_eq_true_eq]
    split <;> omega
  unfold ofMagnitude
  rw [← hbits]
  cases x
  simp

/-- The exponent and the significand of a finite number that is not zero. -/
theorem isSignificand {x : Real64} (hzero : x.mantissa ≠ 0) :
    IsSignificand x.mantissa x.exponent := by
  have hfraction : x.fraction < Nat.pow 2 52 := Nat.mod_lt _ (Nat.pow_pos (by decide))
  rw [Nat.pow_eq] at hfraction
  refine ⟨Nat.pos_of_ne_zero hzero, ?_, ?_, ?_⟩
  · unfold mantissa
    rw [Nat.pow_eq]
    split <;> omega
  · unfold exponent
    omega
  · unfold exponent mantissa
    rw [Nat.pow_eq]
    split
    · rename_i hleast
      exact .inl (by rw [hleast]; rfl)
    · exact .inr (by omega)

/-- Numbers that are rounded to a finite one are neither too small nor too large. -/
theorem RoundsTo.bounds {m : ℕ} {q : ℤ} {v : ℚ} (h : RoundsTo m q v) (hm : IsSignificand m q)
    (hfinite : (q + 1074).toNat * Nat.pow 2 52 + m < 2047 * Nat.pow 2 52) :
    (2 : ℚ) ^ (-1076 : ℤ) ≤ v ∧ v < 2 ^ (1024 : ℤ) := by
  have hq : q ≤ 971 := by
    by_contra hlarge
    have hexp : 2046 ≤ (q + 1074).toNat := by omega
    rcases hm.full with rfl | hfull
    · omega
    · rw [Nat.pow_eq] at hfinite
      nlinarith
  have hpos : (1 : ℚ) ≤ m := by exact_mod_cast hm.pos
  have hmlt : (m : ℚ) + 1 ≤ 2 ^ 53 := by exact_mod_cast hm.lt
  constructor
  · refine le_trans ?_ h.low
    calc (2 : ℚ) ^ (-1076 : ℤ) ≤ 2 ^ (q - 2) :=
          zpow_le_zpow_right₀ (by norm_num) (by have := hm.le; omega)
      _ = 1 * 2 ^ (q - 2) := (one_mul _).symm
      _ ≤ _ := by
          refine mul_le_mul_of_nonneg_right ?_ (by positivity)
          split <;> linarith
  · refine lt_of_le_of_lt h.high ?_
    calc ((4 : ℚ) * m + 2) * 2 ^ (q - 2) < 2 ^ (55 : ℤ) * 2 ^ (q - 2) := by
          refine mul_lt_mul_of_pos_right ?_ (by positivity)
          norm_num at hmlt ⊢
          linarith
      _ = 2 ^ (55 + (q - 2)) := (zpow_add₀ (by norm_num) _ _).symm
      _ ≤ 2 ^ (1024 : ℤ) := zpow_le_zpow_right₀ (by norm_num) (by omega)

end SchemaForge.Real64
