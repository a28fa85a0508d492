import SchemaForge.Number.Shortest

/-!
# The shortest decimal is not zero

The search for the shortest decimal of a positive number starts at the greatest power of ten
that does not exceed it. Every finite number that is not zero is at least `2 ^ -1074`, so the
search downwards finds such a power, and on every finer grid the number is at least one unit.
-/
namespace SchemaForge.Decimal

variable {i : Interval}

/-- On a finer grid a number has at least as many units. -/
theorem Interval.floor_le_floor_pred (i : Interval) (k : Int) : i.floor k ≤ i.floor (k - 1) := by
  unfold Interval.floor
  rcases Int.lt_trichotomy k 0 with hk | rfl | hk
  · rw [if_pos hk, if_pos (by omega)]
    have hle : Nat.pow 10 (-k).toNat ≤ Nat.pow 10 (-(k - 1)).toNat :=
      Nat.pow_le_pow_right (by decide) (by omega)
    exact Nat.div_le_div_right (Nat.mul_le_mul_left _ hle)
  · rw [if_neg (by decide), if_pos (by decide)]
    simp only [Int.toNat_zero, Nat.pow_eq, Nat.pow_zero, Nat.mul_one]
    exact Nat.div_le_div_right (Nat.le_mul_of_pos_right _ (Nat.pow_pos (by decide)))
  · rw [if_neg (by omega), if_neg (by omega)]
    by_cases hden : i.den = 0
    · simp [hden]
    · have hle : Nat.pow 10 (k - 1).toNat ≤ Nat.pow 10 k.toNat :=
        Nat.pow_le_pow_right (by decide) (by omega)
      refine Nat.div_le_div_left (Nat.mul_le_mul_left _ hle) ?_
      exact Nat.mul_pos (Nat.pos_of_ne_zero hden) (Nat.pow_pos (by decide))

theorem Interval.floor_le_floor_sub (i : Interval) (k : Int) (n : Nat) :
    i.floor k ≤ i.floor (k - n) := by
  induction n with
  | zero => simp
  | succ n ih =>
    have hstep := i.floor_le_floor_pred (k - n)
    rw [show k - ((n + 1 : Nat) : Int) = k - n - 1 by omega]
    exact Nat.le_trans ih hstep

/-- The search for the first digit finds one, if there is one at its end. -/
theorem Interval.one_le_floor_magnitude {n : Nat} {k : Int} (h : 1 ≤ i.floor (k - n)) :
    1 ≤ i.floor (i.magnitude n k) := by
  induction n generalizing k with
  | zero => simpa [Interval.magnitude] using h
  | succ n ih =>
    unfold Interval.magnitude
    split
    · assumption
    · refine ih ?_
      rwa [show k - 1 - (n : Int) = k - ((n + 1 : Nat) : Int) by omega]

theorem Interval.neighbour?_ne_zero {k : Int} {d : Nat} (h : i.neighbour? k = some d) : d ≠ 0 := by
  unfold Interval.neighbour? at h
  dsimp only at h
  split at h
  · rename_i hlow _
    simp only [Bool.and_eq_true, bne_iff_ne] at hlow
    have hd := Option.some.inj h
    split at hd
    · omega
    · split at hd <;> omega
  · rename_i hlow _
    simp only [Bool.and_eq_true, bne_iff_ne] at hlow
    have hd := Option.some.inj h
    omega
  · have hd := Option.some.inj h
    omega
  · cases h

theorem Interval.search_ne_zero {top : Int} (htop : 1 ≤ i.floor top) (fuel n : Nat) :
    (i.search top fuel n).digits ≠ 0 := by
  induction fuel generalizing n with
  | zero =>
    have hle := i.floor_le_floor_sub top n
    unfold Interval.search
    dsimp only
    omega
  | succ fuel ih =>
    unfold Interval.search
    split
    · rename_i d hd
      exact i.neighbour?_ne_zero hd
    · exact ih _

theorem strip_ne_zero {d : Decimal} (h : d.digits ≠ 0) : (strip d).digits ≠ 0 := by
  induction d using strip.induct with
  | case1 d hd ih =>
    rw [strip, dif_pos hd]
    refine ih ?_
    dsimp only
    omega
  | case2 d hd =>
    rw [strip, dif_neg hd]
    exact h

theorem den_interval_le (m : Nat) {q : Int} {n : Nat} (h : (2 - q).toNat ≤ n) :
    (interval m q).den ≤ Nat.pow 2 n := by
  unfold interval
  dsimp only
  split
  · exact Nat.pow_le_pow_right (by decide) h
  · exact Nat.pow_pos (by decide)

theorem one_le_mid_interval {m : Nat} (q : Int) (hm : m ≠ 0) : 1 ≤ (interval m q).mid := by
  unfold interval
  refine Nat.mul_pos (by omega) ?_
  split
  · exact Nat.pow_pos (by decide)
  · exact Nat.one_pos

theorem den_interval_pos (m : Nat) (q : Int) : 0 < (interval m q).den := by
  unfold interval
  dsimp only
  split
  · exact Nat.pow_pos (by decide)
  · exact Nat.one_pos

theorem two_pow_le_ten_pow {a b : Nat} (h : Nat.pow 2 a ≤ Nat.pow 10 b) (n : Nat) :
    Nat.pow 2 (a * n) ≤ Nat.pow 10 (b * n) := calc
  Nat.pow 2 (a * n) = Nat.pow (Nat.pow 2 a) n := Nat.pow_mul ..
  _ ≤ Nat.pow (Nat.pow 10 b) n := Nat.pow_le_pow_left h n
  _ = Nat.pow 10 (b * n) := (Nat.pow_mul ..).symm

/-- A number of at least `2 ^ -1074` is at least `10 ^ -330`. -/
theorem one_le_floor_interval {m : Nat} {q : Int} (hm : m ≠ 0) (hq : -1074 ≤ q) :
    1 ≤ (interval m q).floor (-330) := by
  have hden := den_interval_le m (n := 109 * 10) (show (2 - q).toNat ≤ 109 * 10 by omega)
  have hten := two_pow_le_ten_pow (a := 109) (b := 33) (by decide) 10
  unfold Interval.floor
  rw [if_pos (by decide), Nat.le_div_iff_mul_le (den_interval_pos m q), Nat.one_mul,
    show (-(-330 : Int)).toNat = 33 * 10 from rfl]
  exact Nat.le_trans hden (Nat.le_trans hten
    (Nat.le_mul_of_pos_left _ (one_le_mid_interval q hm)))

/-- **The shortest decimal of a positive number is positive.** -/
theorem shortest_ne_zero {m : Nat} {q : Int} (hm : m ≠ 0) (hq : -1074 ≤ q) :
    (shortest m q).digits ≠ 0 := by
  have hend : 1 ≤ (interval m q).floor (310 - (640 : Nat)) := one_le_floor_interval hm hq
  exact strip_ne_zero (Interval.search_ne_zero (Interval.one_le_floor_magnitude hend) _ _)

end SchemaForge.Decimal
