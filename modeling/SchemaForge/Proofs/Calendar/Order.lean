import Mathlib.Order.Compare
import Mathlib.Tactic.Ring
import SchemaForge.Proofs.Text.Digits
import SchemaForge.Store.Stored

/-!
# The order of days and moments as texts

Days and moments are stored as texts of fixed width, from the year down to the microsecond. Such
texts are in order as the days and moments are: numbers of one width compare as their digits do,
and the number of a day grows with its year, then with its month, then with its day.
-/
namespace SchemaForge

/-! ### Orders by several parts -/

/-- Two numbers compare by a first part, and then by the rest, if this decides less. -/
theorem compare_eq_then {a b p q : Nat} {o : Ordering} (hlt : p < q → a < b) (hgt : q < p → b < a)
    (heq : p = q → compare a b = o) : compare a b = (compare p q).then o := by
  rcases Nat.lt_trichotomy p q with h | h | h
  · rw [Nat.compare_eq_lt.mpr (hlt h), Nat.compare_eq_lt.mpr h]
    rfl
  · rw [heq h, h, Nat.compare_eq_eq.mpr rfl]
    rfl
  · rw [Nat.compare_eq_gt.mpr (hgt h), Nat.compare_eq_gt.mpr h]
    rfl

/-- Numbers in two places compare by the higher one first. -/
theorem compare_radix {a b x y base : Nat} (hx : x < base) (hy : y < base) :
    compare (a * base + x) (b * base + y) = (compare a b).then (compare x y) := by
  refine compare_eq_then (fun h => ?_) (fun h => ?_) fun h => ?_
  · have hmul := Nat.mul_le_mul_right base (Nat.succ_le_of_lt h)
    rw [Nat.succ_mul] at hmul
    omega
  · have hmul := Nat.mul_le_mul_right base (Nat.succ_le_of_lt h)
    rw [Nat.succ_mul] at hmul
    omega
  · rw [h]
    simp [Nat.compare_eq_ite_lt]

namespace Text

/-! ### Runs of characters -/

/-- The order of two runs of characters. -/
def order (cs ds : List Char) : Ordering := compareOfLessAndEq cs ds

theorem compareText_ofList (cs ds : List Char) :
    Value.compareText (String.ofList cs) (String.ofList ds) = order cs ds := by
  unfold Value.compareText order compareOfLessAndEq
  simp only [String.lt_iff, String.toList_ofList, String.ofList_inj]

@[simp] theorem order_self (cs : List Char) : order cs cs = .eq := by
  unfold order compareOfLessAndEq
  rw [if_neg (List.lt_irrefl cs), if_pos rfl]

theorem order_eq_iff {cs ds : List Char} : order cs ds = .eq ↔ cs = ds := by
  refine ⟨fun h => ?_, fun h => h ▸ order_self cs⟩
  unfold order compareOfLessAndEq at h
  split at h
  · cases h
  · split at h
    · assumption
    · cases h

theorem order_cons (c d : Char) (cs ds : List Char) :
    order (c :: cs) (d :: ds) = (compareOfLessAndEq c d).then (order cs ds) := by
  unfold order compareOfLessAndEq
  simp only [List.cons_lt_cons_iff, List.cons.injEq]
  by_cases hlt : c < d
  · simp [hlt]
  · by_cases heq : c = d
    · subst heq
      simp
    · simp [hlt, heq]

/-- Runs compare by parts of the same length. -/
theorem order_append {as bs : List Char} (h : as.length = bs.length) (cs ds : List Char) :
    order (as ++ cs) (bs ++ ds) = (order as bs).then (order cs ds) := by
  induction as generalizing bs with
  | nil =>
    cases bs with
    | nil => rw [List.nil_append, List.nil_append, order_self, Ordering.eq_then]
    | cons b bs => cases h
  | cons a as ih =>
    cases bs with
    | nil => cases h
    | cons b bs =>
      rw [List.cons_append, List.cons_append, order_cons, order_cons, ih (Nat.succ.inj h),
        Ordering.then_assoc]

/-! ### Runs of digits -/

theorem ofDigits_lt {ds : List Nat} (h : ∀ d ∈ ds, d < 10) : ofDigits 10 ds < 10 ^ ds.length := by
  induction ds using List.reverseRecOn with
  | nil => simp
  | append_singleton ds d ih =>
    have hd : d < 10 := h d (by simp)
    have hlt := ih fun e he => h e (by simp [he])
    rw [ofDigits_append_singleton, List.length_append, List.length_singleton, pow_succ]
    omega

/-- Digits compare as their characters do. -/
theorem compare_digitChar {d e : Nat} (hd : d < 10) (he : e < 10) :
    compareOfLessAndEq (digitChar d) (digitChar e) = compare d e := by
  have hall : ∀ d < 10, ∀ e < 10,
      compareOfLessAndEq (digitChar d) (digitChar e) = compare d e := by decide
  exact hall d hd e he

/-- Runs of as many digits compare as their values. -/
theorem order_digits {ds es : List Nat} (hlength : ds.length = es.length) (hds : ∀ d ∈ ds, d < 10)
    (hes : ∀ e ∈ es, e < 10) :
    order (ds.map digitChar) (es.map digitChar) = compare (ofDigits 10 ds) (ofDigits 10 es) := by
  induction ds generalizing es with
  | nil =>
    cases es with
    | nil => rfl
    | cons e es => cases hlength
  | cons d ds ih =>
    cases es with
    | nil => cases hlength
    | cons e es =>
      rw [List.forall_mem_cons] at hds hes
      have hlength := Nat.succ.inj hlength
      have hfirst : ∀ (d : Nat) (ds : List Nat),
          ofDigits 10 (d :: ds) = d * 10 ^ ds.length + ofDigits 10 ds := fun d ds => by
        have happend := ofDigits_append 10 [d] ds
        rwa [List.singleton_append, show ofDigits 10 [d] = d by simp [ofDigits]] at happend
      have hlow := ofDigits_lt hds.2
      have hlow' := ofDigits_lt hes.2
      rw [List.map_cons, List.map_cons, order_cons, compare_digitChar hds.1 hes.1,
        ih hlength hds.2 hes.2, hfirst, hfirst, hlength]
      rw [hlength] at hlow
      exact (compare_radix hlow hlow').symm

/-- **Numbers of one width compare as their padded texts.** -/
theorem order_padded {width m n : Nat} (hwidth : width ≠ 0) (hm : m < 10 ^ width)
    (hn : n < 10 ^ width) : order (padded width m) (padded width n) = compare m n := by
  have hdigits : ∀ n, padded width n
      = (List.replicate (width - (ofNat n).length) 0 ++ decimalDigits n).map digitChar := fun n => by
    rw [List.map_append, List.map_replicate]
    rfl
  have hall : ∀ n, ∀ d ∈ List.replicate (width - (ofNat n).length) 0 ++ decimalDigits n, d < 10 := by
    intro n d hd
    rcases List.mem_append.mp hd with hd | hd
    · rw [List.eq_of_mem_replicate hd]
      decide
    · exact decimalDigits_lt n d hd
  have hlength : (padded width m).length = (padded width n).length := by
    rw [length_padded hwidth hm, length_padded hwidth hn]
  rw [hdigits, hdigits, List.length_map, List.length_map] at hlength
  rw [hdigits, hdigits, order_digits hlength (hall m) (hall n), ofDigits_zeros_append,
    ofDigits_zeros_append, ofDigits_decimalDigits, ofDigits_decimalDigits]

/-- A number before a mark decides first. -/
theorem order_padded_cons {width m n : Nat} (hwidth : width ≠ 0) (hm : m < 10 ^ width)
    (hn : n < 10 ^ width) (mark : Char) (cs ds : List Char) :
    order (padded width m ++ mark :: cs) (padded width n ++ mark :: ds)
      = (compare m n).then (order cs ds) := by
  rw [order_append (by rw [length_padded hwidth hm, length_padded hwidth hn]),
    order_padded hwidth hm hn, order_cons, compareOfLessAndEq, if_neg (Char.lt_irrefl mark),
    if_pos rfl, Ordering.eq_then]

end Text

/-! ### Days -/

namespace Date

theorem isLeap_iff (year : Nat) :
    isLeap year = true ↔ year % 4 = 0 ∧ (year % 100 ≠ 0 ∨ year % 400 = 0) := by
  unfold isLeap
  rw [Bool.and_eq_true, Bool.or_eq_true, beq_iff_eq, bne_iff_ne, beq_iff_eq]

theorem daysBeforeYear_succ {year : Nat} (h : 1 ≤ year) :
    daysBeforeYear (year + 1) = daysBeforeYear year + (if isLeap year then 366 else 365) := by
  obtain ⟨y, rfl⟩ : ∃ y, year = y + 1 := ⟨year - 1, by omega⟩
  have hfour : (y + 1) / 4 = y / 4 + (if (y + 1) % 4 = 0 then 1 else 0) := by split <;> omega
  have hcentury : (y + 1) / 100 = y / 100 + (if (y + 1) % 100 = 0 then 1 else 0) := by
    split <;> omega
  have hquad : (y + 1) / 400 = y / 400 + (if (y + 1) % 400 = 0 then 1 else 0) := by split <;> omega
  unfold daysBeforeYear
  rw [Nat.add_sub_cancel, Nat.add_sub_cancel]
  dsimp only
  rw [hfour, hcentury, hquad]
  by_cases hleap : isLeap (y + 1) = true
  · rw [if_pos hleap]
    rw [isLeap_iff] at hleap
    rw [if_pos hleap.1]
    split <;> split <;> omega
  · rw [if_neg hleap]
    rw [isLeap_iff] at hleap
    split <;> split <;> split <;> omega

theorem daysBeforeYear_mono {y z : Nat} (hy : 1 ≤ y) (h : y ≤ z) :
    daysBeforeYear y ≤ daysBeforeYear z := by
  induction h with
  | refl => exact Nat.le_refl _
  | @step z hz ih =>
    rw [daysBeforeYear_succ (Nat.le_trans hy hz)]
    exact Nat.le_trans ih (Nat.le_add_right _ _)

/-- The months of a year are its days. -/
theorem daysBeforeMonth_last (year : Nat) :
    daysBeforeMonth year 13 = if isLeap year then 366 else 365 := by
  simp only [daysBeforeMonth, daysIn]
  split <;> rfl

theorem daysBeforeMonth_mono (year : Nat) {m n : Nat} (h : m ≤ n) :
    daysBeforeMonth year m ≤ daysBeforeMonth year n := by
  induction h with
  | refl => exact Nat.le_refl _
  | @step n _ ih =>
    refine Nat.le_trans ih ?_
    cases n with
    | zero => exact Nat.le_refl _
    | succ n => exact Nat.le_add_right _ _

theorem daysBeforeMonth_succ (year : Nat) {month : Nat} (h : 1 ≤ month) :
    daysBeforeMonth year (month + 1) = daysBeforeMonth year month + daysIn year month := by
  obtain ⟨m, rfl⟩ : ∃ m, month = m + 1 := ⟨month - 1, by omega⟩
  rfl

/-- The months have numbers from 1 to 12. -/
theorem month_mem (d : Date) : 1 ≤ d.month ∧ d.month ≤ 12 := by
  obtain ⟨-, hfirst, hlast⟩ := d.exist
  by_contra hout
  have hnone : daysIn d.year d.month = 0 := by
    unfold daysIn
    split <;> omega
  omega

/-- Days compare by year, then by month, then by day. -/
theorem compare_ordinal (d e : Date) : compare d.ordinal e.ordinal
    = (compare d.year e.year).then ((compare d.month e.month).then (compare d.day e.day)) := by
  -- A day comes before the next month, and a month before the next year.
  have hmonth : ∀ d e : Date, d.year = e.year → d.month < e.month → d.ordinal < e.ordinal := by
    intro d e hyear hlt
    have hstep := daysBeforeMonth_succ d.year (month_mem d).1
    have hmono := daysBeforeMonth_mono d.year (show d.month + 1 ≤ e.month from hlt)
    have hd := d.exist.2
    have he := e.exist.2
    unfold ordinal
    rw [← hyear] at he ⊢
    omega
  have hyear : ∀ d e : Date, d.year < e.year → d.ordinal < e.ordinal := by
    intro d e hlt
    have hstep := daysBeforeMonth_succ d.year (month_mem d).1
    have hlast := daysBeforeMonth_mono d.year (show d.month + 1 ≤ 13 from
      Nat.succ_le_succ (month_mem d).2)
    rw [daysBeforeMonth_last] at hlast
    have hnext := daysBeforeYear_succ d.exist.1.1
    have hmono := daysBeforeYear_mono (by omega) (show d.year + 1 ≤ e.year from hlt)
    rw [hnext] at hmono
    have hd := d.exist.2
    have he := e.exist.2
    unfold ordinal
    omega
  refine compare_eq_then (hyear d e) (hyear e d) fun hy => ?_
  refine compare_eq_then (hmonth d e hy) (hmonth e d hy.symm) fun hm => ?_
  unfold ordinal
  rw [hy, hm]
  simp [Nat.compare_eq_ite_lt]

/-- Days with one number are the same. -/
theorem compare_ordinal_eq_iff {d e : Date} : compare d.ordinal e.ordinal = .eq ↔ d = e := by
  rw [compare_ordinal, Ordering.then_eq_eq, Ordering.then_eq_eq, Nat.compare_eq_eq,
    Nat.compare_eq_eq, Nat.compare_eq_eq]
  cases d
  cases e
  rw [Date.mk.injEq]

/-- Years have four digits, months and days have two. -/
theorem digits_lt (d : Date) : d.year < 10 ^ 4 ∧ d.month < 10 ^ 2 ∧ d.day < 10 ^ 2 := by
  obtain ⟨hyear, hday⟩ := d.exist
  have hmonth := month_mem d
  have hlast : daysIn d.year d.month ≤ 31 := by
    unfold daysIn
    split <;> first | omega | (split <;> omega)
  omega

theorem length_writeDate (d : Date) : (Iso.writeDate d).length = 10 := by
  obtain ⟨hyear, hmonth, hday⟩ := digits_lt d
  unfold Iso.writeDate
  rw [List.length_append, List.length_append, List.length_cons, List.length_cons,
    Text.length_padded (by decide) hyear, Text.length_padded (by decide) hmonth,
    Text.length_padded (by decide) hday]

theorem order_writeDate (d e : Date) :
    Text.order (Iso.writeDate d) (Iso.writeDate e) = compare d.ordinal e.ordinal := by
  obtain ⟨hdy, hdm, hdd⟩ := digits_lt d
  obtain ⟨hey, hem, hed⟩ := digits_lt e
  unfold Iso.writeDate
  rw [List.append_assoc, List.append_assoc, List.cons_append, List.cons_append,
    Text.order_padded_cons (by decide) hdy hey, Text.order_padded_cons (by decide) hdm hem,
    Text.order_padded (by decide) hdd hed, compare_ordinal]

/-- **Days are in order as their texts are.** -/
theorem compareText_iso (d e : Date) :
    Value.compareText d.iso e.iso = compare d.ordinal e.ordinal := by
  unfold iso
  rw [Text.compareText_ofList, order_writeDate]

end Date

/-! ### Moments -/

namespace Moment

/-- Microseconds since the start of year 1, on the clock of the moment. -/
def micros (t : Moment) : Nat :=
  (((t.date.ordinal * 24 + t.hour) * 60 + t.minute) * 60 + t.second) * 1000000 + t.micro

theorem clock_eq (t : Moment) : t.clock = t.micros := by
  unfold clock micros dayMicros hourMicros
  push_cast
  ring

/-- Moments without offset compare by their clocks. -/
theorem compare?_of_naive {s t : Moment} (hs : s.offset = none) (ht : t.offset = none) :
    compare? s t = some (compare s.micros t.micros) := by
  have hcompare : compare (s.micros : Int) t.micros = compare s.micros t.micros := by
    rcases Nat.lt_trichotomy s.micros t.micros with h | h | h
    · rw [compare_lt_iff_lt.mpr h, compare_lt_iff_lt.mpr (Int.ofNat_lt.mpr h)]
    · rw [h, compare_eq_iff_eq.mpr rfl, compare_eq_iff_eq.mpr rfl]
    · rw [compare_gt_iff_gt.mpr h, compare_gt_iff_gt.mpr (Int.ofNat_lt.mpr h)]
  unfold compare? isAware instant
  rw [hs, ht, clock_eq, clock_eq]
  simp [hcompare]

/-- The clock compares by its parts. -/
theorem compare_micros (s t : Moment) : compare s.micros t.micros
    = (compare s.date.ordinal t.date.ordinal).then ((compare s.hour t.hour).then
      ((compare s.minute t.minute).then ((compare s.second t.second).then
        (compare s.micro t.micro)))) := by
  obtain ⟨⟨hs₁, hs₂, hs₃, hs₄⟩, -⟩ := s.exist
  obtain ⟨⟨ht₁, ht₂, ht₃, ht₄⟩, -⟩ := t.exist
  unfold micros
  rw [compare_radix hs₄ ht₄, compare_radix hs₃ ht₃, compare_radix hs₂ ht₂, compare_radix hs₁ ht₁,
    Ordering.then_assoc, Ordering.then_assoc, Ordering.then_assoc]

/-- **Moments without offset are in order as their stored texts are.** -/
theorem compareText_momentText (s t : Moment) :
    Value.compareText (Stored.momentText s) (Stored.momentText t) = compare s.micros t.micros := by
  obtain ⟨⟨hs₁, hs₂, hs₃, hs₄⟩, -⟩ := s.exist
  obtain ⟨⟨ht₁, ht₂, ht₃, ht₄⟩, -⟩ := t.exist
  have htext : ∀ t : Moment, Stored.momentText t = String.ofList (Iso.writeDate t.date ++ ' ' ::
      (Text.padded 2 t.hour ++ ':' :: (Text.padded 2 t.minute ++ ':' ::
        (Text.padded 2 t.second ++ '.' :: Text.padded 6 t.micro)))) := fun t => by
    unfold Stored.momentText Iso.writeClock
    simp only [if_true, List.append_nil, List.append_assoc, List.cons_append]
  rw [htext, htext, Text.compareText_ofList, compare_micros,
    Text.order_append (by rw [Date.length_writeDate, Date.length_writeDate]), Date.order_writeDate,
    Text.order_cons, compareOfLessAndEq, if_neg (Char.lt_irrefl ' '), if_pos rfl, Ordering.eq_then,
    Text.order_padded_cons (by decide) (by omega) (by omega),
    Text.order_padded_cons (by decide) (by omega) (by omega),
    Text.order_padded_cons (by decide) (by omega) (by omega),
    Text.order_padded (by decide) hs₄ ht₄]

end Moment
end SchemaForge
