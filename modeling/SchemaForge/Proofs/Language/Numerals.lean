import SchemaForge.Proofs.Language.Spelling
import SchemaForge.Proofs.Number.Shortest
import SchemaForge.Proofs.Text.Digits

/-!
# Numbers as tokens

A number is spelled as a whole part, perhaps a fraction and perhaps an exponent; without the
last two it is one token of an integer, with one of them one of another number. The decimal
notation of integers has this form, and so has the notation of every finite floating-point
number: the shortest decimal that reads back never starts with a zero.
-/
namespace SchemaForge.Language

open Text

/-! ### The parts of a number -/

/-- At least one digit, and nothing else. -/
def IsDigits (cs : List Char) : Prop := cs ≠ [] ∧ ∀ c ∈ cs, isAsciiDigit c = true

/-- Digits that start with a zero only if they are one zero. -/
def IsWhole (cs : List Char) : Prop := IsDigits cs ∧ (cs.head? = some '0' → cs = ['0'])

/-- Nothing, or a point and digits. -/
def IsFraction (cs : List Char) : Prop := cs = [] ∨ ∃ ds, cs = '.' :: ds ∧ IsDigits ds

/-- Nothing, or the letter of an exponent, a sign and digits. -/
def IsExponent (cs : List Char) : Prop :=
  cs = [] ∨ ∃ sign ds, cs = 'e' :: sign :: ds ∧ (sign = '+' ∨ sign = '-') ∧ IsDigits ds

variable {cs rest whole frac exp : List Char}

/-- Digits end where no digit follows. -/
theorem digits?_append (h : IsDigits cs) (hrest : ∀ c ∈ rest.head?, isAsciiDigit c = false) :
    digits? (cs ++ rest) = some (cs, rest) := by
  have hspan := @span_append cs isAsciiDigit rest fun _ => hrest
  have htake := List.takeWhile_eq_self_iff.mpr h.2
  have hdrop := List.dropWhile_eq_nil_iff.mpr h.2
  unfold digits?
  rw [hspan.1, hspan.2, htake, hdrop, List.nil_append]
  cases cs with
  | nil => exact absurd rfl h.1
  | cons c cs => rfl

theorem wholePart?_append (h : IsWhole cs) (hrest : ∀ c ∈ rest.head?, isAsciiDigit c = false) :
    wholePart? (cs ++ rest) = some (cs, rest) := by
  obtain ⟨hdigits, hzero⟩ := h
  cases cs with
  | nil => exact absurd rfl hdigits.1
  | cons c cs =>
    by_cases hc : c = '0'
    · subst hc
      obtain rfl := (List.cons.inj (hzero rfl)).2
      cases rest with
      | nil => rfl
      | cons d rest =>
        have hd : isAsciiDigit d = false := hrest d rfl
        simp [wholePart?, hd]
    · have hother : wholePart? (c :: (cs ++ rest)) = digits? (c :: (cs ++ rest)) := by
        unfold wholePart?
        split
        · rename_i heq
          exact absurd (List.cons.inj heq).1 hc
        · rfl
      rw [List.cons_append, hother]
      exact digits?_append hdigits hrest

theorem fraction?_append (h : IsFraction cs) (hdigit : ∀ c ∈ rest.head?, isAsciiDigit c = false)
    (hpoint : rest.head? ≠ some '.') : fraction? (cs ++ rest) = some (cs, rest) := by
  rcases h with rfl | ⟨ds, rfl, hds⟩
  · cases rest with
    | nil => rfl
    | cons c rest =>
      have hc : c ≠ '.' := fun heq => hpoint (by rw [heq]; rfl)
      simp [fraction?, hc]
  · simp only [List.cons_append, fraction?, digits?_append hds hdigit, Option.map_some]

theorem exponent?_whole (h : IsExponent cs) : exponent? cs = some (cs, []) := by
  rcases h with rfl | ⟨sign, ds, rfl, hsign, hds⟩
  · rfl
  · have hread : digits? (ds ++ []) = some (ds, []) := digits?_append hds (by rintro c ⟨⟩)
    rw [List.append_nil] at hread
    rcases hsign with rfl | rfl <;> simp [exponent?, hread]

theorem exponent_head (h : IsExponent exp) : ∀ c ∈ exp.head?, c = 'e' := by
  rcases h with rfl | ⟨sign, ds, rfl, -, -⟩
  · rintro c ⟨⟩
  · rintro c ⟨⟩
    rfl

theorem fraction_head (hf : IsFraction frac) (he : IsExponent exp) :
    ∀ c ∈ (frac ++ exp).head?, isAsciiDigit c = false := by
  rcases hf with rfl | ⟨ds, rfl, -⟩
  · intro c hc
    rw [exponent_head he c hc]
    decide
  · rintro c ⟨⟩
    decide

/-- **A whole part, a fraction and an exponent are one number.** -/
theorem scanNumber_parts (sign : List Char) (hw : IsWhole whole) (hf : IsFraction frac)
    (he : IsExponent exp) : scanNumber sign (whole ++ (frac ++ exp))
      = some (if frac.isEmpty && exp.isEmpty then .int (String.ofList (sign ++ whole ++ frac ++ exp))
          else .float (String.ofList (sign ++ whole ++ frac ++ exp)), []) := by
  have hdigit : ∀ c ∈ exp.head?, isAsciiDigit c = false := by
    intro c hc
    rw [exponent_head he c hc]
    decide
  have hpoint : exp.head? ≠ some '.' := fun heq => absurd (exponent_head he _ heq) (by decide)
  unfold scanNumber
  rw [wholePart?_append hw (fraction_head hf he)]
  simp only [Option.bind_eq_bind, Option.bind_some, fraction?_append hf hdigit hpoint,
    exponent?_whole he]

/-! ### The first character of a number -/

theorem ne_of_isAsciiDigit {c d : Char} (hc : isAsciiDigit c = true)
    (hd : isAsciiDigit d = false) : c ≠ d := by
  rintro rfl
  rw [hc] at hd
  cases hd

theorem isSeparator_of_isAsciiDigit {c : Char} (hc : isAsciiDigit c = true) :
    isSeparator c = false := by
  have hne : ∀ d : Char, isAsciiDigit d = false → c ≠ d := fun d => ne_of_isAsciiDigit hc
  simp only [isSeparator, Bool.or_eq_false_iff, beq_eq_false_iff_ne]
  exact ⟨⟨⟨⟨⟨hne _ (by decide), hne _ (by decide)⟩, hne _ (by decide)⟩, hne _ (by decide)⟩,
    hne _ (by decide)⟩, hne _ (by decide)⟩

theorem isNameStart_of_isAsciiDigit {c : Char} (hc : isAsciiDigit c = true) :
    isNameStart c = false := by
  cases hname : isNameStart c with
  | false => rfl
  | true =>
    exfalso
    unfold isAsciiDigit asciiDigit? at hc
    split at hc
    · rename_i hle
      simp only [isNameStart, Bool.or_eq_true, Bool.and_eq_true, decide_eq_true_eq, beq_iff_eq,
        Char.le_def, UInt32.le_iff_toNat_le, Char.toNat] at hname hle
      -- letters and the underscore have greater codes than the digits
      rcases hname with (⟨hlow, -⟩ | ⟨hlow, -⟩) | rfl
      · exact absurd (Nat.le_trans hlow hle.2) (by decide)
      · exact absurd (Nat.le_trans hlow hle.2) (by decide)
      · exact absurd hle.2 (by decide)
    · cases hc

/-- A token that starts with a digit is a number. -/
theorem scan_digit {c : Char} (hc : isAsciiDigit c = true) (cs : List Char) :
    scan c cs = scanNumber [] (c :: cs) := by
  have hmark : markOf? c = none := by
    unfold markOf?
    split <;> first | rfl | exact absurd hc (by decide)
  have hne : ∀ d : Char, isAsciiDigit d = false → c ≠ d := fun d => ne_of_isAsciiDigit hc
  unfold scan
  simp only [hmark, beq_iff_eq, hne '.' (by decide), hne '"' (by decide), hne '-' (by decide),
    isNameStart_of_isAsciiDigit hc, hc, if_true, if_false, Bool.false_eq_true]

theorem Spells.nil : Spells [] [] := .done rfl

/-- A number, with or without a minus, spells one token. -/
theorem Spells.number (negative : Bool) (hw : IsWhole whole) (hf : IsFraction frac)
    (he : IsExponent exp) {cs : List Char}
    (hcs : cs = (if negative then ['-'] else []) ++ whole ++ frac ++ exp) :
    Spells cs [if frac.isEmpty && exp.isEmpty then .int (String.ofList cs)
      else .float (String.ofList cs)] := by
  have hscan := scanNumber_parts (if negative then ['-'] else []) hw hf he
  rw [← hcs] at hscan
  cases negative with
  | true =>
    have hminus : cs = '-' :: (whole ++ (frac ++ exp)) := by
      rw [hcs, if_pos rfl]
      simp only [List.append_assoc, List.cons_append, List.nil_append]
    rw [if_pos rfl] at hscan
    have hdrop : cs.dropWhile isSeparator = '-' :: (whole ++ (frac ++ exp)) := by
      rw [hminus]
      exact List.dropWhile_cons_of_neg (by decide)
    exact .token hdrop hscan Spells.nil
  | false =>
    have hplain : cs = whole ++ (frac ++ exp) := by
      rw [hcs]
      simp only [Bool.false_eq_true, if_false, List.nil_append, List.append_assoc]
    rw [← hplain, if_neg Bool.false_ne_true] at hscan
    cases hwhole : whole with
    | nil => exact absurd hwhole hw.1.1
    | cons c tail =>
      have hc : isAsciiDigit c = true := hw.1.2 c (by rw [hwhole]; exact List.mem_cons_self ..)
      have hcons : cs = c :: (tail ++ (frac ++ exp)) := by rw [hplain, hwhole, List.cons_append]
      have hdrop : cs.dropWhile isSeparator = c :: (tail ++ (frac ++ exp)) := by
        rw [hcons]
        exact List.dropWhile_cons_of_neg (by simp [isSeparator_of_isAsciiDigit hc])
      exact .token hdrop ((scan_digit hc _).trans (hcons ▸ hscan)) Spells.nil

/-! ### Integers -/

/-- The first digit of a number is zero only for zero. -/
theorem head?_decimalDigits {n : Nat} (h : (decimalDigits n).head? = some 0) : n = 0 := by
  rw [decimalDigits] at h
  split at h
  · exact Option.some.inj h
  · rename_i hn
    rw [List.head?_append] at h
    cases hfirst : (decimalDigits (n / 10)).head? with
    | none => exact absurd (List.head?_eq_none_iff.mp hfirst) (decimalDigits_ne_nil _)
    | some d =>
      rw [hfirst] at h
      rw [Option.some_or, Option.some.injEq] at h
      have := head?_decimalDigits (hfirst.trans (congrArg some h))
      omega
termination_by n
decreasing_by omega

theorem isDigits_ofNat (n : Nat) : IsDigits (ofNat n) := by
  refine ⟨fun h => decimalDigits_ne_nil n (List.map_eq_nil_iff.mp h), fun c hc => ?_⟩
  obtain ⟨d, hd, rfl⟩ := List.mem_map.mp hc
  exact isAsciiDigit_digitChar (decimalDigits_lt n d hd)

theorem digitChar_eq_zero {d : Nat} (h : d < 10) (hd : digitChar d = '0') : d = 0 := by
  revert d
  decide

theorem head?_ofNat {n : Nat} (h : (ofNat n).head? = some '0') : n = 0 := by
  unfold ofNat at h
  rw [List.head?_map] at h
  obtain ⟨d, hd, hzero⟩ := Option.map_eq_some_iff.mp h
  have hlt := decimalDigits_lt n d (List.mem_of_mem_head? hd)
  rw [digitChar_eq_zero hlt hzero] at hd
  exact head?_decimalDigits hd

theorem isWhole_ofNat (n : Nat) : IsWhole (ofNat n) := by
  refine ⟨isDigits_ofNat n, fun h => ?_⟩
  rw [head?_ofNat h, ofNat, decimalDigits]
  rfl

/-- The decimal notation of an integer spells it. -/
theorem Spells.ofInt (n : Int) : Spells (ofInt n) [.int (String.ofList (ofInt n))] := by
  cases n with
  | ofNat n => exact Spells.number false (isWhole_ofNat n) (.inl rfl) (.inl rfl) (by simp [Text.ofInt])
  | negSucc n =>
    exact Spells.number true (isWhole_ofNat (n + 1)) (.inl rfl) (.inl rfl) (by simp [Text.ofInt])

/-! ### Floating-point numbers -/

theorem IsDigits.append (h : IsDigits cs) (hrest : ∀ c ∈ rest, isAsciiDigit c = true) :
    IsDigits (cs ++ rest) := by
  refine ⟨List.append_ne_nil_of_left_ne_nil h.1 _, fun c hc => ?_⟩
  rcases List.mem_append.mp hc with hc | hc
  · exact h.2 c hc
  · exact hrest c hc

theorem IsDigits.prepend (h : IsDigits cs) (hrest : ∀ c ∈ rest, isAsciiDigit c = true) :
    IsDigits (rest ++ cs) := by
  refine ⟨List.append_ne_nil_of_right_ne_nil _ h.1, fun c hc => ?_⟩
  rcases List.mem_append.mp hc with hc | hc
  · exact hrest c hc
  · exact h.2 c hc

theorem isDigits_zeros (n : Nat) : ∀ c ∈ List.replicate n '0', isAsciiDigit c = true := by
  intro c hc
  rw [List.eq_of_mem_replicate hc]
  decide

theorem isDigits_zero : IsDigits ['0'] :=
  ⟨List.cons_ne_nil _ _, isDigits_zeros 1⟩

theorem isDigits_padded (width n : Nat) : IsDigits (padded width n) :=
  (isDigits_ofNat n).prepend (isDigits_zeros _)

/-- Digits of a positive number are a whole part, and so is what goes on from their start. -/
theorem isWhole_of_pos {n : Nat} (hn : n ≠ 0) (h : IsDigits cs)
    (hhead : cs.head? = (ofNat n).head?) : IsWhole cs :=
  ⟨h, fun hzero => absurd (head?_ofNat (hhead.symm.trans hzero)) hn⟩

theorem take_one_ofNat (n : Nat) : IsWhole ((ofNat n).take 1) := by
  cases hds : ofNat n with
  | nil => exact absurd hds (isDigits_ofNat n).1
  | cons c ds =>
    have hc : isAsciiDigit c = true := (isDigits_ofNat n).2 c (hds ▸ List.mem_cons_self ..)
    refine ⟨⟨by simp, ?_⟩, fun h => ?_⟩
    · intro d hd
      rw [List.take_succ_cons, List.take_zero, List.mem_singleton] at hd
      rwa [hd]
    · rw [List.take_succ_cons, List.take_zero, List.head?_cons] at h
      rw [List.take_succ_cons, List.take_zero, Option.some.inj h]

/-- The exponent that a text gives; zero without one. -/
def exponentValue : List Char → Int
  | 'e' :: sign :: ds =>
    if sign = '-' then -(ofDigits 10 (digitsOf ds) : Int) else ofDigits 10 (digitsOf ds)
  | _ => 0

@[simp] theorem exponentValue_nil : exponentValue [] = 0 := rfl

theorem exponentValue_padded (width : Nat) (e : Int) :
    exponentValue ('e' :: (if e < 0 then '-' else '+') :: padded width e.natAbs) = e := by
  simp only [exponentValue, ofDigits_padded]
  by_cases he : e < 0
  · rw [if_pos he, if_pos rfl]
    omega
  · rw [if_neg he, if_neg (by decide)]
    omega

/-- A positive decimal by its parts, with a point or an exponent. There may be more zeros at the
end of its digits. -/
structure IsNotation (d : Decimal) (whole frac exp : List Char) : Prop where
  /-- The whole part. -/
  isWhole : IsWhole whole
  /-- The fraction. -/
  isFraction : IsFraction frac
  /-- The exponent. -/
  isExponent : IsExponent exp
  /-- It is not the notation of an integer. -/
  isReal : (frac.isEmpty && exp.isEmpty) = false
  /-- Its digits are those of the decimal, and so is what scales them. -/
  value : ∃ zeros : Nat, ofDigits 10 (digitsOf (whole ++ frac)) = d.digits * 10 ^ zeros
    ∧ exponentValue exp - ((frac.length - 1 : Nat) : Int) = d.power - zeros

section Shapes

variable {d : Decimal}

/-- A point among digits does not change them. -/
theorem digitsOf_point (cs ds : List Char) : digitsOf (cs ++ '.' :: ds) = digitsOf (cs ++ ds) := by
  rw [digitsOf_append, digitsOf_cons_of_not rfl, digitsOf_append]

theorem ofDigits_digitsOf_ofNat (n : Nat) : ofDigits 10 (digitsOf (ofNat n)) = n := by
  rw [digitsOf_ofNat, ofDigits_decimalDigits]

/-- All digits stand after the point, behind zeros. -/
theorem isNotation_below {zeros : Nat}
    (hpower : d.power = -((zeros + (ofNat d.digits).length : Nat) : Int)) :
    IsNotation d ['0'] ('.' :: (List.replicate zeros '0' ++ ofNat d.digits)) [] where
  isWhole := ⟨isDigits_zero, fun _ => rfl⟩
  isFraction := .inr ⟨_, rfl, (isDigits_ofNat _).prepend (isDigits_zeros _)⟩
  isExponent := .inl rfl
  isReal := rfl
  value := by
    have hzeros : ['0'] ++ (List.replicate zeros '0' ++ ofNat d.digits)
        = List.replicate (zeros + 1) '0' ++ ofNat d.digits := rfl
    refine ⟨0, ?_, ?_⟩
    · rw [digitsOf_point, hzeros, digitsOf_append, digitsOf_zeros, ofDigits_zeros_append,
        ofDigits_digitsOf_ofNat, Nat.pow_zero, Nat.mul_one]
    · rw [exponentValue_nil, List.length_cons, Nat.add_sub_cancel, List.length_append,
        List.length_replicate]
      omega

/-- All digits stand before the point, with zeros behind them. -/
theorem isNotation_whole (hd : d.digits ≠ 0) {zeros : Nat} (hpower : d.power = zeros) :
    IsNotation d (ofNat d.digits ++ List.replicate zeros '0') ['.', '0'] [] where
  isWhole := by
    have hds := isDigits_ofNat d.digits
    refine isWhole_of_pos hd (hds.append (isDigits_zeros _)) ?_
    rw [List.head?_append]
    cases hfirst : (ofNat d.digits).head? with
    | none => exact absurd (List.head?_eq_none_iff.mp hfirst) hds.1
    | some c => rfl
  isFraction := .inr ⟨['0'], rfl, isDigits_zero⟩
  isExponent := .inl rfl
  isReal := rfl
  value := by
    refine ⟨zeros + 1, ?_, ?_⟩
    · have hzeros : List.replicate zeros '0' ++ ['0'] = List.replicate (zeros + 1) '0' :=
        List.replicate_succ'.symm
      rw [digitsOf_point, List.append_assoc, hzeros, digitsOf_append, digitsOf_zeros,
        ofDigits_append_zeros, ofDigits_digitsOf_ofNat]
    · rw [exponentValue_nil, hpower]
      simp

/-- The point stands among the digits. -/
theorem isNotation_among (hd : d.digits ≠ 0) {whole : Nat} (hwhole : whole ≠ 0)
    (hlength : whole < (ofNat d.digits).length)
    (hpower : d.power = whole - ((ofNat d.digits).length : Int)) :
    IsNotation d ((ofNat d.digits).take whole) ('.' :: (ofNat d.digits).drop whole) [] where
  isWhole := by
    have hds := isDigits_ofNat d.digits
    refine isWhole_of_pos hd ⟨?_, fun c hc => hds.2 c (List.mem_of_mem_take hc)⟩ ?_
    · rw [ne_eq, List.take_eq_nil_iff, not_or]
      exact ⟨hwhole, hds.1⟩
    · rw [List.head?_take, if_neg hwhole]
  isFraction := by
    refine .inr ⟨_, rfl, fun h => ?_, fun c hc =>
      (isDigits_ofNat d.digits).2 c (List.mem_of_mem_drop hc)⟩
    have := List.drop_eq_nil_iff.mp h
    omega
  isExponent := .inl rfl
  isReal := rfl
  value := by
    refine ⟨0, ?_, ?_⟩
    · rw [digitsOf_point, List.take_append_drop, ofDigits_digitsOf_ofNat, Nat.pow_zero, Nat.mul_one]
    · rw [exponentValue_nil, List.length_cons, Nat.add_sub_cancel, List.length_drop]
      omega

/-- One digit stands before the point, and an exponent behind the digits. -/
theorem isNotation_scaled (width : Nat) {e : Int}
    (hpower : d.power = e - (((ofNat d.digits).length - 1 : Nat) : Int)) :
    IsNotation d ((ofNat d.digits).take 1)
      (if ((ofNat d.digits).drop 1).isEmpty then [] else '.' :: (ofNat d.digits).drop 1)
      ('e' :: (if e < 0 then '-' else '+') :: padded width e.natAbs) where
  isWhole := take_one_ofNat _
  isFraction := by
    split
    · exact .inl rfl
    · rename_i htail
      exact .inr ⟨_, rfl, fun h => htail (List.isEmpty_iff.mpr h), fun c hc =>
        (isDigits_ofNat d.digits).2 c (List.mem_of_mem_drop hc)⟩
  isExponent := by
    refine .inr ⟨_, _, rfl, ?_, isDigits_padded _ _⟩
    split
    · exact .inr rfl
    · exact .inl rfl
  isReal := Bool.and_false _
  value := by
    have hdigits : digitsOf ((ofNat d.digits).take 1
        ++ (if ((ofNat d.digits).drop 1).isEmpty then [] else '.' :: (ofNat d.digits).drop 1))
        = digitsOf (ofNat d.digits) := by
      split
      · rename_i htail
        rw [← List.isEmpty_iff.mp htail, List.take_append_drop]
      · rw [digitsOf_point, List.take_append_drop]
    have hlength : (if ((ofNat d.digits).drop 1).isEmpty then []
        else '.' :: (ofNat d.digits).drop 1).length - 1 = (ofNat d.digits).length - 1 := by
      split
      · rename_i htail
        have := List.drop_eq_nil_iff.mp (List.isEmpty_iff.mp htail)
        simp only [List.length_nil]
        omega
      · rw [List.length_cons, Nat.add_sub_cancel, List.length_drop]
    refine ⟨0, ?_, ?_⟩
    · rw [hdigits, ofDigits_digitsOf_ofNat, Nat.pow_zero, Nat.mul_one]
    · rw [exponentValue_padded, hlength, hpower]
      omega

end Shapes

open Real64 in
/-- **A positive decimal is written as a number that is equal to it.** -/
theorem isNotation_writeDecimal (f : DecimalFormat) {d : Decimal} (hd : d.digits ≠ 0) :
    ∃ whole frac exp, writeDecimal f d = whole ++ frac ++ exp ∧ IsNotation d whole frac exp := by
  have hpos : 0 < (ofNat d.digits).length := List.length_pos_iff.mpr (isDigits_ofNat d.digits).1
  unfold writeDecimal
  dsimp only
  split
  · split
    · refine ⟨['0'], '.' :: (List.replicate _ '0' ++ ofNat d.digits), [],
        (List.append_nil _).symm, ?_⟩
      exact isNotation_below (by omega)
    · split
      · refine ⟨_, ['.', '0'], [], (List.append_nil _).symm, ?_⟩
        exact isNotation_whole hd (by omega)
      · refine ⟨_, '.' :: (ofNat d.digits).drop _, [], (List.append_nil _).symm, ?_⟩
        exact isNotation_among hd (by omega) (by omega) (by omega)
  · refine ⟨_, _, _, rfl, ?_⟩
    exact isNotation_scaled _ (by omega)

/-- **A finite number is written as one token, which is not an integer.** -/
theorem Spells.ofReal {x : Real64} (h : x.isFinite) (f : DecimalFormat) :
    Spells (x.text f).toList [.float (x.text f)] := by
  have hbiased : x.biased < 2047 := of_decide_eq_true h
  have hne : (x.biased == 2047) = false := beq_eq_false_iff_ne.mpr (Nat.ne_of_lt hbiased)
  have hspells : ∀ {cs whole frac exp : List Char}, cs = whole ++ frac ++ exp → IsWhole whole →
      IsFraction frac → IsExponent exp → (frac.isEmpty && exp.isEmpty) = false →
      Spells ((if x.isNegative then "-" else "") ++ String.ofList cs).toList
        [.float ((if x.isNegative then "-" else "") ++ String.ofList cs)] := by
    intro cs whole frac exp hcs hw hf he hnumber
    have hnum := Spells.number x.isNegative hw hf he rfl
    rw [hnumber, if_neg Bool.false_ne_true] at hnum
    have htext : (if x.isNegative then "-" else "") ++ String.ofList cs
        = String.ofList ((if x.isNegative then ['-'] else []) ++ whole ++ frac ++ exp) := by
      apply String.ext
      rw [String.toList_append, String.toList_ofList, String.toList_ofList, hcs]
      cases x.isNegative <;> simp
    rw [htext, String.toList_ofList]
    exact hnum
  unfold Real64.text
  rw [Real64.isNaN, Real64.isInfinite, hne, Bool.false_and, Bool.false_and,
    if_neg Bool.false_ne_true, if_neg Bool.false_ne_true]
  split
  · have hparts : "0.0".toList = ['0'] ++ ['.', '0'] ++ [] := rfl
    exact hspells hparts ⟨isDigits_zero, fun _ => rfl⟩ (.inr ⟨['0'], rfl, isDigits_zero⟩) (.inl rfl)
      rfl
  · rename_i hzero
    have hexponent : -1074 ≤ x.exponent := by
      unfold Real64.exponent
      omega
    obtain ⟨whole, frac, exp, hparts, h⟩ :=
      isNotation_writeDecimal f (Decimal.shortest_ne_zero hzero hexponent)
    exact hspells hparts h.isWhole h.isFraction h.isExponent h.isReal

end SchemaForge.Language
