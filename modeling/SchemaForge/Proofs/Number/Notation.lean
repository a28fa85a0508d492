import SchemaForge.Proofs.Language.Literals
import SchemaForge.Proofs.Number.Decimals
import SchemaForge.Scalar

/-!
# Numbers that read back

A number by its parts is read as the decimal that they spell. What is written for a finite
floating-point number spells its shortest decimal, so it is read as the number itself; with lists
and texts this makes the data of a literal the value that was written.
-/
namespace SchemaForge

open Language Text

namespace Json

variable {cs rest whole frac exp : List Char}

/-! ### The parts of a number -/

/-- Digits end where no digit follows. -/
theorem digits_append (h : ∀ c ∈ cs, isAsciiDigit c = true)
    (hrest : ∀ c ∈ rest.head?, isAsciiDigit c = false) :
    digits (cs ++ rest) = (digitsOf cs, rest) := by
  have hspan := @span_append cs isAsciiDigit rest fun _ => hrest
  have htake := List.takeWhile_eq_self_iff.mpr h
  have hdrop := List.dropWhile_eq_nil_iff.mpr h
  unfold digits
  rw [hspan.1, hspan.2, htake, hdrop, List.nil_append]
  rfl

theorem digitsOf_ne_nil (h : IsDigits cs) : (digitsOf cs).isEmpty = false := by
  rw [List.isEmpty_eq_false_iff, ← List.length_pos_iff, length_digitsOf h.2]
  exact List.length_pos_iff.mpr h.1

theorem fractionPart_append (hf : IsFraction frac) (he : IsExponent exp) :
    fractionPart (frac ++ exp) = (digitsOf frac, exp) := by
  obtain rfl | ⟨ds, rfl, hds⟩ := hf
  · obtain rfl | ⟨sign, ds, rfl, -, -⟩ := he <;> rfl
  · have hhead : ∀ c ∈ exp.head?, isAsciiDigit c = false := fun c hc => by
      rw [exponent_head he c hc]
      rfl
    rw [List.cons_append, fractionPart, digits_append hds.2 hhead]
    dsimp only
    rw [digitsOf_ne_nil hds, if_neg Bool.false_ne_true, digitsOf_cons_of_not rfl]

theorem exponentPart_eq (he : IsExponent exp) :
    exponentPart exp = (if exp.isEmpty then none else some (exponentValue exp), []) := by
  obtain rfl | ⟨sign, ds, rfl, hsign, hds⟩ := he
  · rfl
  · have hdigits : digits ds = (digitsOf ds, []) := by
      have happend : digits (ds ++ []) = (digitsOf ds, []) := digits_append hds.2 (by simp)
      rwa [List.append_nil] at happend
    have hne := digitsOf_ne_nil hds
    obtain rfl | rfl := hsign <;> simp [exponentPart, exponentValue, hdigits, hne]

/-- The value that the parts of a number spell. -/
def numeral (negative : Bool) (whole frac exp : List Char) : Value :=
  if frac.isEmpty && exp.isEmpty then
    .int (if negative then -(ofDigits 10 (digitsOf whole) : Int) else ofDigits 10 (digitsOf whole))
  else .real (Real64.ofDecimal negative (ofDigits 10 (digitsOf (whole ++ frac)))
    (exponentValue exp - ((frac.length - 1 : Nat) : Int)))

/-- The text of a number by its parts. -/
def numeralText (negative : Bool) (whole frac exp : List Char) : List Char :=
  (if negative then ['-'] else []) ++ (whole ++ (frac ++ exp))

/-- The sign of a number, and what stands behind it. -/
def signPart : List Char → Bool × List Char
  | '-' :: rest => (true, rest)
  | rest => (false, rest)

/-- The digits before the point; a leading zero stands alone. -/
def wholePart : List Char → List Nat × List Char
  | '0' :: rest => ([0], rest)
  | rest => digits rest

/-- A number is read part by part. -/
theorem number_eq {negative : Bool} {whole frac : List Nat} {exp : Option Int}
    {afterSign afterWhole afterFrac afterExp : List Char}
    (hsign : signPart cs = (negative, afterSign))
    (hwhole : wholePart afterSign = (whole, afterWhole))
    (hfrac : fractionPart afterWhole = (frac, afterFrac))
    (hexp : exponentPart afterFrac = (exp, afterExp)) (hne : whole.isEmpty = false) :
    number cs = some (if frac.isEmpty && exp.isNone then
        .int (if negative then -(ofDigits 10 whole : Int) else ofDigits 10 whole)
      else .real (Real64.ofDecimal negative (ofDigits 10 (whole ++ frac))
        (exp.getD 0 - frac.length)), afterExp) := by
  have hparts : number cs = if (wholePart (signPart cs).2).1.isEmpty then none
      else if (fractionPart (wholePart (signPart cs).2).2).1.isEmpty
          && (exponentPart (fractionPart (wholePart (signPart cs).2).2).2).1.isNone then
        some (.int (if (signPart cs).1 then -(ofDigits 10 (wholePart (signPart cs).2).1 : Int)
          else ofDigits 10 (wholePart (signPart cs).2).1),
          (exponentPart (fractionPart (wholePart (signPart cs).2).2).2).2)
      else some (.real (Real64.ofDecimal (signPart cs).1 (ofDigits 10 ((wholePart (signPart cs).2).1
          ++ (fractionPart (wholePart (signPart cs).2).2).1))
          ((exponentPart (fractionPart (wholePart (signPart cs).2).2).2).1.getD 0
            - (fractionPart (wholePart (signPart cs).2).2).1.length)),
          (exponentPart (fractionPart (wholePart (signPart cs).2).2).2).2) := rfl
  rw [hparts, hsign, hwhole, hfrac, hexp, hne, if_neg Bool.false_ne_true]
  split <;> rfl

theorem signPart_numeralText (negative : Bool) (hw : IsWhole whole) :
    signPart (numeralText negative whole frac exp) = (negative, whole ++ (frac ++ exp)) := by
  cases negative with
  | true => rfl
  | false =>
    have hminus : ∀ rest, whole ++ (frac ++ exp) = '-' :: rest → False := by
      intro rest heq
      cases whole with
      | nil => exact hw.1.1 rfl
      | cons c ds =>
        obtain rfl := (List.cons.inj heq).1
        exact absurd (hw.1.2 _ (List.mem_cons_self ..)) (by decide)
    change signPart (whole ++ (frac ++ exp)) = _
    unfold signPart
    split
    · rename_i heq
      exact (hminus _ heq).elim
    · rfl

theorem wholePart_append (hw : IsWhole whole) (hrest : ∀ c ∈ rest.head?, isAsciiDigit c = false) :
    wholePart (whole ++ rest) = (digitsOf whole, rest) := by
  unfold wholePart
  split
  · rename_i rest' heq
    cases whole with
    | nil => exact absurd rfl hw.1.1
    | cons c ds =>
      rw [List.cons_append, List.cons.injEq] at heq
      obtain ⟨rfl, rfl⟩ := heq
      rw [(List.cons.inj (hw.2 rfl)).2]
      rfl
  · exact digits_append hw.1.2 hrest

/-- **A number by its parts is read as what they spell.** -/
theorem number_numeralText (negative : Bool) (hw : IsWhole whole) (hf : IsFraction frac)
    (he : IsExponent exp) :
    number (numeralText negative whole frac exp) = some (numeral negative whole frac exp, []) := by
  have hfrac : (digitsOf frac).isEmpty = frac.isEmpty
      ∧ (digitsOf frac).length = frac.length - 1 := by
    obtain rfl | ⟨ds, rfl, hds⟩ := hf
    · exact ⟨rfl, rfl⟩
    · rw [digitsOf_cons_of_not rfl, length_digitsOf hds.2, List.length_cons, Nat.add_sub_cancel]
      exact ⟨digitsOf_ne_nil hds, rfl⟩
  rw [number_eq (signPart_numeralText negative hw) (wholePart_append hw (fraction_head hf he))
    (fractionPart_append hf he) (exponentPart_eq he) (digitsOf_ne_nil hw.1), hfrac.1, hfrac.2]
  unfold numeral
  rw [digitsOf_append]
  cases exp <;> rfl

/-! ### Whole texts -/

/-- What a number starts with: perhaps a sign, and a digit. -/
theorem numeralText_head (negative : Bool) (hw : IsWhole whole) (frac exp : List Char) :
    ∃ c ds, isAsciiDigit c = true
      ∧ numeralText negative whole frac exp = (if negative then ['-'] else []) ++ c :: ds := by
  cases whole with
  | nil => exact absurd rfl hw.1.1
  | cons c ds => exact ⟨c, _, hw.1.2 c (List.mem_cons_self ..), rfl⟩

/-- Words start with two characters that are no digits. -/
theorem words_head : ∀ p ∈ words, ∃ a b ds, p.1.toList = a :: b :: ds
    ∧ isAsciiDigit a = false ∧ isAsciiDigit b = false := by
  unfold words
  simp only [List.forall_mem_cons, List.not_mem_nil, false_imp_iff, implies_true, and_true]
  exact ⟨⟨_, _, _, rfl, rfl, rfl⟩, ⟨_, _, _, rfl, rfl, rfl⟩, ⟨_, _, _, rfl, rfl, rfl⟩,
    ⟨_, _, _, rfl, rfl, rfl⟩, ⟨_, _, _, rfl, rfl, rfl⟩, ⟨_, _, _, rfl, rfl, rfl⟩⟩

/-- A number is not a word. -/
theorem namedValue_numeralText (negative : Bool) (hw : IsWhole whole) (frac exp : List Char) :
    namedValue (numeralText negative whole frac exp) = none := by
  obtain ⟨c, ds, hc, htext⟩ := numeralText_head negative hw frac exp
  unfold namedValue
  rw [List.findSome?_eq_none_iff]
  intro p hp
  obtain ⟨a, b, rest, hword, ha, hb⟩ := words_head p hp
  rw [Option.map_eq_none_iff, word, if_neg]
  intro hprefix
  obtain ⟨t, ht⟩ := List.isPrefixOf_iff_prefix.mp hprefix
  rw [hword, htext, List.cons_append, List.cons_append] at ht
  cases negative with
  | true =>
    obtain rfl := (List.cons.inj (List.cons.inj ht).2).1
    rw [hc] at hb
    cases hb
  | false =>
    obtain rfl := (List.cons.inj ht).1
    rw [hc] at ha
    cases ha

/-- Whether a number can start with a character. -/
def StartsNumber (c : Char) : Prop := c = '-' ∨ isAsciiDigit c = true

theorem StartsNumber.ne {c d : Char} (hc : StartsNumber c) (hminus : d ≠ '-')
    (hd : isAsciiDigit d = false) : c ≠ d := by
  rintro rfl
  rcases hc with rfl | hc
  · exact hminus rfl
  · rw [hc] at hd
    cases hd

/-- No space is skipped before a number. -/
theorem StartsNumber.skip {c : Char} (hc : StartsNumber c) (ds : List Char) :
    skip (c :: ds) = c :: ds := by
  have hspace : isSpace c = false := by
    simp only [isSpace, Bool.or_eq_false_iff, beq_eq_false_iff_ne]
    exact ⟨⟨⟨hc.ne (by decide) rfl, hc.ne (by decide) rfl⟩, hc.ne (by decide) rfl⟩,
      hc.ne (by decide) rfl⟩
  exact List.dropWhile_cons_of_neg (by rw [hspace]; decide)

/-- A value that starts like a number and is no word is read as a number. -/
theorem StartsNumber.value {c : Char} (hc : StartsNumber c) {ds : List Char}
    (hnamed : namedValue (c :: ds) = none) (n : Nat) :
    value (n + 1) (c :: ds) = number (c :: ds) := by
  unfold Json.value
  split
  · rename_i heq
    cases heq
  · rename_i heq
    exact absurd (List.cons.inj heq).1 (hc.ne (by decide) rfl)
  · rename_i heq
    exact absurd (List.cons.inj heq).1 (hc.ne (by decide) rfl)
  · rename_i heq
    exact absurd (List.cons.inj heq).1 (hc.ne (by decide) rfl)
  · rw [hnamed]

/-- **The text of a number is read as what its parts spell.** -/
theorem ofJson?_numeralText (negative : Bool) (hw : IsWhole whole) (hf : IsFraction frac)
    (he : IsExponent exp) :
    Value.ofJson? (String.ofList (numeralText negative whole frac exp))
      = some (numeral negative whole frac exp) := by
  have hnamed := namedValue_numeralText negative hw frac exp
  have hnumber := number_numeralText negative hw hf he
  obtain ⟨c, ds, hc, htext⟩ : ∃ c ds, StartsNumber c
      ∧ numeralText negative whole frac exp = c :: ds := by
    obtain ⟨c, ds, hc, htext⟩ := numeralText_head negative hw frac exp
    cases negative with
    | true => exact ⟨_, _, .inl rfl, htext⟩
    | false => exact ⟨_, _, .inr hc, htext⟩
  rw [htext] at hnamed hnumber
  unfold Value.ofJson?
  dsimp only
  rw [String.toList_ofList, htext, hc.skip, hc.value hnamed, hnumber]
  rfl

end Json

/-! ### Integers and finite numbers -/

/-- The decimal notation of an integer is read as the integer. -/
theorem Value.ofJson?_ofInt (n : Int) :
    Value.ofJson? (String.ofList (ofInt n)) = some (.int n) := by
  have hread := fun negative m => Json.ofJson?_numeralText negative (isWhole_ofNat m)
    (show IsFraction [] from .inl rfl) (show IsExponent [] from .inl rfl)
  have hvalue := fun m => ofDigits_digitsOf_ofNat m
  cases n with
  | ofNat n =>
    have h := hread false n
    simp only [Json.numeralText, Json.numeral, List.append_nil, List.isEmpty_nil, Bool.and_self,
      if_true, Bool.false_eq_true, if_false, List.nil_append, hvalue] at h
    exact h
  | negSucc n =>
    have h := hread true (n + 1)
    simp only [Json.numeralText, Json.numeral, List.append_nil, List.isEmpty_nil, Bool.and_self,
      if_true, hvalue] at h
    exact h

/-- A number whose significand is zero is a zero. -/
theorem Real64.eq_zero {x : Real64} (h : x.isFinite = true) (hzero : x.mantissa = 0) :
    x = ofMagnitude x.isNegative 0 := by
  have hexponent : x.exponent = -1074 := by
    have hbiased : x.biased = 0 := by
      by_contra hne
      rw [mantissa, if_neg hne, Nat.pow_eq] at hzero
      omega
    rw [exponent, hbiased]
    rfl
  have heq := (eq_ofMagnitude h).1
  rwa [hzero, hexponent] at heq

/-- A notation of a decimal that is rounded to a number spells the number. -/
theorem Language.IsNotation.numeral_eq {x : Real64} {d : Decimal} {whole frac exp : List Char}
    (hn : IsNotation d whole frac exp) (h : x.isFinite = true) (hzero : x.mantissa ≠ 0)
    (hd : d.digits ≠ 0) (hround : Real64.RoundsTo x.mantissa x.exponent d.value) :
    Json.numeral x.isNegative whole frac exp = .real x := by
  obtain ⟨zeros, hdigits, hpower⟩ := hn.value
  have hvalue : ((d.digits * 10 ^ zeros : ℕ) : ℚ) * 10 ^ (d.power - zeros) = d.value := by
    have hten : (10 : ℚ) ^ (zeros : ℤ) ≠ 0 := by positivity
    rw [Decimal.value, Nat.cast_mul, Nat.cast_pow, Nat.cast_ofNat, zpow_sub₀ (by norm_num),
      ← zpow_natCast]
    field_simp
  rw [Json.numeral, hn.isReal, if_neg Bool.false_ne_true, hdigits, hpower,
    Real64.ofDecimal_eq h hzero (Nat.mul_ne_zero hd (by positivity)) (hvalue ▸ hround)]

/-- **A finite number is read back from its text.** -/
theorem Value.ofJson?_text {x : Real64} (h : x.isFinite = true) (f : DecimalFormat) :
    Value.ofJson? (x.text f) = some (.real x) := by
  have hbiased : x.biased < 2047 := of_decide_eq_true h
  have hne : (x.biased == 2047) = false := beq_eq_false_iff_ne.mpr (Nat.ne_of_lt hbiased)
  have htext : ∀ whole frac exp : List Char,
      (if x.isNegative then "-" else "") ++ String.ofList (whole ++ frac ++ exp)
        = String.ofList (Json.numeralText x.isNegative whole frac exp) := by
    intro whole frac exp
    apply String.ext
    rw [String.toList_append, String.toList_ofList, String.toList_ofList, Json.numeralText,
      List.append_assoc]
    cases x.isNegative <;> rfl
  unfold Real64.text
  rw [Real64.isNaN, Real64.isInfinite, hne, Bool.false_and, Bool.false_and,
    if_neg Bool.false_ne_true, if_neg Bool.false_ne_true]
  split
  · rename_i hzero
    have hparts : "0.0" = String.ofList (['0'] ++ ['.', '0'] ++ []) := rfl
    rw [hparts, htext, Json.ofJson?_numeralText _ ⟨isDigits_zero, fun _ => rfl⟩
      (.inr ⟨['0'], rfl, isDigits_zero⟩) (.inl rfl)]
    exact congrArg (some ∘ Value.real) (Real64.eq_zero h hzero).symm
  · rename_i hzero
    have hm := Real64.isSignificand hzero
    have hd := Decimal.shortest_ne_zero hzero hm.le
    obtain ⟨whole, frac, exp, hparts, hn⟩ := isNotation_writeDecimal f hd
    rw [hparts, htext, Json.ofJson?_numeralText _ hn.isWhole hn.isFraction hn.isExponent,
      hn.numeral_eq h hzero hd (Decimal.roundsTo_shortest hm)]

/-! ### Data of literals -/

namespace Value

mutual

/-- A value with its tuples as lists. -/
def listed : Value → Value
  | .list xs => .list (listedAll xs)
  | .tuple xs => .list (listedAll xs)
  | v => v

/-- Some values with their tuples as lists. -/
def listedAll : List Value → List Value
  | [] => []
  | x :: xs => x.listed :: listedAll xs

end

mutual

/-- **The data of the literal that a value is written as is the value.** -/
theorem untyped_literal (vars : Fields) :
    (v : Value) → v.isLiteral = true → Scalar.untyped vars v.literal = v.listed
  | .null, _ => rfl
  | .bool _, _ => rfl
  | .int n, _ => by
    rw [literal, Scalar.untyped, Scalar.numberOf, ofJson?_ofInt]
    rfl
  | .real x, h => by
    rw [literal, Scalar.untyped, Scalar.numberOf, ofJson?_text h]
    rfl
  | .text _, _ => rfl
  | .list xs, h => congrArg Value.list (untypedAll_literals vars xs h)
  | .tuple xs, h => congrArg Value.list (untypedAll_literals vars xs h)

/-- The data of the literals that values are written as. -/
theorem untypedAll_literals (vars : Fields) :
    (xs : List Value) → allLiteral xs = true → Scalar.untypedAll vars (literals xs) = listedAll xs
  | [], _ => rfl
  | x :: xs, h => by
    rw [allLiteral, Bool.and_eq_true] at h
    rw [literals, Scalar.untypedAll, listedAll, untyped_literal vars x h.1,
      untypedAll_literals vars xs h.2]

end

end Value
end SchemaForge
