/-!
# Binary floating-point numbers with 64 bits

A `Real64` is its bit pattern: a sign, eleven exponent bits and fifty-two fraction
bits. A finite pattern stands for `± mantissa * 2 ^ exponent`. `ofRatio` rounds a
quotient of natural numbers to the nearest pattern, a tie to the even one, and
`ofDecimal` reads a decimal in that way. No operation goes through a machine
float: comparisons with integers are exact.
-/
namespace SchemaForge

/-- A 64-bit floating-point number, given by its bits. -/
structure Real64 where
  /-- Sign, biased exponent and fraction, from the top. -/
  bits : UInt64
  deriving DecidableEq, Inhabited

namespace Real64

/-- Whether the sign bit is set. -/
def isNegative (x : Real64) : Bool := Nat.pow 2 63 ≤ x.bits.toNat

/-- The eleven exponent bits. -/
def biased (x : Real64) : Nat := x.bits.toNat / Nat.pow 2 52 % Nat.pow 2 11

/-- The fifty-two fraction bits. -/
def fraction (x : Real64) : Nat := x.bits.toNat % Nat.pow 2 52

/-- Whether the pattern stands for a number. -/
def isFinite (x : Real64) : Bool := x.biased < 2047

/-- Whether the pattern stands for no number at all. -/
def isNaN (x : Real64) : Bool := x.biased == 2047 && x.fraction != 0

/-- Whether the pattern is one of the two infinities. -/
def isInfinite (x : Real64) : Bool := x.biased == 2047 && x.fraction == 0

/-- The integer significand of a finite number. -/
def mantissa (x : Real64) : Nat :=
  if x.biased = 0 then x.fraction else Nat.pow 2 52 + x.fraction

/-- The power of two that scales the significand. -/
def exponent (x : Real64) : Int := (max x.biased 1 : Nat) - 1075

/-- Whether a finite number is zero, of either sign. -/
def isZero (x : Real64) : Bool := x.isFinite && x.mantissa == 0

/-- The pattern with a sign and the remaining sixty-three bits. -/
def ofMagnitude (negative : Bool) (magnitude : Nat) : Real64 :=
  ⟨UInt64.ofNat ((if negative then Nat.pow 2 63 else 0) + magnitude)⟩

/-- Infinity of either sign. -/
def infinity (negative : Bool) : Real64 := ofMagnitude negative (2047 * Nat.pow 2 52)

/-- The pattern that stands for no number. -/
def nan : Real64 := ofMagnitude false (2047 * Nat.pow 2 52 + Nat.pow 2 51)

/-- A quotient rounded to the nearest integer, a tie to the even one. -/
def roundQuotient (num den : Nat) : Nat :=
  let q := num / den
  let r := num % den
  if 2 * r < den then q
  else if den < 2 * r then q + 1
  else q + q % 2

/-- The exponent at which `num / den` has a significand of fifty-three bits, or the
least exponent when it is smaller. -/
def scaleOf (num den : Nat) : Int :=
  let guess : Int := (num.log2 : Int) - den.log2 - 52
  let fits (e : Int) : Bool :=
    if e < 0 then Nat.pow 2 52 * den ≤ num * Nat.pow 2 (-e).toNat
    else Nat.pow 2 52 * den * Nat.pow 2 e.toNat ≤ num
  max (if fits guess then guess else guess - 1) (-1074)

/-- The number nearest to `num / den`, with a sign; a tie goes to the even pattern. -/
def ofRatio (negative : Bool) (num den : Nat) : Real64 :=
  if num = 0 ∨ den = 0 then ofMagnitude negative 0
  else
    let e := scaleOf num den
    let significand :=
      if e < 0 then roundQuotient (num * Nat.pow 2 (-e).toNat) den
      else roundQuotient num (den * Nat.pow 2 e.toNat)
    let magnitude := (e + 1074).toNat * Nat.pow 2 52 + significand
    if 2047 * Nat.pow 2 52 ≤ magnitude then infinity negative
    else ofMagnitude negative magnitude

/-- The number nearest to an integer. -/
def ofInt (n : Int) : Real64 := ofRatio (n < 0) n.natAbs 1

/-- The number nearest to `± digits * 10 ^ power`. Far beyond the range of the format
the answer is infinity or zero at once. -/
def ofDecimal (negative : Bool) (digits : Nat) (power : Int) : Real64 :=
  if digits = 0 then ofMagnitude negative 0
  else if 400 < power + digits.log2 / 3 ∧ 400 < power then infinity negative
  else if power + digits.log2 < -1200 then ofMagnitude negative 0
  else if power < 0 then ofRatio negative digits (Nat.pow 10 (-power).toNat)
  else ofRatio negative (digits * Nat.pow 10 power.toNat) 1

/-- Numerator and denominator of a finite number. -/
def toFraction (x : Real64) : Int × Nat :=
  let m : Int := if x.isNegative then -(x.mantissa : Int) else x.mantissa
  if x.exponent < 0 then (m, Nat.pow 2 (-x.exponent).toNat)
  else (m * Nat.pow 2 x.exponent.toNat, 1)

/-- The integer that a finite number is, when it is one. -/
def toInt? (x : Real64) : Option Int :=
  if x.isFinite then
    let (num, den) := x.toFraction
    if num % den = 0 then some (num / den) else none
  else none

/-- The order of two fractions with positive denominators. -/
def compareFractions (a b : Int × Nat) : Ordering := compare (a.1 * b.2) (b.1 * a.2)

/-- The order of two numbers; none when either is no number. -/
def compare? (x y : Real64) : Option Ordering :=
  if x.isNaN || y.isNaN then none
  else match x.isInfinite, y.isInfinite with
    | true, true => some (compare (!x.isNegative) (!y.isNegative))
    | true, false => some (if x.isNegative then .lt else .gt)
    | false, true => some (if y.isNegative then .gt else .lt)
    | false, false => some (compareFractions x.toFraction y.toFraction)

/-- The order of an integer and a number, exact whatever their size. -/
def compareInt? (n : Int) (y : Real64) : Option Ordering :=
  if y.isNaN then none
  else if y.isInfinite then some (if y.isNegative then .gt else .lt)
  else some (compareFractions (n, 1) y.toFraction)

@[simp] theorem compareFractions_self (a : Int × Nat) : compareFractions a a = .eq := by
  simp [compareFractions]

end Real64
end SchemaForge
