import SchemaForge.Number.Real64
import SchemaForge.Text.Digits

/-!
# The shortest decimal that reads back

`shortest` finds, for `m * 2 ^ q`, the decimal with the fewest digits among those
that round to it, and of those the nearest. It tries the grids of one, two and up
to seventeen significant digits: on each it looks at the two neighbours of the
value, and the first grid with a neighbour inside the rounding interval answers.
`DecimalFormat` holds the choices of a notation, and `Real64.text` writes a number
in it.
-/
namespace SchemaForge

/-- A positive decimal `digits * 10 ^ power`. -/
structure Decimal where
  /-- The significant digits. -/
  digits : Nat
  /-- The power of ten that scales them. -/
  power : Int
  deriving DecidableEq

namespace Decimal

/-- The interval of the reals that round to `m * 2 ^ q`, and the value itself, as
numerators over one denominator. -/
structure Interval where
  /-- Lower end. -/
  low : Nat
  /-- The value. -/
  mid : Nat
  /-- Upper end. -/
  high : Nat
  /-- The common denominator. -/
  den : Nat
  /-- Whether the ends round to the value too. -/
  closed : Bool

/-- The rounding interval of `m * 2 ^ q`. Below a power of two the gap is half as wide. -/
def interval (m : Nat) (q : Int) : Interval :=
  let below := if m = Nat.pow 2 52 ∧ -1074 < q then 1 else 2
  let up := if 2 ≤ q then Nat.pow 2 (q - 2).toNat else 1
  { low := (4 * m - below) * up, mid := 4 * m * up, high := (4 * m + 2) * up
    den := if q < 2 then Nat.pow 2 (2 - q).toNat else 1
    closed := m % 2 = 0 }

/-- Whether `d * 10 ^ k` lies in the interval. -/
def Interval.holds (i : Interval) (d : Nat) (k : Int) : Bool :=
  let x := if k < 0 then d * i.den else d * Nat.pow 10 k.toNat * i.den
  let scale := if k < 0 then Nat.pow 10 (-k).toNat else 1
  if i.closed then i.low * scale ≤ x && x ≤ i.high * scale
  else i.low * scale < x && x < i.high * scale

/-- Twice the distance of `d * 10 ^ k` from the value, scaled as in `holds`. -/
def Interval.distance (i : Interval) (d : Nat) (k : Int) : Nat :=
  let x := if k < 0 then d * i.den else d * Nat.pow 10 k.toNat * i.den
  let v := if k < 0 then i.mid * Nat.pow 10 (-k).toNat else i.mid
  (x - v) + (v - x)

/-- The value in units of `10 ^ k`, rounded down. -/
def Interval.floor (i : Interval) (k : Int) : Nat :=
  if k < 0 then i.mid * Nat.pow 10 (-k).toNat / i.den else i.mid / (i.den * Nat.pow 10 k.toNat)

/-- The exponent of the first significant digit: the largest `k` below the bound with
`10 ^ k` at most the value, searched downwards. -/
def Interval.magnitude (i : Interval) : Nat → Int → Int
  | 0, k => k
  | n + 1, k => if 1 ≤ i.floor k then k else magnitude i n (k - 1)

/-- The better of the two neighbours on a grid, if one is in the interval; of two at
one distance the even one. -/
def Interval.neighbour? (i : Interval) (k : Int) : Option Nat :=
  let d := i.floor k
  match i.holds d k && d != 0, i.holds (d + 1) k with
  | true, true =>
    let a := i.distance d k
    let b := i.distance (d + 1) k
    some (if a < b then d else if b < a then d + 1 else d + d % 2)
  | true, false => some d
  | false, true => some (d + 1)
  | false, false => none

/-- The first grid from `n` significant digits on that has a neighbour. -/
def Interval.search (i : Interval) (top : Int) : Nat → Nat → Decimal
  | 0, n => ⟨i.floor (top - n), top - n⟩
  | fuel + 1, n =>
    match i.neighbour? (top - n) with
    | some d => ⟨d, top - n⟩
    | none => search i top fuel (n + 1)

/-- A decimal without zeros at the end of its digits. -/
def strip (d : Decimal) : Decimal :=
  if h : d.digits % 10 = 0 ∧ d.digits ≠ 0 then strip ⟨d.digits / 10, d.power + 1⟩ else d
termination_by d.digits
decreasing_by omega

/-- The shortest decimal that reads back as `m * 2 ^ q`, for a positive `m`. -/
def shortest (m : Nat) (q : Int) : Decimal :=
  let i := interval m q
  strip (i.search (i.magnitude 640 310) 17 0)

end Decimal

/-- The choices of a decimal notation. -/
structure DecimalFormat where
  /-- Least exponent written positionally. -/
  leastPositional : Int
  /-- First exponent no longer written positionally. -/
  endPositional : Int
  /-- Least number of exponent digits. -/
  exponentWidth : Nat
  /-- Notation of infinity. -/
  infinity : String
  /-- Notation of the missing number. -/
  nan : String

namespace Real64

/-- The digits of a positive decimal in a notation. -/
def writeDecimal (f : DecimalFormat) (d : Decimal) : List Char :=
  let ds := Text.ofNat d.digits
  let e := d.power + ds.length - 1
  if f.leastPositional ≤ e ∧ e < f.endPositional then
    if e < 0 then
      "0.".toList ++ List.replicate (-e - 1).toNat '0' ++ ds
    else
      let whole := (e + 1).toNat
      if ds.length ≤ whole then
        ds ++ List.replicate (whole - ds.length) '0' ++ ".0".toList
      else ds.take whole ++ '.' :: ds.drop whole
  else
    let tail := ds.drop 1
    let sign := if e < 0 then '-' else '+'
    ds.take 1 ++ (if tail.isEmpty then [] else '.' :: tail)
      ++ 'e' :: sign :: Text.padded f.exponentWidth e.natAbs

/-- A number in a notation. -/
def text (f : DecimalFormat) (x : Real64) : String :=
  let sign := if x.isNegative then "-" else ""
  if x.isNaN then f.nan
  else if x.isInfinite then sign ++ f.infinity
  else if x.mantissa = 0 then sign ++ "0.0"
  else sign ++ String.ofList (writeDecimal f (Decimal.shortest x.mantissa x.exponent))

/-- Positional from `0.0001` up to sixteen whole digits, two exponent digits at least. -/
def display : DecimalFormat := ⟨-4, 16, 2, "inf", "nan"⟩

/-- The same digits with the spellings that value notation gives to the infinities. -/
def notation64 : DecimalFormat := ⟨-4, 16, 2, "Infinity", "NaN"⟩

end Real64
end SchemaForge
