import SchemaForge.Value.Basic

/-!
# Equality and order of values

Truth values, integers and floating-point numbers are equal when they are the same
number, compared exactly. Mappings are equal regardless of the order of their fields.
`order?` compares two values of one kind; it has no answer for two kinds that have no
common order, such as a number and a text or a day and a moment.
-/
namespace SchemaForge

/-- A number of any kind. -/
inductive Numeral where
  /-- An integer, a truth value counting as zero or one. -/
  | int (n : Int)
  /-- A floating-point number. -/
  | real (x : Real64)

namespace Numeral

/-- The order of two numbers; none when either is not a number at all. -/
def compare? : Numeral → Numeral → Option Ordering
  | .int a, .int b => some (compare a b)
  | .int a, .real y => Real64.compareInt? a y
  | .real x, .int b => (Real64.compareInt? b x).map Ordering.swap
  | .real x, .real y => Real64.compare? x y

end Numeral

namespace Value

/-- The number that a value is. -/
def numeral? : Value → Option Numeral
  | .bool b => some (.int (if b then 1 else 0))
  | .int n => some (.int n)
  | .real x => some (.real x)
  | _ => none

/-- Whether two values that hold no others are equal. -/
def sameLeaf (a b : Value) : Bool :=
  match a.numeral?, b.numeral? with
  | some x, some y => Numeral.compare? x y == some .eq
  | some _, none => false
  | none, some _ => false
  | none, none =>
    match a, b with
    | .null, .null => true
    | .text s, .text t => s == t
    | .date d, .date e => d == e
    | .moment s, .moment t => Moment.same s t
    | .pattern s, .pattern t => s == t
    | .entity m i, .entity n j => m == n && i == j
    | .cell i, .cell j => i == j
    | _, _ => false

mutual

/-- Whether two values are equal. -/
def same : Value → Value → Bool
  | .list xs, .list ys => sameAll xs ys
  | .tuple xs, .tuple ys => sameAll xs ys
  | .record fs, .record gs => fs.length == gs.length && sameFields fs gs
  | .object k fs, .object l gs => k == l && fs.length == gs.length && sameFields fs gs
  | a, b => sameLeaf a b

/-- Whether two sequences are equal item by item. -/
def sameAll : List Value → List Value → Bool
  | [], [] => true
  | x :: xs, y :: ys => same x y && sameAll xs ys
  | _, _ => false

/-- Whether every field has an equal field of its name among others. -/
def sameFields : List (String × Value) → List (String × Value) → Bool
  | [], _ => true
  | (k, v) :: fs, gs =>
    (match gs.lookup k with
      | some w => same v w
      | none => false) && sameFields fs gs

end

/-- The order of two texts by code points. -/
def compareText (s t : String) : Ordering :=
  compareOfLessAndEq s t

/-- The order of two values; the outer none means that their kinds have no order, the
inner one that one of them is not a number at all. -/
def order? (a b : Value) : Option (Option Ordering) :=
  match a.numeral?, b.numeral? with
  | some x, some y => some (Numeral.compare? x y)
  | some _, none => none
  | none, some _ => none
  | none, none =>
    match a, b with
    | .text s, .text t => some (some (compareText s t))
    | .date d, .date e => some (some (compare d.ordinal e.ordinal))
    | .moment s, .moment t => (Moment.compare? s t).map some
    | _, _ => none

end Value
end SchemaForge
