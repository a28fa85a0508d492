import SchemaForge.Store.Model
import SchemaForge.Text.Like
import SchemaForge.Value.Equality
import SchemaForge.Value.Json

/-!
# Stored values

The store knows null, numbers and texts. Days and moments are kept as texts, a moment
without its offset and always to the microsecond, and truth values as zero and one.
Numbers come before texts in order; a column can turn an operand of the other kind into
its own. `Stored.compare?` and the other tests have no answer when null takes part.
-/
namespace SchemaForge

/-- A value in the store. -/
inductive Stored where
  /-- No value. -/
  | null
  /-- A number. -/
  | number (n : Numeral)
  /-- A text. -/
  | text (s : String)

namespace Stored

/-- The text of a moment. -/
def momentText (t : Moment) : String :=
  String.ofList (Iso.writeDate t.date ++ ' ' :: Iso.writeClock t.hour t.minute t.second 0
    ++ '.' :: Text.padded 6 t.micro)

/-- The stored form of a value. -/
def ofValue : Value → Stored
  | .null => null
  | .bool b => number (.int (if b then 1 else 0))
  | .int n => number (.int n)
  | .real x => number (.real x)
  | .text s => text s
  | .date d => text d.iso
  | .moment t => text (momentText t)
  | v => text v.json

/-- A number as text. -/
def numberText : Numeral → String
  | .int n => showInt n
  | .real x => x.text Real64.display

/-- The number that a text is, blanks around it aside. -/
def textNumber? (s : String) : Option Numeral :=
  match (Json.number (Text.trim s).toList) with
  | some (.int n, []) => some (.int n)
  | some (.real x, []) => some (.real x)
  | _ => none

/-- An operand as a column treats it. -/
def adapted (a : ColumnType.Affinity) (s : Stored) : Stored :=
  match a, s with
  | .number, text t => ((textNumber? t).map number).getD s
  | .text, number n => text (numberText n)
  | _, _ => s

/-- The order of two stored values, texts by code points; null has none. -/
def compare? : Stored → Stored → Option Ordering
  | null, _ => none
  | _, null => none
  | number a, number b => Numeral.compare? a b
  | number _, text _ => some .lt
  | text _, number _ => some .gt
  | text s, text t => some (Value.compareText s t)

/-- Whether a stored value is null. -/
def isNull : Stored → Bool
  | null => true
  | _ => false

/-- The text of a stored value. -/
def text? : Stored → Option String
  | null => none
  | number n => some (numberText n)
  | text s => some s

/-- Whether a value matches a wildcard pattern. -/
def like? (s pattern : Stored) : Option Bool := do
  return Like.ascii (← pattern.text?) (← s.text?)

/-- Whether a value is one of several. Nothing is one of none; with null among them, a
value that is none of the others may or may not be. -/
def among? (s : Stored) (operands : List Stored) : Option Bool :=
  if operands.isEmpty then some false
  else if s.isNull then none
  else if operands.any fun o => compare? s o == some .eq then some true
  else if operands.any isNull then none
  else some false

/-- The order of two rows by a value: null first, then as values compare. -/
def sortOrder (a b : Stored) : Ordering :=
  match a, b with
  | null, null => .eq
  | null, _ => .lt
  | _, null => .gt
  | a, b => (compare? a b).getD .eq

end Stored

/-- A value as a column gives it back: moments without offset, days without time, and
numbers of the column's kind. -/
def ColumnType.loaded (t : ColumnType) (v : Value) : Value :=
  let kind := ColumnType.known t.stored
  match v with
  | .moment m =>
    if kind.contains "Date" then .date m.date
    else ((Moment.of? m.date m.hour m.minute m.second m.micro none).map Value.moment).getD v
  | .date d =>
    if kind.contains "DateTime" then ((Moment.of? d 0 0 0 0 none).map Value.moment).getD v else v
  | .int n =>
    if kind.contains "Float" || kind.contains "Numeric" then .real (Real64.ofInt n)
    else if kind.contains "Boolean" then .bool (n != 0)
    else v
  | .bool b => if kind.contains "Integer" then .int (if b then 1 else 0) else v
  | _ => v

end SchemaForge
