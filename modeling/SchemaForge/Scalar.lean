import SchemaForge.Calendar.Iso
import SchemaForge.Failure
import SchemaForge.Language.Printer
import SchemaForge.Value.Display
import SchemaForge.Value.Json

/-!
# Scalars for days, moments and free-form data

`Scalar.serialize` turns a value into what an answer shows, `Scalar.parse` reads the
value of a variable and `Scalar.parseLiteral` a literal of a request. Days and moments
travel in ISO notation. Free-form data travels as it is, and a text that is JSON is
sent as the data that it spells.
-/
namespace SchemaForge

open Language

/-- The scalars that this library defines. -/
inductive Scalar where
  /-- A day. -/
  | date
  /-- A moment. -/
  | dateTime
  /-- Free-form data. -/
  | json
  deriving DecidableEq, Repr

namespace Scalar

/-- The name of a scalar in a schema. -/
def name : Scalar → String
  | date => "Date"
  | dateTime => "DateTime"
  | json => "JSON"

/-- The scalar with a name. -/
def ofName? (s : String) : Option Scalar := [date, dateTime, json].find? (·.name == s)

theorem ofName?_name (s : Scalar) : ofName? s.name = some s := by cases s <;> rfl

/-- The notation of UTC in offsets. -/
def utcOffset : List Char := ['+', '0', '0', ':', '0', '0']

/-- A text with every `Z` replaced by the offset that it stands for. -/
def spellOutUtc (s : String) : String :=
  String.ofList (s.toList.flatMap fun c => if c == 'Z' then utcOffset else [c])

/-- Read a moment. -/
def readMoment (s : String) : Option Moment := Iso.moment? (spellOutUtc s)

/-- Read what a client sent for a moment. -/
def parseMoment : Value → Except Failure Moment
  | .moment t => .ok t
  | .text s =>
    match readMoment s with
    | some t => .ok t
    | none => .error (.scalarInvalid dateTime.name (Value.display (.text s)))
  | v => .error (.scalarNotText dateTime.name v.display)

/-- Read what a client sent for a day. -/
def parseDate : Value → Except Failure Date
  | .date d => .ok d
  | .text s =>
    match Iso.date? s with
    | some d => .ok d
    | none => .error (.scalarInvalid date.name (Value.display (.text s)))
  | v => .error (.scalarNotText date.name v.display)

/-- What an answer shows for a value. -/
def serialize : Scalar → Value → Except Failure Value
  | dateTime, .moment t => .ok (.text t.iso)
  | dateTime, .text s => (parseMoment (.text s)).map fun t => .text t.iso
  | dateTime, v => .error (.scalarValue dateTime.name v.display)
  | date, .moment t => .ok (.text t.date.iso)
  | date, .date d => .ok (.text d.iso)
  | date, .text s => (parseDate (.text s)).map fun d => .text d.iso
  | date, v => .error (.scalarValue date.name v.display)
  | json, .text s => .ok ((Value.ofJson? s).getD (.text s))
  | json, v => .ok v

/-- The value that a client sent. -/
def parse : Scalar → Value → Except Failure Value
  | dateTime, v => (parseMoment v).map .moment
  | date, v => (parseDate v).map .date
  | json, v => .ok v

/-- The value of a number in the notation of literals. -/
def numberOf (digits : String) : Value := (Value.ofJson? digits).getD .null

mutual

/-- The data that a literal spells, whatever type it stands for. A variable without a
value is absent. -/
def untyped (vars : Fields) : Literal → Value
  | .var n => (Table.get? vars n).getD .absent
  | .int s => numberOf s
  | .float s => numberOf s
  | .string s _ => .text s
  | .bool b => .bool b
  | .null => .null
  | .enum n => .text n
  | .list xs => .list (untypedAll vars xs)
  | .object fs => .record (untypedFields vars [] fs)

/-- The data of several literals. -/
def untypedAll (vars : Fields) : List Literal → List Value
  | [] => []
  | x :: xs => untyped vars x :: untypedAll vars xs

/-- The data of fields, the last of two with one name counting. -/
def untypedFields (vars : Fields) (done : Fields) : List (String × Literal) → Fields
  | [] => done
  | (k, x) :: fs => untypedFields vars (Table.put done k (untyped vars x)) fs

end

/-- The value of a literal in a request. -/
def parseLiteral (s : Scalar) (literal : Literal) (vars : Fields) : Except Failure Value :=
  match s with
  | json => .ok (untyped vars literal)
  | _ =>
    match literal with
    | .string text _ => parse s (.text text)
    | _ => .error .literalNotText

@[simp] theorem serialize_moment (t : Moment) :
    serialize dateTime (.moment t) = .ok (.text t.iso) := rfl

@[simp] theorem serialize_date (d : Date) : serialize date (.date d) = .ok (.text d.iso) := rfl

end Scalar
end SchemaForge
