import SchemaForge.Calendar.Iso
import SchemaForge.Number.Shortest
import SchemaForge.Text.Quoted
import SchemaForge.Value.Basic

/-!
# How messages show values

`Value.display` writes a value so that its kind can be seen: texts in quotes, lists in
brackets, a day and a moment as calls of their constructors. `Value.plain` is the same
without quotes for a text and with ISO notation for a day or moment at the outside.
-/
namespace SchemaForge

/-- Items between two brackets, separated by commas. -/
def bracketed (opening closing : String) (items : List String) : String :=
  opening ++ String.intercalate ", " items ++ closing

/-- A call with arguments. -/
def call (name : String) (args : List String) : String := bracketed (name ++ "(") ")" args

/-- A number as a message shows it. -/
def showNat (n : Nat) : String := String.ofList (Text.ofNat n)

/-- An integer as a message shows it. -/
def showInt (n : Int) : String := String.ofList (Text.ofInt n)

namespace Date

/-- A day as a call of its constructor. -/
def display (d : Date) : String :=
  call "datetime.date" [showNat d.year, showNat d.month, showNat d.day]

end Date

namespace Moment

/-- A distance in time: days, seconds and microseconds, of which only days can be
negative, and without the parts that are zero. -/
def displayDistance (micros : Int) : String :=
  let days := micros.fdiv dayMicros
  let rest := (micros.fmod dayMicros).toNat
  let parts := [("days", days), ("seconds", ((rest / 1000000 : Nat) : Int)),
    ("microseconds", ((rest % 1000000 : Nat) : Int))]
  let shown := (parts.filter (·.2 != 0)).map fun p => p.1 ++ "=" ++ showInt p.2
  call "datetime.timedelta" (if shown.isEmpty then ["0"] else shown)

/-- The zone of an offset. -/
def displayZone (offset : Int) : String :=
  if offset = 0 then "datetime.timezone.utc"
  else call "datetime.timezone" [displayDistance offset]

/-- A moment as a call of its constructor, without seconds and microseconds that are
zero at its end. -/
def display (t : Moment) : String :=
  let fine := if t.micro != 0 then [t.second, t.micro]
    else if t.second != 0 then [t.second] else []
  call "datetime.datetime"
    (([t.date.year, t.date.month, t.date.day, t.hour, t.minute] ++ fine).map showNat
      ++ (t.offset.map fun o => "tzinfo=" ++ displayZone o).toList)

end Moment

namespace Value

mutual

/-- A value as a message shows it. -/
def display : Value → String
  | .null => "None"
  | .bool true => "True"
  | .bool false => "False"
  | .int n => showInt n
  | .real x => x.text Real64.display
  | .text s => Text.quote s
  | .date d => d.display
  | .moment t => t.display
  | .list xs => bracketed "[" "]" (displayAll xs)
  | .tuple [x] => "(" ++ display x ++ ",)"
  | .tuple xs => bracketed "(" ")" (displayAll xs)
  | .record fs => bracketed "\x7b" "\x7d" (displayFields fs)
  | .object _ fs => call "namespace" (displayAttributes fs)
  | .pattern s => call "re.compile" [Text.quote s]
  | .entity m _ => "<" ++ m ++ ">"
  | .cell _ => "[...]"

/-- Several values as a message shows them. -/
def displayAll : List Value → List String
  | [] => []
  | x :: xs => display x :: displayAll xs

/-- Fields of a mapping as a message shows them. -/
def displayFields : List (String × Value) → List String
  | [] => []
  | (k, v) :: fs => (Text.quote k ++ ": " ++ display v) :: displayFields fs

/-- Attributes of an object as a message shows them. -/
def displayAttributes : List (String × Value) → List String
  | [] => []
  | (k, v) :: fs => (k ++ "=" ++ display v) :: displayAttributes fs

end

/-- A value as text: a text as it is, a day or moment in ISO notation. -/
def plain : Value → String
  | .text s => s
  | .date d => d.iso
  | .moment t => t.spaced
  | v => v.display

@[simp] theorem plain_text (s : String) : plain (.text s) = s := rfl

end Value
end SchemaForge
