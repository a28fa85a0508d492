import SchemaForge.Failure
import SchemaForge.Value.Display
import SchemaForge.Value.Json

/-!
# Directives seen in declarations

A use of a directive is a name with literal arguments. Every use is recorded, so that
in the end one definition covers all of them: an argument that some use leaves out or
gives as null may be null, and the kinds of its values must merge. A use that fails
keeps what it had recorded and does not count. `DirectiveCall.text` is a use as a schema
shows it.
-/
namespace SchemaForge

/-- The kinds of literal arguments. -/
inductive LiteralKind where
  | boolean | int | float | string
  /-- A list of one kind. -/
  | list (item : LiteralKind)
  deriving DecidableEq

namespace LiteralKind

/-- The type of a kind in a schema. -/
def text : LiteralKind → String
  | boolean => "Boolean"
  | int => "Int"
  | float => "Float"
  | string => "String"
  | list k => "[" ++ k.text ++ "]"

mutual

/-- The kind of a literal argument. A list without values counts as one of texts. -/
def ofValue : Value → Except Failure LiteralKind
  | .bool _ => .ok boolean
  | .int _ => .ok int
  | .real _ => .ok float
  | .text _ => .ok string
  | .list xs =>
    match ofItems xs with
    | .ok ks => ofKinds (.list xs) ks
    | .error e => .error e
  | .tuple xs =>
    match ofItems xs with
    | .ok ks => ofKinds (.tuple xs) ks
    | .error e => .error e
  | v => .error (.unsupportedArgument v.display)

/-- The kinds of the items that are not null. -/
def ofItems : List Value → Except Failure (List LiteralKind)
  | [] => .ok []
  | x :: xs =>
    if x.isNull then ofItems xs
    else match ofValue x with
      | .ok k => (ofItems xs).map (k :: ·)
      | .error e => .error e

/-- The kind of a list by the kinds of its items. -/
def ofKinds (whole : Value) (kinds : List LiteralKind) : Except Failure LiteralKind :=
  match kinds with
  | [] => .ok (list string)
  | k :: ks => if ks.all (· == k) then .ok (list k) else .error (.mixedList whole.display)

end

/-- The kind of an argument, none for null. -/
def ofArgument (v : Value) : Except Failure (Option LiteralKind) :=
  if v.isNull then .ok none else (ofValue v).map some

/-- The kind that covers several different ones: integers count as floating-point
numbers, alone or in lists. -/
def merge? (kinds : List LiteralKind) : Option LiteralKind :=
  match kinds with
  | [k] => some k
  | [int, float] => some float
  | [float, int] => some float
  | [list int, list float] => some (list float)
  | [list float, list int] => some (list float)
  | _ => none

end LiteralKind

/-- A use of a directive. -/
structure DirectiveCall where
  /-- Its name. -/
  name : String
  /-- Its arguments. -/
  arguments : Fields

/-- A use as a schema shows it, without the arguments that are null. -/
def DirectiveCall.text (d : DirectiveCall) : String :=
  let given := d.arguments.filter fun a => !a.2.isNull
  "@" ++ d.name ++ (if given.isEmpty then ""
    else bracketed "(" ")" (given.map fun a => a.1 ++ ": " ++ a.2.json))

/-- What was seen of one directive. -/
structure DirectiveRecord where
  /-- The number of uses that succeeded. -/
  uses : Nat := 0
  /-- The kinds of each argument, none where it was null or left out. -/
  arguments : Table (List (Option LiteralKind)) := []
  deriving Inhabited

namespace DirectiveRecord

/-- The kinds of an argument that earlier uses did not have. -/
def fresh (r : DirectiveRecord) : List (Option LiteralKind) := if r.uses = 0 then [] else [none]

/-- Add a kind unless it is there. -/
def withKind (kinds : List (Option LiteralKind)) (k : Option LiteralKind) :
    List (Option LiteralKind) :=
  if kinds.contains k then kinds else kinds ++ [k]

/-- Note the arguments that a use leaves out. -/
def noteAbsent (r : DirectiveRecord) (given : Fields) : DirectiveRecord :=
  { r with arguments := r.arguments.map fun a =>
      if Table.has given a.1 then a else (a.1, withKind a.2 none) }

/-- Note the arguments that a use gives, up to the first without a kind. -/
def noteGiven (r : DirectiveRecord) : Fields → Except Failure Unit × DirectiveRecord
  | [] => (.ok (), r)
  | (key, v) :: rest =>
    let known := { r with arguments := r.arguments.ensure key r.fresh }
    match LiteralKind.ofArgument v with
    | .error e => (.error e, known)
    | .ok k =>
      noteGiven { known with arguments := known.arguments.modify key (withKind · k) } rest

/-- Record a use. -/
def record (r : DirectiveRecord) (given : Fields) : Except Failure Unit × DirectiveRecord :=
  match (r.noteAbsent given).noteGiven given with
  | (.ok (), r) => (.ok (), { r with uses := r.uses + 1 })
  | failed => failed

/-- The line of an argument in the definition; none when every use gave null. -/
def argumentLine (directive : String) (argument : String × List (Option LiteralKind)) :
    Except Failure (Option String) :=
  let kinds := argument.2.filterMap id
  if kinds.isEmpty then .ok none
  else match LiteralKind.merge? kinds with
    | some k =>
      let mark := if argument.2.contains none then "" else "!"
      .ok (some ("  " ++ argument.1 ++ ": " ++ k.text ++ mark))
    | none => .error (.incompatibleKinds directive argument.1 (kinds.map LiteralKind.text))

/-- The definition that covers all uses. -/
def definition (name : String) (r : DirectiveRecord) : Except Failure String := do
  let lines := (← r.arguments.mapM (argumentLine name)).filterMap id
  let inputs := if lines.isEmpty then ""
    else "(\n" ++ String.intercalate "\n" lines ++ "\n)"
  return "directive @" ++ name ++ inputs ++ " on OBJECT | FIELD_DEFINITION"

end DirectiveRecord

/-- What was seen of all directives. -/
abbrev DirectiveRecords := Table DirectiveRecord

/-- Record a use and give its text. -/
def DirectiveRecords.register (records : DirectiveRecords) (d : DirectiveCall) :
    Except Failure String × DirectiveRecords :=
  let known := Table.ensure records d.name {}
  let (outcome, r) := ((Table.get? known d.name).getD {}).record d.arguments
  (outcome.map fun _ => d.text, Table.put known d.name r)

end SchemaForge
