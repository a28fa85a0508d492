import SchemaForge.Number.Written
import SchemaForge.Scalar
import SchemaForge.Schema.Basic

/-!
# Leaves of answers

Leaves are values of scalars and enums. `Leaf.serialize` turns a result into what an
answer shows, `Leaf.parse` reads the value of a variable and `Leaf.parseLiteral` a
literal. Integers have 32 bits, and integers and identifiers do not take truth values
from requests. A scalar without an implementation takes everything as it is.
-/
namespace SchemaForge

open Language

/-- How the values of a scalar or enum travel. -/
inductive Leaf where
  /-- Integers of 32 bits. -/
  | int
  /-- Floating-point numbers. -/
  | float
  /-- Texts. -/
  | string
  /-- Truth values. -/
  | boolean
  /-- Identifiers. -/
  | id
  /-- A scalar of this library. -/
  | scalar (s : Scalar)
  /-- A scalar without an implementation. -/
  | free
  /-- The words of an enum. -/
  | enum (words : List String)

namespace Leaf

/-- The leaf of a scalar by its name, where the name says it. -/
def ofName? (name : String) : Option Leaf :=
  match name with
  | "Int" => some int
  | "Float" => some float
  | "String" => some string
  | "Boolean" => some boolean
  | "ID" => some id
  | _ => (Scalar.ofName? name).map scalar

/-- Integers up to this one have 32 bits, and so have the negative ones down to one
beyond. -/
def greatestInt : Int := 2147483647

/-- An integer, if it has 32 bits. -/
def bounded (n : Int) : Except Failure Value :=
  if -greatestInt - 1 ≤ n ∧ n ≤ greatestInt then .ok (.int n) else .error .unrepresentable

/-- The integer that a number is, truth values aside. -/
def wholeNumber? : Value → Option Int
  | .int n => some n
  | .real x => x.toInt?
  | _ => none

/-- The number that a value is, truth values aside. -/
def realNumber? : Value → Option Real64
  | .int n => some (Real64.ofInt n)
  | .real x => some x
  | _ => none

/-- A number, if it is finite. -/
def finite (x : Real64) : Except Failure Value :=
  if x.isFinite then .ok (.real x) else .error .unrepresentable

/-- An answer if there is one. -/
def orRefuse {α : Type} (x : Option α) : Except Failure α :=
  match x with
  | some a => .ok a
  | none => .error .unrepresentable

/-- Whether a value has a text of its own although it is no text: numbers and values with
parts have none. -/
def hasOwnText : Value → Bool
  | .date _ | .moment _ | .object .. | .pattern _ | .entity .. => true
  | _ => false

/-- An integer in an answer. -/
def serializeInt : Value → Except Failure Value
  | .bool b => .ok (.int (if b then 1 else 0))
  | .text s => (orRefuse (Written.int? s)).bind bounded
  | v => (orRefuse (wholeNumber? v)).bind bounded

/-- A floating-point number in an answer. -/
def serializeFloat : Value → Except Failure Value
  | .bool b => .ok (.int (if b then 1 else 0))
  | .text s => (orRefuse (Written.real? s)).bind finite
  | v => (orRefuse (realNumber? v)).bind finite

/-- A text in an answer. -/
def serializeString : Value → Except Failure Value
  | .text s => .ok (.text s)
  | .bool b => .ok (.text (if b then "true" else "false"))
  | .int n => .ok (.text (showInt n))
  | .real x => if x.isFinite then .ok (.text (Value.real x).plain) else .error .unrepresentable
  | v => if hasOwnText v then .ok (.text v.plain) else .error .unrepresentable

/-- A truth value in an answer. -/
def serializeBoolean : Value → Except Failure Value
  | .bool b => .ok (.bool b)
  | .int n => .ok (.bool (n != 0))
  | .real x => if x.isFinite then .ok (.bool !x.isZero) else .error .unrepresentable
  | _ => .error .unrepresentable

/-- An identifier in an answer. -/
def serializeId : Value → Except Failure Value
  | .text s => .ok (.text s)
  | v =>
    match wholeNumber? v with
    | some n => .ok (.text (showInt n))
    | none => if hasOwnText v then .ok (.text v.plain) else .error .unrepresentable

/-- A word of an enum. -/
def word (words : List String) : Value → Except Failure Value
  | .text s => if words.contains s then .ok (.text s) else .error .unrepresentable
  | _ => .error .unrepresentable

/-- What an answer shows for a result. -/
def serialize : Leaf → Value → Except Failure Value
  | int, v => serializeInt v
  | float, v => serializeFloat v
  | string, v => serializeString v
  | boolean, v => serializeBoolean v
  | id, v => serializeId v
  | scalar s, v => s.serialize v
  | free, v => .ok v
  | enum words, v => word words v

/-- The value of a variable. -/
def parse : Leaf → Value → Except Failure Value
  | int, v => (orRefuse (wholeNumber? v)).bind bounded
  | float, v => (orRefuse (realNumber? v)).bind finite
  | string, .text s => .ok (.text s)
  | boolean, .bool b => .ok (.bool b)
  | id, .text s => .ok (.text s)
  | id, v => (orRefuse (wholeNumber? v)).map fun n => .text (showInt n)
  | scalar s, v => s.parse v
  | free, v => .ok v
  | enum words, v => word words v
  | _, _ => .error .unrepresentable

/-- The value of a literal. -/
def parseLiteral (l : Leaf) (literal : Literal) (vars : Fields) : Except Failure Value :=
  match l, literal with
  | int, .int s => (orRefuse (wholeNumber? (Scalar.numberOf s))).bind bounded
  | float, .int s => (orRefuse (realNumber? (Scalar.numberOf s))).map .real
  | float, .float s => (orRefuse (realNumber? (Scalar.numberOf s))).map .real
  | string, .string s _ => .ok (.text s)
  | boolean, .bool b => .ok (.bool b)
  | id, .string s _ => .ok (.text s)
  | id, .int s => .ok (.text s)
  | scalar s, x => s.parseLiteral x vars
  | free, x => .ok (Scalar.untyped vars x)
  | enum words, .enum s => word words (.text s)
  | _, _ => .error .unrepresentable

end Leaf

/-- Implementations of scalars that a schema has beyond the standard ones. -/
abbrev Implementations := Table Leaf

/-- How the values of a type travel, if it is a scalar or an enum: as implemented, as
every schema has it, or as they are. -/
def Schema.leaf? (s : Schema) (implementations : Implementations) (name : String) : Option Leaf :=
  match implementations.get? name with
  | some l => some l
  | none =>
    if Schema.standardScalars.contains name then Leaf.ofName? name
    else match s.body? name with
      | some .scalar => some .free
      | some (.enum vs) => some (.enum (vs.map (·.name)))
      | _ => none

end SchemaForge
