import SchemaForge.Calendar.Date
import SchemaForge.Number.Real64
import SchemaForge.Table

/-!
# Values

A `Value` is what a declaration mentions, a resolver returns and a condition looks
at. Records keep the order of their fields. An entity is a row of a store, and a cell
is a list that lives in the state of a running query, where a filter can shorten it;
both are only names here, and whoever holds the store or the state can look them up.
-/
namespace SchemaForge

/-- A dynamic value. -/
inductive Value where
  /-- No value. -/
  | null
  /-- A truth value. -/
  | bool (b : Bool)
  /-- An unbounded integer. -/
  | int (n : Int)
  /-- A floating-point number. -/
  | real (x : Real64)
  /-- A text. -/
  | text (s : String)
  /-- A day. -/
  | date (d : Date)
  /-- A moment. -/
  | moment (t : Moment)
  /-- A list. -/
  | list (items : List Value)
  /-- A fixed sequence. -/
  | tuple (items : List Value)
  /-- A mapping from texts, in order. -/
  | record (fields : List (String × Value))
  /-- Something of a named kind with attributes, which is not a mapping. -/
  | object (kind : String) (fields : List (String × Value))
  /-- A compiled pattern, by its source. -/
  | pattern (source : String)
  /-- A row of a store. -/
  | entity (model : String) (row : Nat)
  /-- A list kept in the state. -/
  | cell (place : Nat)
  deriving Inhabited

/-- Fields by name, in order. -/
abbrev Fields := Table Value

/-- The value of a field, or null. -/
def Fields.get (fields : Fields) (key : String) : Value := (Table.get? fields key).getD .null

namespace Value

/-- The kind of an absent argument, which is not null. -/
def absent : Value := .object "UndefinedType" []

/-- Whether a value counts as true: not null, zero or empty. -/
def truthy : Value → Bool
  | .null => false
  | .bool b => b
  | .int n => n != 0
  | .real x => !x.isZero
  | .text s => s != ""
  | .list xs => !xs.isEmpty
  | .tuple xs => !xs.isEmpty
  | .record fs => !fs.isEmpty
  | _ => true

/-- Whether a value is null. -/
def isNull : Value → Bool
  | .null => true
  | _ => false

/-- The text that a value is. -/
def text? : Value → Option String
  | .text s => some s
  | _ => none

/-- The fields of a mapping. -/
def fields? : Value → Option Fields
  | .record fs => some fs
  | _ => none

/-- The items of a list or fixed sequence. -/
def items? : Value → Option (List Value)
  | .list xs => some xs
  | .tuple xs => some xs
  | _ => none

/-- What a walk over a value yields: items, characters or field names. -/
def iterate? : Value → Option (List Value)
  | .list xs => some xs
  | .tuple xs => some xs
  | .text s => some (s.toList.map fun c => .text (String.singleton c))
  | .record fs => some (fs.map fun f => .text f.1)
  | _ => none

/-- The field of a mapping or attribute of an object, null when it has none. -/
def member : Value → String → Value
  | .record fs, key => Fields.get fs key
  | .object _ fs, key => Fields.get fs key
  | _, _ => .null

@[simp] theorem truthy_null : truthy .null = false := rfl
@[simp] theorem member_record (fs : Fields) (key : String) :
    member (.record fs) key = Fields.get fs key := rfl

end Value
end SchemaForge
