import SchemaForge.Table
import SchemaForge.Value.Display

/-!
# Column types

A column type is known by its name and those of the types that it refines, nearest
first. A decorated type wraps another one and a derived type refines one under a new
name. `ColumnType.fieldType` looks the names up in a table: the nearest known name
counts, an empty entry means that the column is not exposed, and a type that wraps
another one and is not known itself counts as the inner one.
-/
namespace SchemaForge

/-- A type of a column. -/
inductive ColumnType where
  /-- A type by its name. -/
  | base (name : String)
  /-- A type under a new name that wraps another one. -/
  | decorated (name : String) (inner : ColumnType)
  /-- A refinement of a type under a new name. -/
  | derived (inner : ColumnType) (name : String)
  deriving DecidableEq, Inhabited

namespace ColumnType

/-- The types that a type refines, nearest first; a type that is not listed refines
none. -/
def refined : Table (List String) :=
  let text := ["String", "Concatenable"]
  [("BigInteger", ["Integer"]), ("SmallInteger", ["Integer"]), ("String", ["Concatenable"]),
    ("Text", text), ("Unicode", text), ("UnicodeText", "Text" :: text),
    ("Enum", text ++ ["SchemaType"]), ("Double", ["Float"]), ("ARRAY", ["Concatenable"]),
    ("Boolean", ["SchemaType"]), ("UUID", ["Uuid"]), ("LargeBinary", ["_Binary"]),
    ("BINARY", ["_Binary"]), ("VARBINARY", ["_Binary"]), ("Interval", ["TypeDecorator"]),
    ("PickleType", ["TypeDecorator"]), ("VARCHAR", text), ("CHAR", text),
    ("NVARCHAR", "Unicode" :: text), ("TEXT", "Text" :: text), ("CLOB", "Text" :: text),
    ("BIGINT", ["BigInteger", "Integer"]), ("INTEGER", ["Integer"]),
    ("SMALLINT", ["SmallInteger", "Integer"]), ("DECIMAL", ["Numeric"]), ("NUMERIC", ["Numeric"]),
    ("REAL", ["Float"]), ("FLOAT", ["Float"]), ("DOUBLE", ["Double", "Float"]),
    ("DOUBLE_PRECISION", ["Double", "Float"]), ("TIMESTAMP", ["DateTime"]),
    ("DATETIME", ["DateTime"]), ("DATE", ["Date"]), ("TIME", ["Time"]),
    ("BLOB", ["LargeBinary", "_Binary"]), ("BOOLEAN", ["Boolean", "SchemaType"]),
    ("Opaque", ["UserDefinedType"])]

/-- The types that every type refines. -/
def roots : List String := ["TypeEngine", "Visitable", "Generic", "object"]

/-- The type that a listed type wraps. -/
def wraps? : String → Option String
  | "Interval" => some "DateTime"
  | "PickleType" => some "LargeBinary"
  | _ => none

/-- A listed type and the types that it refines. -/
def known (name : String) : List String := name :: (refined.get? name).getD []

/-- The names to look up, for the type itself and then for each type that it wraps. -/
def layers : ColumnType → List (List String)
  | base n => (known n ++ roots) :: ((wraps? n).map fun inner => known inner ++ roots).toList
  | decorated n inner => (n :: "TypeDecorator" :: roots) :: layers inner
  | derived t n =>
    match layers t with
    | names :: rest => (n :: names) :: rest
    | [] => [[n]]

/-- The type of a field for a column; none if the column is not exposed. -/
def fieldType (table : Table String) (t : ColumnType) : Option String :=
  match t.layers.findSome? fun names => names.findSome? fun n => table.get? n with
  | some "" => none
  | other => other

/-- The listed types that a type is or refines, whatever its own name. -/
def families : ColumnType → List String
  | base n => known n
  | decorated _ _ => ["TypeDecorator"]
  | derived t _ => families t

/-- Whether a type is or refines a listed type. -/
def isA (t : ColumnType) (family : String) : Bool := t.families.contains family

/-- The listed type at the bottom of all layers. -/
def stored : ColumnType → String
  | base n => (wraps? n).getD n
  | decorated _ inner => stored inner
  | derived t _ => stored t

/-- A type as a message shows it. -/
def display : ColumnType → String
  | base "ARRAY" => call "ARRAY" [call "Integer" []]
  | base "Enum" => call "Enum" [Text.quote "red", Text.quote "blue"]
  | base n => call n []
  | decorated n _ => call n []
  | derived _ n => call n []

/-- How a column treats operands of another kind. -/
inductive Affinity where
  /-- Texts that are numbers become numbers. -/
  | number
  /-- Numbers become texts. -/
  | text
  /-- Nothing changes. -/
  | none
  deriving DecidableEq

/-- How a column of a type treats operands. -/
def affinity (t : ColumnType) : Affinity :=
  let families := known t.stored
  if families.contains "String" || families.contains "Uuid" then .text
  else if families.contains "_Binary" || families.contains "UserDefinedType" then .none
  else .number

/-- The types of fields for the listed types. -/
def standardTypes : Table String :=
  [("Enum", "String"), ("String", "String"), ("Text", "String"), ("Unicode", "String"),
    ("UnicodeText", "String"), ("Integer", "Int"), ("SmallInteger", "Int"),
    ("BigInteger", "Int"), ("Float", "Float"), ("Double", "Float"), ("Numeric", "Float"),
    ("Boolean", "Boolean"), ("DateTime", "DateTime"), ("Date", "Date"), ("Time", "String"),
    ("Interval", "String"), ("JSON", "JSON"), ("Uuid", "ID"), ("UUID", "ID"),
    ("LargeBinary", ""), ("ARRAY", ""), ("PickleType", "")]

end ColumnType
end SchemaForge
