import SchemaForge.Store.ColumnType
import SchemaForge.Store.Returns
import SchemaForge.Table
import SchemaForge.Value.Basic

/-!
# Mapped models

A model describes the rows of a table: columns, virtual fields that are computed from
them, and associations with other models. An association whose foreign key is a column
of the model itself leads to a single row; the others lead to the rows that refer back.
-/
namespace SchemaForge

/-- A column. -/
structure Column where
  /-- The attribute that holds its value. -/
  key : String
  /-- Its name in the table. -/
  name : String
  /-- Its type. -/
  type : ColumnType
  /-- Whether it identifies the row. -/
  primary : Bool
  /-- Whether it may be null. -/
  nullable : Bool
  /-- The table and column that it refers to. -/
  foreign : Option (String × String)
  deriving Inhabited

/-- How a virtual field is computed. -/
inductive VirtualRule where
  /-- The value of a column. -/
  | column (key : String)
  /-- The texts of several columns with a text between them. -/
  | join (keys : List String) (separator : String)
  /-- A fixed value. -/
  | const (v : Value)

/-- A virtual field. -/
structure Virtual where
  /-- Its name. -/
  key : String
  /-- The stated type of its result. -/
  returns : Option Returns
  /-- How it is computed. -/
  rule : VirtualRule

/-- An association. -/
structure Association where
  /-- Its name. -/
  key : String
  /-- The model that it leads to. -/
  target : String
  /-- Whether it leads to many rows, if that is stated. -/
  many : Option Bool

/-- A mapped model. -/
structure Model where
  /-- Its name. -/
  name : String
  /-- Its table. -/
  table : String
  /-- Its columns. -/
  columns : List Column
  /-- Its virtual fields. -/
  virtuals : List Virtual
  /-- Its associations. -/
  associations : List Association
  deriving Inhabited

/-- All models. -/
abbrev Models := Table Model

namespace Model

/-- The column with an attribute name. -/
def column? (m : Model) (key : String) : Option Column := m.columns.find? (·.key == key)

/-- The virtual field with a name. -/
def virtual? (m : Model) (key : String) : Option Virtual := m.virtuals.find? (·.key == key)

/-- The association with a name. -/
def association? (m : Model) (key : String) : Option Association :=
  m.associations.find? (·.key == key)

/-- The columns that identify a row. -/
def primaryKey (m : Model) : List Column := m.columns.filter (·.primary)

/-- The column that refers to a table, and the name of the column that it refers to. -/
def reference? (m : Model) (table : String) : Option (Column × String) :=
  m.columns.findSome? fun c =>
    match c.foreign with
    | some (t, name) => if t == table then some (c, name) else none
    | none => none

end Model

namespace Models

/-- The model that an association leads to. -/
def target? (models : Models) (a : Association) : Option Model := models.get? a.target

/-- The column of the model itself that holds an association. -/
def ownReference? (models : Models) (m : Model) (a : Association) : Option (Column × String) :=
  (models.target? a).bind fun t => m.reference? t.table

/-- The column of the other model that refers back. -/
def backReference? (models : Models) (m : Model) (a : Association) : Option (Column × String) :=
  (models.target? a).bind fun t => t.reference? m.table

/-- Whether an association leads to a single row by a column of the model itself. -/
def isOwn (models : Models) (m : Model) (a : Association) : Bool :=
  (models.ownReference? m a).isSome

/-- Whether an association leads to many rows. -/
def isMany (models : Models) (m : Model) (a : Association) : Bool :=
  a.many.getD (!models.isOwn m a)

end Models

/-- What a name means on a model as a whole, before any row is chosen. -/
inductive Member where
  /-- A column, or a virtual field that stands for one. -/
  | column (c : Column)
  /-- An association. -/
  | association (a : Association)
  /-- An ordinary value. -/
  | plain (v : Value)

/-- The meaning of a name on a model; null counts as none. A virtual field that joins
columns joins their qualified names here. -/
def Model.member? (m : Model) (key : String) : Option Member :=
  match m.column? key with
  | some c => some (.column c)
  | none =>
    match m.association? key with
    | some a => some (.association a)
    | none =>
      match (m.virtual? key).map Virtual.rule with
      | some (.column k) => (m.column? k).map .column
      | some (.join keys separator) =>
        some (.plain (.text (String.intercalate separator (keys.map fun k => m.name ++ "." ++ k))))
      | some (.const v) => if v.isNull then none else some (.plain v)
      | none => none

end SchemaForge
