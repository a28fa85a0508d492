import SchemaForge.Store.Statement
import SchemaForge.Value.Display

/-!
# Members of rows

A row answers to the names of its model: columns give their values, virtual fields are
computed, and associations lead to other rows, which are found by the values that refer
to them.
-/
namespace SchemaForge
namespace Store

variable (models : Models) (store : Store)

/-- The rows of a model in which a column has a stored value, in the order of a scan. -/
def rowsWhere (m : Model) (key : String) (v : Stored) : List (Nat × Row) :=
  (store.scan m).filter fun r => Stored.compare? (Stored.ofValue (Fields.get r.2 key)) v == some .eq

/-- A column by its name in the table. -/
def columnNamed? (m : Model) (name : String) : Option Column := m.columns.find? (·.name == name)

/-- The rows to which an association of a row leads. -/
def related (m : Model) (row : Row) (a : Association) : List (Nat × Row) :=
  match models.target? a with
  | none => []
  | some t =>
    match models.ownReference? m a with
    | some (c, name) =>
      match columnNamed? t name with
      | some k => store.rowsWhere t k.key (Stored.ofValue (Fields.get row c.key))
      | none => []
    | none =>
      match models.backReference? m a with
      | some (c, name) =>
        match columnNamed? m name with
        | some k => store.rowsWhere t c.key (Stored.ofValue (Fields.get row k.key))
        | none => []
      | none => []

/-- The value of an association of a row. -/
def associated (m : Model) (row : Row) (a : Association) : Value :=
  let rows := (related models store m row a).map fun r => Value.entity a.target r.1
  if models.isMany m a then .list rows else rows.head?.getD .null

/-- The value of a virtual field of a row. -/
def computed (row : Row) : VirtualRule → Value
  | .column key => Fields.get row key
  | .join keys separator =>
    .text (String.intercalate separator (keys.map fun k => (Fields.get row k).plain))
  | .const v => v

/-- The value of a name on a row of a model; null if it has no such name. -/
def memberOf (m : Model) (row : Row) (key : String) : Value :=
  if (m.column? key).isSome then Fields.get row key
  else match m.association? key with
    | some a => associated models store m row a
    | none => ((m.virtual? key).map fun v => computed row v.rule).getD .null

/-- The value of a name on any value: a row, a mapping or an object. -/
def attributeOf (v : Value) (key : String) : Value :=
  match v with
  | .entity model place =>
    match models.get? model, store.row? model place with
    | some m, some row => memberOf models store m row key
    | _, _ => .null
  | v => v.member key

end Store
end SchemaForge
