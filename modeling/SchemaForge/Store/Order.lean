import SchemaForge.Store.Clause

/-!
# Sort orders

An order value is the name of a column, a low line and a direction. The last low line
counts, so a name may hold others.
-/
namespace SchemaForge

/-- A column to sort by. -/
structure OrderTerm where
  /-- The column. -/
  column : ColumnRef
  /-- Whether the greatest value comes first. -/
  descending : Bool

namespace OrderTerm

/-- The order value of a field in a direction. -/
def value (field : String) (descending : Bool) : String :=
  field ++ "_" ++ (if descending then "DESC" else "ASC")

/-- A text without an ending, if it ends so. -/
def withoutEnding (ending cs : List Char) : Option (List Char) :=
  if ending.isSuffixOf cs then some (cs.take (cs.length - ending.length)) else none

/-- The name before a direction: not empty, and without line feeds. -/
def nameBefore (ending : String) (cs : List Char) : Option String :=
  match withoutEnding ending.toList cs with
  | some name =>
    if name.isEmpty || name.contains '\n' then none else some (String.ofList name)
  | none => none

/-- A text without the one line feed that may stand at its end. -/
def withoutLineFeed (cs : List Char) : List Char :=
  (withoutEnding ['\n'] cs).getD cs

/-- The name and the direction of an order value. -/
def split? (s : String) : Option (String × Bool) :=
  let cs := withoutLineFeed s.toList
  match nameBefore "_ASC" cs with
  | some name => some (name, false)
  | none => (nameBefore "_DESC" cs).map fun name => (name, true)

/-- The term that an order value stands for. -/
def ofValue (m : Model) : Value → Except Failure OrderTerm
  | .text s =>
    match split? s with
    | none => .error .invalidOrder
    | some (key, descending) =>
      match m.member? key with
      | some (.column c) => .ok ⟨⟨m.table, c⟩, descending⟩
      | some (.association _) => .error .notProvided
      | some (.plain _) => .error .noMember
      | none => .error .invalidOrder
  | _ => .error .wrongKind

/-- The terms that a list of order values stands for. -/
def ofValues (m : Model) (v : Value) : Except Failure (List OrderTerm) :=
  if !v.truthy then .ok []
  else match v.iterate? with
    | some vs => vs.mapM (ofValue m)
    | none => .error .wrongKind

end OrderTerm
end SchemaForge
