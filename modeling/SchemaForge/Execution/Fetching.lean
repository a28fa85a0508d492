import SchemaForge.Execution.Basic
import SchemaForge.Store.Order

/-!
# Fetching rows for a field

A field that is fetched from the store selects rows of its model: those related to the
parent row if it follows an association, those that satisfy the condition among its
arguments, in the order among its arguments, a page of them for a list and the first one
otherwise. The hook of the model and then that of the field may add conditions and
replace the order and the limit. Lists without an order are in that of the key.
-/
namespace SchemaForge
namespace Fetch

variable (scene : Scene) (f : Fetch)

/-- The page that is shown when none is asked for. -/
def firstPage : Int := 1

/-- The length of pages when none is asked for. -/
def usualLength : Int := 10

/-- A number among the arguments, with one for when it is null, zero or left out. -/
def numberOr (arguments : Fields) (name : String) (otherwise : Int) : Except Failure Int :=
  match Fields.get arguments name with
  | .int n => .ok (if n == 0 then otherwise else n)
  | .bool b => .ok (if b then 1 else otherwise)
  | v => if v.truthy then .error .wrongKind else .ok otherwise

/-- Take a page of what a statement selects: pages count from one, and those before the
first are the first. -/
def paged (q : Select) (page length : Int) : Select :=
  { q with offset := max (page - 1) 0 * length, limit := some length }

/-- An identifier as the key of a model has it. -/
def identifier (type : ColumnType) (v : Value) : Value :=
  match v with
  | .text s =>
    let families := ColumnType.known type.stored
    if families.contains "Integer" then ((Written.int? s).map Value.int).getD v
    else if families.contains "Float" || families.contains "Numeric" then
      ((Written.real? s).map Value.real).getD v
    else if families.contains "Boolean" then .bool (s != "")
    else v
  | v => v

/-- The clause that a row is identified by a value. -/
def identified (m : Model) (v : Value) : List Clause :=
  match m.primaryKey with
  | c :: _ => [.compare .eq ⟨m.table, c⟩ (identifier c.type v)]
  | [] => []

/-- The clause that rows are related to a parent row by an association. -/
def relatedTo (m : Model) (row : Row) (a : Association) : Except Failure Clause :=
  match scene.models.target? a with
  | none => .error .noMember
  | some t =>
    let link (key : Option Column) (other : Option Column) : Except Failure Clause :=
      match key, other with
      | some k, some c => .ok (.compare .eq ⟨t.table, k⟩ (Fields.get row c.key))
      | _, _ => .error .noMember
    match scene.models.ownReference? m a with
    | some (c, name) => link (Store.columnNamed? t name) (some c)
    | none =>
      match scene.models.backReference? m a with
      | some (c, name) => link (some c) (Store.columnNamed? m name)
      | none => .error .noMember

/-- The clauses that tie rows to the parent value, if the field follows an association. -/
def tied (source : Value) : Except Failure (List Clause) :=
  if !f.config.association.truthy || source.isNull then .ok []
  else match source with
    | .entity model place =>
      match scene.models.get? model, scene.rows.row? model place with
      | some m, some row =>
        match m.association? f.config.association.plain with
        | some a => (relatedTo scene m row a).map fun c => [c]
        | none => .error .noMember
      | _, _ => .error .noMember
    | _ => .error .noMember

/-- Whether the field returns a list. -/
def isList : Except Failure Bool :=
  match f.config.returnType with
  | .text s => Signature.isList s
  | _ => .error .wrongKind

/-- The terms that sort by the key of a model. -/
def keyOrder (m : Model) : List OrderTerm := m.primaryKey.map fun c => ⟨⟨m.table, c⟩, false⟩

/-- A limit from a value, null for none. -/
def limitOf : Value → Except Failure (Option Int)
  | .null => .ok none
  | .int n => .ok (some n)
  | .bool b => .ok (some (if b then 1 else 0))
  | _ => .error .badOperand

/-- What a hook makes of a statement. -/
def hooked (arguments : Fields) (q : Select) : Option HookOption → Except Failure Select
  | none => .ok q
  | some (.value .null) => .ok q
  | some (.value _) => .error .wrongKind
  | some (.callable h) => do
    let q ← match h.condition with
      | some w => do
        let c ← Clause.ofCondition scene.models q.model w
        pure { q with clauses := q.clauses ++ c.toList }
      | none => pure q
    let q ← match h.order with
      | some v => do pure { q with order := ← OrderTerm.ofValues q.model v }
      | none => pure q
    let q ← match h.limit with
      | some v => do pure { q with limit := ← limitOf v }
      | none => pure q
    match h.limitArgument with
    | some name => do pure { q with limit := ← limitOf (Fields.get arguments name) }
    | none => pure q

/-- The page or row that the arguments ask for. -/
def chosen (isList : Bool) (arguments : Fields) (q : Select) : Except Failure Select :=
  if isList then do
    let page ← numberOr arguments "page" firstPage
    let length ← numberOr arguments "perPage" usualLength
    return paged q page length
  else
    let id := Fields.get arguments "id"
    if id.isNull then .ok q else .ok { q with clauses := q.clauses ++ identified q.model id }

/-- The statement of a call, and whether it answers with a list. -/
def statement (source : Value) (arguments : Fields) : Except Failure (Select × Bool) := do
  let m := (scene.models.get? f.model).getD default
  let list ← f.isList
  let q : Select := { model := m, clauses := ← f.tied scene source }
  let q ← chosen list arguments q
  let condition ← Clause.ofCondition scene.models m (Fields.get arguments "where")
  let order ← OrderTerm.ofValues m (Fields.get arguments "order")
  let order := if order.isEmpty && list then keyOrder m else order
  let q := { q with clauses := q.clauses ++ condition.toList, order }
  let q ← hooked scene arguments q f.hook
  let q ← hooked scene arguments q f.config.hook
  return (if list then q else { q with limit := some 1 }, list)

/-- The usual key of a session. -/
def usualSessionKey : String := "db_session"

/-- The session must be in the context: under the usual key, or under that of the
plugin, which only a mapping can have. -/
def checkSession : Except Failure Unit :=
  let held (key : String) := scene.session == some key
  match f.sessionKey with
  | none =>
    if held usualSessionKey then .ok ()
    else if (scene.context.member usualSessionKey).isNull then .error (.noSession usualSessionKey)
    else .error .noMember
  | some key =>
    match scene.context with
    | .record fs =>
      if held key then .ok ()
      else if Table.has fs key then .error .noMember
      else .error .noKey
    | _ => .error .wrongKind

/-- The rows that a call fetches: all of them for a list, else the first or null. -/
def run (source : Value) (arguments : Fields) : Except Failure Value := do
  let (q, list) ← f.statement scene source arguments
  f.checkSession scene
  let rows := (scene.rows.select q).map fun r => Value.entity q.model.name r.1
  return if list then .list rows else rows.head?.getD .null

end Fetch
end SchemaForge
