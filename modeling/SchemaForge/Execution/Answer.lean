import SchemaForge.Execution.Rounds
import SchemaForge.Generate
import SchemaForge.Language.Parser
import SchemaForge.Request.Rules
import SchemaForge.Schema.Validity

/-!
# Answering queries

`Server.answer` takes a query from its text to an answer, or says at which gate it was
turned away: the schema must be sound, the text in the grammar, the document valid, and
the operation, its root and the values of its variables must be there. What resolvers
keep is kept from one query to the next; the trace and the failures are those of one
query.
-/
namespace SchemaForge

open Language

/-- A query. -/
structure Query where
  /-- Its text. -/
  text : String
  /-- The values of variables. -/
  «variables» : Fields
  /-- The name of the operation to run. -/
  operation : Option String
  /-- The value at the root. -/
  root : Value
  /-- The context. -/
  context : Value
  /-- The key under which the context holds a session, if it holds one. -/
  session : Option String

/-- The gates at which a query can be turned away. -/
inductive Refusal where
  /-- The schema is not sound. -/
  | schema
  /-- The text is not in the grammar. -/
  | grammar
  /-- The document breaks a rule. -/
  | rules
  /-- The operation, its root or a variable is missing or does not fit, or it cannot be
  told what is asked of the root. -/
  | request
  deriving DecidableEq

/-- An answer. -/
structure Answer where
  /-- The data. -/
  data : Value
  /-- The failures that cost a value. -/
  mishaps : List Mishap
  /-- Entries by place. -/
  trace : Table (List Value)

/-- A schema with the rows that it serves. -/
structure Server where
  /-- The schema. -/
  generated : Generated
  /-- The mapped models. -/
  models : Models
  /-- The rows. -/
  rows : Store
  /-- The defaults of arguments, by type, field and argument. -/
  defaults : Table Value

namespace Server

/-- The defaults of all arguments of fields, by type, field and argument. -/
def defaultsOf (s : Schema) : Fields :=
  s.types.flatMap fun (type, t) => t.body.fields.flatMap fun f => f.arguments.filterMap fun i =>
    (Coercion.defaultOf s i).map fun v => (String.intercalate "." [type, f.name, i.name], v)

/-- A server, with what it keeps from the start. -/
def start (g : Generated) (models : Models) (rows : Store) : Server × Memory :=
  let (defaults, memory) := Memory.storeFields {} (defaultsOf g.schema)
  ({ generated := g, models, rows, defaults }, memory)

/-- The operation that a query names, or the only one. -/
def operation? (operations : List Operation) (name : Option String) : Option Operation :=
  match name with
  | some n => operations.find? (·.name == some n)
  | none =>
    match operations with
    | [o] => some o
    | _ => none

/-- The levels of the deepest type of a field. -/
def deepest (s : Schema) : Nat :=
  (s.types.flatMap fun t => t.2.body.fields.map fun f => f.type.depth).foldl max 0

variable (server : Server)

/-- Run an operation. A part is at most as many steps away from the root as there are
levels of fields, each with the levels of its type and three steps of its own. -/
def execute (q : Query) (r : Request) (o : Operation) (root : String) (variableValues : Fields)
    (memory : Memory) : Answer × Memory :=
  let (variableValues, memory) := memory.storeFields variableValues
  let (context, memory) := memory.store q.context
  let (source, memory) := memory.store q.root
  let scene : Scene :=
    { schema := r.schema, leaves := r.leaves, handlers := server.generated.handlers
      models := server.models, rows := server.rows, variableValues, defaults := server.defaults
      context, session := q.session }
  let selections := Selection.expanded r.fragments o.selections
  let depth := Selection.depthAll selections
  let bound := (depth + 1) * (deepest r.schema + 3)
  let run : StateM Journal Value := do
    let p ← match ← Completion.growFields scene depth selections root [] source with
      | .ok p => Rounds.finishRoot scene o.kind bound p
      | .error m => pure (.lost (some m) [])
    return (← Rounds.settle true p).shown
  let (data, journal) := run { memory }
  ({ data := journal.memory.view data, mishaps := journal.mishaps, trace := journal.trace },
    journal.memory)

/-- Answer a query, or say why not. -/
def answer (q : Query) (memory : Memory) : Except Refusal Answer × Memory :=
  let s := server.generated.schema
  let leaves := server.generated.leaves
  if !s.isSound then (.error .schema, memory)
  else match Document.ofText? q.text with
    | .error _ => (.error .grammar, memory)
    | .ok document =>
      let r : Request := { schema := s, leaves, document }
      if !r.isValid then (.error .rules, memory)
      else
        let found := do
          let o ← operation? r.operations q.operation
          let root ← s.root? o.kind
          let values ← Coercion.variableValues s leaves q.«variables» o.variableNodes
          let selections := Selection.expanded r.fragments o.selections
          let _ ← (Asked.collect s leaves values root selections).toOption
          return (o, root, values)
        match found with
        | none => (.error .request, memory)
        | some (o, root, values) =>
          let (a, memory) := server.execute q r o root values memory
          (.ok a, memory)

end Server
end SchemaForge
