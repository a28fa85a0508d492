import SchemaForge.Execution.Memory
import SchemaForge.Failure
import SchemaForge.Schema.Leaf
import SchemaForge.Store.Entity
import SchemaForge.Wiring

/-!
# What a query runs in

A `Scene` is all that stays the same while one query runs, a `Journal` all that changes:
the memory, the trace, and the failures that were met. A step that can fail is an
`Act`; what it wrote into the journal before it failed stays there.
-/
namespace SchemaForge

open Language

/-- A step on the way to a value of an answer. -/
inductive PathPart where
  /-- The value under a key. -/
  | key (name : String)
  /-- The item at an index. -/
  | index (n : Nat)
  deriving DecidableEq

namespace PathPart

/-- A step as text. -/
def text : PathPart → String
  | key name => name
  | index n => showNat n

/-- A step as a value. -/
def value : PathPart → Value
  | key name => .text name
  | index n => .int n

end PathPart

/-- The way to a value of an answer. -/
abbrev Path := List PathPart

/-- A way as text. -/
def Path.text (p : Path) : String := String.intercalate "." (p.map PathPart.text)

/-- A failure and where it was met. -/
structure Mishap where
  /-- Where. -/
  path : Path
  /-- What. -/
  cause : Failure

/-- What stays the same while a query runs. -/
structure Scene where
  /-- The schema. -/
  schema : Schema
  /-- How values of scalars travel. -/
  leaves : Implementations
  /-- The handlers of fields. -/
  handlers : Handlers
  /-- The mapped models. -/
  models : Models
  /-- The rows. -/
  rows : Store
  /-- The values of variables. -/
  variableValues : Fields
  /-- The defaults of arguments, by type, field and argument. -/
  defaults : Table Value
  /-- The context of the query. -/
  context : Value
  /-- The key under which the context holds a session, if it holds one. -/
  session : Option String

/-- What changes while a query runs. -/
structure Journal where
  /-- What is kept. -/
  memory : Memory
  /-- Entries by place. -/
  trace : Table (List Value) := []
  /-- The failures that cost a value. -/
  mishaps : List Mishap := []

/-- Write down a failure that cost a value. -/
def Journal.note (j : Journal) (m : Mishap) : Journal := { j with mishaps := j.mishaps ++ [m] }

/-- A step that can fail. -/
abbrev Act := ExceptT Failure (StateM Journal)

/-- What a resolver or directive is called with. -/
structure Call where
  /-- Where its value goes. -/
  path : Path
  /-- The name of the field. -/
  field : String
  /-- The parent value. -/
  source : Value
  /-- The arguments. -/
  arguments : Fields
  /-- What is selected below. -/
  selections : List Selection

namespace Act

/-- A change of the memory. -/
def remember {α : Type} (f : Memory → α × Memory) : Act α := fun j =>
  let (a, memory) := f j.memory
  (.ok a, { j with memory })

/-- A value as it is now. -/
def view (v : Value) : Act Value := do return (← get).memory.view v

/-- Several fields as they are now. -/
def viewFields (fs : Fields) : Act Fields := do
  let m := (← get).memory
  return fs.map fun f => (f.1, m.view f.2)

/-- A new value, its lists in cells of their own. -/
def keep (v : Value) : Act Value := remember (·.store v)

/-- An outcome that changes nothing. -/
def lift {α : Type} (x : Except Failure α) : Act α := fun j => (x, j)

/-- Write into the trace, as the value is now. -/
def record (path : Path) (v : Value) : Act Unit := do
  let seen ← view v
  modify fun j => { j with trace := j.trace.update path.text [] (· ++ [seen]) }

end Act
end SchemaForge
