import SchemaForge.Execution.Script

/-!
# Directives around a field

The directives of a field form a chain: the first is outermost, and inside the last the
field itself is run. A directive runs its steps in order. It can run what is inside of
it any number of times; if it never does, this is done once after its steps. The value
of the chain is what the last of these runs yielded, less what the tests of the
directive turn down: the entries of a list, or the value itself.
-/
namespace SchemaForge

/-- What is known while a directive runs. -/
structure Progress where
  /-- What is inside last yielded. -/
  result : Option Value := none
  /-- The tests that were asked for. -/
  tests : List Test := []

namespace Test

/-- Whether a value passes a test. -/
def accepts (scene : Scene) (v : Value) : Test → Except Failure Bool
  | const b => .ok b.truthy
  | notIn items => (Operator.contains v items).map not
  | satisfies condition => Condition.holds (scene.rows.attributeOf scene.models v) condition

/-- Whether a value passes several tests. Those after the first that it fails are not
made. -/
def acceptsAll (scene : Scene) (v : Value) : List Test → Except Failure Bool
  | [] => .ok true
  | t :: ts =>
    match t.accepts scene v with
    | .ok true => acceptsAll scene v ts
    | other => other

/-- Whether a value, as it is now, passes several tests. -/
def passes (scene : Scene) (tests : List Test) (v : Value) : Act Bool := do
  Act.lift (acceptsAll scene (← Act.view v) tests)

/-- What tests leave of a value: the entries of a list that pass, or the value itself if
it passes. A list keeps its place, so all who hold it see what is left. -/
def prune (scene : Scene) (tests : List Test) (v : Value) : Act Value :=
  if tests.isEmpty then return v
  else match v with
    | .cell place => do
      let kept ← ((← get).memory.items place).filterM (passes scene tests)
      Act.remember fun m => ((), m.setItems place kept)
      return v
    | .list xs | .tuple xs => do
      let kept ← xs.filterM (passes scene tests)
      Act.remember (·.newCell kept)
    | .null => return .null
    | v => do return if ← passes scene tests v then v else .null

end Test

namespace Chain

variable (scene : Scene) (call : Call)

/-- What a directive can see of its call. -/
def parameters : Value :=
  let context := match scene.context with
    | .object _ fs => .record fs
    | v => v
  .record [("field", .text call.field), ("args", .record call.arguments),
    ("source", call.source), ("context", context)]

/-- Run a step of a directive around what is inside of it. -/
def step (awaits : Bool) (inner : Act Value) (p : Progress) : Step → Act Progress
  | .log v => do
    Act.record call.path v
    return p
  | .params => do
    Act.record call.path (parameters scene call)
    return p
  | .resolve =>
    if awaits then do
      let v ← inner
      Act.record call.path (.record [("resolved", v)])
      return { p with result := some v }
    else return p
  | .filter t => return { p with tests := p.tests ++ [t] }
  | .raise text => throw (.script text)

/-- Run the steps of a directive around what is inside of it. -/
def steps (awaits : Bool) (inner : Act Value) (p : Progress) : List Step → Act Progress
  | [] => return p
  | s :: rest => do steps awaits inner (← step scene call awaits inner p s) rest

/-- Run a directive around what is inside of it. -/
def around (d : Directive) (inner : Act Value) : Act Value := do
  let p ← steps scene call d.awaits inner {} d.steps
  let v ← match p.result with
    | some v => pure v
    | none => inner
  Test.prune scene p.tests v

/-- Run the directives of a field around the field itself. -/
def run (directives : List Directive) (field : Act Value) : Act Value :=
  directives.foldr (around scene call) field

@[simp] theorem run_nil (field : Act Value) : run scene call [] field = field := rfl

@[simp] theorem run_cons (d : Directive) (ds : List Directive) (field : Act Value) :
    run scene call (d :: ds) field = around scene call d (run scene call ds field) := rfl

end Chain
end SchemaForge
