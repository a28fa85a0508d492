import SchemaForge.Execution.Part

/-!
# From values to parts of an answer

`complete` turns a value into what an answer shows for the type that the schema
promises: a leaf, a list, or the fields that are asked of an object. Fields whose values
are at hand are completed right away; the others are left as jobs.
-/
namespace SchemaForge

open Language

/-- Whether the value has to be waited for. -/
def Handler.isDeferred (h : Handler) : Bool :=
  !h.directives.isEmpty ||
    match h.yield with
    | .member => false
    | .resolver r => r.awaited
    | .fetch _ => true

/-- Whether everything travels as it is. -/
def Leaf.isFree : Leaf → Bool
  | .free | .scalar .json => true
  | _ => false

namespace Completion

variable (scene : Scene)

/-- What a field yields without its directives. -/
def plainValue (call : Call) : Yield → Act Value
  | .member => Act.keep (scene.rows.attributeOf scene.models call.source call.field)
  | .resolver r => r.script.run scene call
  | .fetch f => do
    Act.keep (← Act.lift (f.run scene call.source (← Act.viewFields call.arguments)))

/-- What a field yields. -/
def fieldValue (call : Call) (h : Handler) : Act Value :=
  Chain.run scene call h.directives (plainValue scene call h.yield)

/-- What an answer shows for a leaf. -/
def leafValue (leaf : Leaf) (v : Value) : Act Value := do
  let seen ← if leaf.isFree then pure v else Act.view v
  let shown ← Act.lift (leaf.serialize seen)
  if shown.isNull || shown.isAbsent then throw .unexpectedNull else return shown

/-- The items of a list. -/
def itemsOf (v : Value) : Act (List Value) := do
  match v with
  | .cell place => return (← get).memory.items place
  | .list xs | .tuple xs => return xs
  | _ => throw .unrepresentable

/-- The name of the object type that a value says it has. -/
def typeNameOf : Value → Option String
  | .record fs => (Fields.get fs "__typename").text?
  | .object kind fs => (Fields.get fs ("_" ++ kind ++ "__typename")).text?
  | _ => none

/-- The object type of a value of an interface or union. -/
def runtimeType (type : String) (v : Value) : Except Failure String :=
  match typeNameOf v with
  | some name =>
    if scene.schema.isKind name .object && scene.schema.isPossible type name then .ok name
    else .error .unrepresentable
  | none => .error .unrepresentable

/-- How objects of a type at a place are grown. -/
abbrev Objects := String → Path → Value → Grow Part

/-- A value of a type that is named. -/
def completeNamed (objects : Objects) (name : String) (path : Path) (v : Value) : Grow Part := do
  match scene.schema.leaf? scene.leaves name with
  | some leaf => return .value (← Grow.placed path (leafValue leaf v))
  | none =>
    if scene.schema.isKind name .object then objects name path v
    else objects (← Grow.placed path (Act.lift (runtimeType scene name v))) path v

/-- The items of a list, from an index on. -/
def completeItems (grow : Path → Value → Grow Part) (nullable : Bool) (path : Path) :
    Nat → List Value → Grow (List Slot)
  | _, [] => return []
  | n, v :: vs => do
    let p ← Grow.into nullable (grow (path ++ [.index n]) v)
    return (.index n, nullable, p) :: (← completeItems grow nullable path (n + 1) vs)

/-- A value of a type. -/
def complete (objects : Objects) : TypeRef → Path → Value → Grow Part
  | .named name, path, v =>
    if v.isNull || v.isAbsent then return .null else completeNamed scene objects name path v
  | .list t, path, v =>
    if v.isNull || v.isAbsent then return .null
    else do
      let items ← Grow.placed path (itemsOf v)
      return .group true false (← completeItems (complete objects t) (!t.isNonNull) path 0 items)
  | .nonNull t, path, v => do
    match ← complete objects t path v with
    | .value .null => throw ⟨path, .unexpectedNull⟩
    | p => return p

/-- The defaults of the arguments of a field. -/
def defaultsOf (type field : String) : Coercion.Defaults := fun i =>
  scene.defaults.get? (String.intercalate "." [type, field, i.name])

/-- The names of what every call is given besides its arguments. An argument with such a
name cannot be passed on. -/
def takenNames : List String := ["source", "info"]

/-- The arguments of a field, lists of their own. -/
def argumentsOf (type : String) (f : FieldNode) (given : Arguments) : Act Fields := do
  let arguments ← Act.lift <| Coercion.arguments scene.schema scene.leaves
    (defaultsOf scene type f.name) scene.variableValues given f.arguments
  if takenNames.any (Table.has arguments) then throw .wrongKind
  Act.remember (·.storeFields arguments)

/-- A field of an object. -/
def growField (objects : List Selection → Objects) (levels : Nat) (type : String) (source : Value)
    (path : Path) (f : FieldNode) (a : Asked) : Grow Part := do
  let arguments ← Grow.placed path (argumentsOf scene type f a.arguments)
  let call : Call := { path, field := a.name, source, arguments, selections := a.selections }
  let handler := (scene.handlers.find? type f.name).getD {}
  if handler.isDeferred then return .waiting { type := f.type, handler, call, levels }
  else
    let v ← Grow.placed path (fieldValue scene call handler)
    complete scene (objects a.selections) f.type path v

/-- The fields that are asked of an object, so many levels of them at most. -/
def growFields : Nat → List Selection → Objects
  | 0, _, _, _, _ => return .group false false []
  | n + 1, selections, type, path, source => do
    let asked ← Grow.placed path
      (Act.lift (Asked.collect scene.schema scene.leaves scene.variableValues type selections))
    let slots ← asked.filterMapM fun (key, a) => do
      let place := PathPart.key key
      if a.name == "__typename" then return some (place, false, Part.value (.text type))
      else match scene.schema.field? type a.name with
        | none => return none
        | some f =>
          let nullable := !f.type.isNonNull
          let p ← Grow.into nullable
            (growField scene (growFields n) n type source (path ++ [place]) f a)
          return some (place, nullable, p)
    return .group false false slots

/-- Run a job. -/
def runJob (job : Job) : Grow Part := do
  let v ← Grow.placed job.call.path (fieldValue scene job.call job.handler)
  complete scene (growFields scene job.levels job.call.selections) job.type job.call.path v

end Completion
end SchemaForge
