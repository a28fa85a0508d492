import SchemaForge.Condition
import SchemaForge.Execution.Basic
import SchemaForge.Store.Lookahead
import SchemaForge.Value.Json

/-!
# Running scripts

`Script.run` gives the value that a script yields when it is called.
-/
namespace SchemaForge

open Language

mutual

/-- Whether a value can be written as JSON. -/
def Value.isData : Value → Bool
  | .null | .bool _ | .int _ | .real _ | .text _ => true
  | .list xs => allData xs
  | .tuple xs => allData xs
  | .record fs => allFieldData fs
  | _ => false

/-- Whether several values can be written as JSON. -/
def Value.allData : List Value → Bool
  | [] => true
  | x :: xs => Value.isData x && allData xs

/-- Whether the values of fields can be written as JSON. -/
def Value.allFieldData : List (String × Value) → Bool
  | [] => true
  | (_, x) :: fs => Value.isData x && allFieldData fs

end

mutual

/-- A value with the fields of its mappings by name. -/
def Value.sorted : Value → Value
  | .list xs => .list (sortedAll xs)
  | .tuple xs => .tuple (sortedAll xs)
  | .record fs => .record ((sortedFields fs).mergeSort fun a b => (Value.compareText a.1 b.1).isLE)
  | v => v

/-- Several values with the fields of their mappings by name. -/
def Value.sortedAll : List Value → List Value
  | [] => []
  | x :: xs => Value.sorted x :: sortedAll xs

/-- Fields whose values have the fields of their mappings by name. -/
def Value.sortedFields : List (String × Value) → List (String × Value)
  | [] => []
  | (k, x) :: fs => (k, Value.sorted x) :: sortedFields fs

end

/-- A value as JSON text, if it can be written so. -/
def Value.dataText (v : Value) : Except Failure String :=
  if v.isData then .ok v.json else .error .wrongKind

namespace Script

variable (scene : Scene) (call : Call)

/-- The entries that satisfy the condition among the arguments. -/
def matching (arguments : Fields) : List Value → Except Failure (List Value)
  | [] => .ok []
  | x :: xs =>
    match Condition.satisfied x (Fields.get arguments "where") with
    | .error e => .error e
    | .ok b => (matching arguments xs).map fun rest => if b then x :: rest else rest

/-- How often something is repeated: not at all for what is no number. -/
def repetitions : Value → Nat
  | .int n => n.toNat
  | .bool b => if b then 1 else 0
  | _ => 0

mutual

/-- The value that a script yields. -/
def run : Script → Act Value
  | .traced entry rest => do
    Act.record call.path entry
    run rest
  | .const v => Act.keep v
  | .shared place v => Act.remember (·.share place v)
  | .argument name => return Fields.get call.arguments name
  | .source key => return scene.rows.attributeOf scene.models call.source key
  | .context key => return scene.context.member key
  | .concat parts => do return .text (String.join (← texts parts))
  | .repeated part times separator => do
    let text ← run part
    let n := repetitions (← run times)
    return .text (String.intercalate separator (List.replicate n (← Act.view text).plain))
  | .counter place start => do return .int (start + (← Act.remember (·.count place) : Nat))
  | .raise text => throw (.script text)
  | .rows items => do Act.keep (.list (← Act.lift (matching (← Act.viewFields call.arguments) items)))
  | .echo => do
    let arguments ← Act.viewFields call.arguments
    return .text (← Act.lift (Value.record arguments).sorted.dataText)
  | .object fields => do return .record (← members fields)
  | .selected =>
    return .text (Include.ofSelections [] (Selection.depthAll call.selections) call.selections).value.json
  | .nothing => return .null

/-- The texts of what several scripts yield. -/
def texts : List Script → Act (List String)
  | [] => return []
  | s :: rest => do
    let v ← run s
    let text := (← Act.view v).plain
    return text :: (← texts rest)

/-- What the scripts of a mapping yield. -/
def members : List (String × Script) → Act Fields
  | [] => return []
  | (k, s) :: rest => do
    let v ← run s
    return (k, v) :: (← members rest)

end

end Script
end SchemaForge
