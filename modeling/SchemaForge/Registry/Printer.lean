import SchemaForge.Registry.Basic
import SchemaForge.Registry.Directives

/-!
# Writing the registry as schema text

Definitions of directives come first, so that every use refers to a known one, then the
query root and the other types in order. A type of a base schema is extended instead of
defined. The declared signatures of one argument must agree in everything but null, and
where they differ there, null is allowed.
-/
namespace SchemaForge
namespace Registry

open Language

/-- The name of the query root. -/
def queryRoot : String := OperationKind.query.rootName

/-- The one signature for all declared signatures of an argument. -/
def reconcile (type field argument : String) (declared : List String) : Except Failure String :=
  match declared with
  | [only] => .ok only
  | _ =>
    let parts := declared.map Signature.splitDefault
    let signatures := parts.map Prod.fst
    let defaults := (parts.map Prod.snd).filter (· != "")
    let shapes := signatures.map Signature.withoutMarks
    match signatures, shapes with
    | s :: ss, h :: hs =>
      if hs.all (· == h) then
        let signature := if ss.all (· == s) then s else h
        .ok (signature ++ ((defaults.head?.map (" = " ++ ·)).getD ""))
      else .error (.conflictingArguments argument type field declared)
    | _, _ => .error .noKey

/-- Uses of directives after something. -/
def usesText (uses : List String) : String :=
  if uses.isEmpty then "" else " " ++ String.intercalate " " uses

/-- An argument of a line. -/
def argumentText (type field : String) (argument : String × List String) :
    Except Failure String :=
  (reconcile type field argument.1 argument.2).map (argument.1 ++ ": " ++ ·)

/-- A line of a type. Directives stand only after a return type. -/
def lineText (type field : String) (line : FieldLine) : Except Failure String := do
  let arguments ← line.arguments.mapM (argumentText type field)
  let inputs := if arguments.isEmpty then "" else "(" ++ String.intercalate ", " arguments ++ ")"
  let result := if line.type == "" then "" else ": " ++ line.type ++ usesText line.directives
  return field ++ inputs ++ result

/-- A type, or nothing for one without lines that is not a scalar. -/
def typeText (name : String) (entry : TypeEntry) (extends? : Bool) : Except Failure String := do
  let start := if extends? then "extend " else ""
  if entry.kind = .scalar then
    return start ++ "scalar " ++ name ++ usesText entry.directives
  else
    let lines ← entry.lines.mapM fun (field, line) => lineText name field line
    if lines.isEmpty then return ""
    else if entry.kind = .union then
      return start ++ "union " ++ name ++ " = " ++ String.intercalate " | " lines
    else
      return start ++ entry.kind.word ++ " " ++ name ++ usesText entry.directives ++ " \x7b\n"
        ++ String.intercalate "\n" (lines.map ("  " ++ ·)) ++ "\n\x7d"

/-- The types in writing order: the query root first. -/
def ordered (r : Registry) : List (String × TypeEntry) :=
  r.filter (·.1 == queryRoot) ++ r.filter (·.1 != queryRoot)

/-- A type in a schema that may have types already. -/
def typeTextIn (existing : List String) (named : String × TypeEntry) : Except Failure String :=
  let known := existing.contains named.1
  if known && named.2.kind == .scalar && named.2.directives.isEmpty then .ok ""
  else typeText named.1 named.2 known

/-- The whole registry with the definitions of its directives. -/
def text (r : Registry) (records : DirectiveRecords) (existingTypes existingDirectives : List String) :
    Except Failure String := do
  let fresh := records.filter fun d => !existingDirectives.contains d.1
  let definitions ← fresh.mapM fun (name, d) => d.definition name
  let types ← r.ordered.mapM (typeTextIn existingTypes)
  return String.intercalate "\n\n" (definitions ++ types.filter (· != ""))

end Registry
end SchemaForge
