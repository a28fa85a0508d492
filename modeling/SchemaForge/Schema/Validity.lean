import SchemaForge.Schema.Addition
import SchemaForge.Schema.Coercion

/-!
# Schemas that can be queried

A schema can be built without being fit for queries. It is fit when its roots are object
types, no name is one of introspection, every type has something in it, types keep the
promises of their interfaces, and input types do not need themselves.
-/
namespace SchemaForge

open Language

namespace Schema

/-- Whether a name is free for use: those of introspection are not. -/
def isFreeName (name : String) : Bool := !("__".isPrefixOf name)

/-- Whether uses of directives mark something as deprecated. -/
def isDeprecated (uses : List DirectiveUse) : Bool :=
  match uses.find? (·.name == "deprecated") with
  | some u =>
    match u.arguments.lookup "reason" with
    | some .null => false
    | _ => true
  | none => false

variable (s : Schema)

/-- Whether an input has a free name, and is not needed and deprecated at once. -/
def inputIsSound (i : InputNode) : Bool :=
  isFreeName i.name && !(Coercion.isRequired s i && isDeprecated i.directives)

/-- Whether a field has a free name and sound arguments. -/
def fieldIsSound (f : FieldNode) : Bool := isFreeName f.name && f.arguments.all s.inputIsSound

/-- Whether a field keeps the promise of an interface: it takes the same arguments, needs
no others, and returns nothing else. -/
def fieldKeeps (own promised : FieldNode) : Bool :=
  s.isSubtype own.type promised.type
    && (promised.arguments.all fun i =>
        (own.arguments.find? (·.name == i.name)).any fun j => i.type == j.type)
    && own.arguments.all fun j =>
        promised.arguments.any (·.name == j.name) || !Coercion.isRequired s j

/-- Whether a type keeps the promises of an interface. -/
def keeps (body : TypeBody) (interface : String) : Bool :=
  (s.interfaces interface).all (body.interfaces.contains ·)
    && (s.fields interface).all fun promised =>
      (body.fields.find? (·.name == promised.name)).any (s.fieldKeeps · promised)

/-- Whether a type with fields is sound. -/
def fieldedIsSound (name : String) (body : TypeBody) : Bool :=
  !body.fields.isEmpty && body.fields.all s.fieldIsSound
    && Addition.distinct body.interfaces && !body.interfaces.contains name
    && body.interfaces.all (s.keeps body)

/-- Whether what a type says is sound. -/
def bodyIsSound (name : String) : TypeBody → Bool
  | .scalar => true
  | .object is fs => s.fieldedIsSound name (.object is fs)
  | .interface is fs => s.fieldedIsSound name (.interface is fs)
  | .union ms => !ms.isEmpty && Addition.distinct ms
  | .enum vs => !vs.isEmpty && vs.all (isFreeName ·.name)
  | .input fs => !fs.isEmpty && fs.all s.inputIsSound

/-- The input types that an input type cannot do without. -/
def needs (name : String) : List String :=
  (s.inputs name).filterMap fun i =>
    match i.type with
    | .nonNull (.named n) => if s.isKind n .input then some n else none
    | _ => none

/-- All input types that some input types cannot do without, so many steps on. -/
def needsFrom : Nat → List String → List String
  | 0, names => names
  | n + 1, names =>
    needsFrom n ((names.flatMap s.needs).foldl (fun ns x => if ns.contains x then ns else ns ++ [x]) names)

/-- Whether an input type does not need itself. -/
def isFinite (name : String) : Bool :=
  !(s.needsFrom s.types.length (s.needs name).eraseDups).contains name

/-- Whether a directive is sound. -/
def directiveIsSound (d : DirectiveNode) : Bool :=
  isFreeName d.name && d.arguments.all s.inputIsSound

/-- Whether the roots are object types and there is one for queries. -/
def rootsAreSound : Bool :=
  (s.root? .query).isSome && s.roots.all fun r => s.isKind r.2 .object

/-- Whether a schema is fit for queries. -/
def isSound : Bool :=
  s.rootsAreSound && s.directives.all s.directiveIsSound
    && s.types.all fun t => isFreeName t.1 && s.bodyIsSound t.1 t.2.body && s.isFinite t.1

end Schema
end SchemaForge
