import SchemaForge.Schema.Coercion

/-!
# The parts of a request with their types

The rules for requests look at fields, fragments, directives and literals, each together
with what the schema says about the place where it stands. This module lists them. Where
nothing is known about a place, the type is none, and the rules have nothing to say.
-/
namespace SchemaForge

open Language

/-- A part of a selection, with the type that it is selected from. -/
inductive Site where
  /-- A field. -/
  | field (parent : Option String) (name : String) (arguments : Arguments)
      (uses : List DirectiveUse) (hasSelections : Bool)
  /-- A named fragment. -/
  | spread (parent : Option String) (name : String) (uses : List DirectiveUse)
  /-- Selections under a condition on the type. -/
  | inline (parent : Option String) (condition : Option String) (uses : List DirectiveUse)

/-- Arguments together with what they are arguments of. -/
structure ArgumentSite where
  /-- The definitions, if they are known. -/
  inputs : Option (List InputNode)
  /-- The arguments. -/
  given : Arguments

/-- A variable in a place of some type. -/
structure VariableSite where
  /-- The name of the variable. -/
  name : String
  /-- The type of the place. -/
  type : Option TypeRef
  /-- Whether the place has a default. -/
  hasDefault : Bool

/-- The parts of a document. -/
structure Request where
  /-- The schema. -/
  schema : Schema
  /-- The implementations of its scalars. -/
  leaves : Implementations
  /-- The document. -/
  document : Document

namespace Request

variable (r : Request)

/-- The operations. -/
def operations : List Operation :=
  r.document.filterMap fun
    | .operation o => some o
    | _ => none

/-- The fragments. -/
def fragments : List Fragment :=
  r.document.filterMap fun
    | .fragment f => some f
    | _ => none

/-- The fragment with a name. -/
def fragment? (name : String) : Option Fragment := r.fragments.find? (·.name == name)

/-- A type, if selections can be made from it. -/
def composite? (name : String) : Option String :=
  if r.schema.kindIs name TypeKind.isComposite then some name else none

/-- The field that names the type of a value. -/
def typenameField : FieldNode :=
  { description := none, name := "__typename", arguments := []
    type := .nonNull (.named "String"), directives := [] }

/-- The definition of a field of a type. -/
def fieldOf? (parent : Option String) (name : String) : Option FieldNode :=
  parent.bind fun t =>
    if name == typenameField.name then some typenameField else r.schema.field? t name

/-- The type from which the selections below a field are made. -/
def below (parent : Option String) (name : String) : Option String :=
  (r.fieldOf? parent name).bind fun f => r.composite? f.type.baseName

/-- The type from which the selections of a fragment are made. -/
def within (parent : Option String) (condition : Option String) : Option String :=
  match condition with
  | some t => r.composite? t
  | none => parent

mutual

/-- The parts of a selection. -/
def sites (parent : Option String) : Selection → List Site
  | .field _ name arguments uses sub =>
    .field parent name arguments uses (!sub.isEmpty) :: sitesAll (r.below parent name) sub
  | .spread name uses => [.spread parent name uses]
  | .inline condition uses sub =>
    .inline parent condition uses :: sitesAll (r.within parent condition) sub

/-- The parts of several selections. -/
def sitesAll (parent : Option String) : List Selection → List Site
  | [] => []
  | x :: xs => sites parent x ++ sitesAll parent xs

end

/-- The type from which an operation selects. -/
def rootOf (o : Operation) : Option String := (r.schema.root? o.kind).bind r.composite?

/-- The parts of an operation. -/
def operationSites (o : Operation) : List Site := r.sitesAll (r.rootOf o) o.selections

/-- The parts of a fragment. -/
def fragmentSites (f : Fragment) : List Site :=
  r.sitesAll (r.composite? f.condition) f.selections

/-- The parts of all operations and fragments. -/
def allSites : List Site :=
  r.operations.flatMap r.operationSites ++ r.fragments.flatMap r.fragmentSites

/-- The directives on a part. -/
def siteUses : Site → List DirectiveUse
  | .field _ _ _ uses _ => uses
  | .spread _ _ uses => uses
  | .inline _ _ uses => uses

/-- The arguments of a use of a directive. -/
def useArguments (u : DirectiveUse) : ArgumentSite :=
  ⟨(r.schema.directive? u.name).map (·.arguments), u.arguments⟩

/-- The arguments on a part. -/
def siteArguments (x : Site) : List ArgumentSite :=
  let own := match x with
    | .field parent name given _ _ => [⟨(r.fieldOf? parent name).map (·.arguments), given⟩]
    | _ => []
  own ++ (siteUses x).map r.useArguments

/-- The fragments that some parts name. -/
def spreadNames (xs : List Site) : List String :=
  xs.filterMap fun
    | .spread _ name _ => some name
    | _ => none

/-! ### Literals -/

/-- The type and the default of an argument. -/
def inputOf (x : ArgumentSite) (name : String) : Option InputNode :=
  x.inputs.bind fun is => is.find? (·.name == name)

/-- Whether an input has a default. -/
def hasDefault (i : InputNode) : Bool :=
  (Coercion.defaultOf r.schema i).isSome

/-- The type of the items of a place. -/
def itemType (t : TypeRef) : TypeRef :=
  match t.nullable with
  | .list item => item
  | t => t

/-- The input field that a field of a literal stands for. -/
def literalField? (t : Option TypeRef) (name : String) : Option InputNode :=
  t.bind fun t => (r.schema.inputs t.baseName).find? (·.name == name)

mutual

/-- The variables in a literal of a place. -/
def variablesIn (t : Option TypeRef) (hasDefault? : Bool) : Literal → List VariableSite
  | .var name => [⟨name, t, hasDefault?⟩]
  | .list xs => variablesInAll (t.map itemType) xs
  | .object fs => variablesInFields t fs
  | _ => []

/-- The variables in several literals of places of one type. -/
def variablesInAll (t : Option TypeRef) : List Literal → List VariableSite
  | [] => []
  | x :: xs => variablesIn t false x ++ variablesInAll t xs

/-- The variables in the fields of a literal. -/
def variablesInFields (t : Option TypeRef) : List (String × Literal) → List VariableSite
  | [] => []
  | (k, x) :: fs =>
    let i := r.literalField? t k
    variablesIn (i.map (·.type)) (i.any r.hasDefault) x ++ variablesInFields t fs

end

/-- The variables in arguments. -/
def argumentVariables (x : ArgumentSite) : List VariableSite :=
  x.given.flatMap fun (name, l) =>
    let i := inputOf x name
    r.variablesIn (i.map (·.type)) (i.any r.hasDefault) l

/-- The variables in parts and on what holds them. -/
def variablesOf (uses : List DirectiveUse) (xs : List Site) : List VariableSite :=
  (uses.map r.useArguments ++ xs.flatMap r.siteArguments).flatMap r.argumentVariables

/-- Add the fragments that are named by some fragments, and by those that they name. -/
def reachFrom : Nat → List String → List String
  | 0, names => names
  | n + 1, names =>
    let more := names.flatMap fun name =>
      ((r.fragment? name).map fun f => spreadNames (r.fragmentSites f)).getD []
    reachFrom n (more.foldl (fun ns n => if ns.contains n then ns else ns ++ [n]) names)

/-- The fragments that an operation needs. -/
def fragmentsOf (o : Operation) : List Fragment :=
  (r.reachFrom r.fragments.length (spreadNames (r.operationSites o)).eraseDups).filterMap
    r.fragment?

/-- The variables in an operation and the fragments that it needs. -/
def operationVariables (o : Operation) : List VariableSite :=
  r.variablesOf o.directives (r.operationSites o)
    ++ (r.fragmentsOf o).flatMap fun f => r.variablesOf f.directives (r.fragmentSites f)

end Request
end SchemaForge
