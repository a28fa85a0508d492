import SchemaForge.Language.Parser
import SchemaForge.Schema.Addition

/-!
# Building schemas

A schema is built from a document, or from another schema and a document that extends
it. New types come after those that are there, and an extension stays with the type that
it extends, so nothing that was there is lost. The types of every schema are never
replaced: a definition under such a name is passed over.
-/
namespace SchemaForge

open Language

namespace Schema

/-- A schema with nothing of its own. -/
def empty : Schema := ⟨[], [], []⟩

instance : Inhabited Schema := ⟨empty⟩

/-- A type with all extensions of it among some nodes. -/
def withExtensions (extensions : List TypeNode) (named : String × SchemaType) :
    String × SchemaType :=
  (named.1, (extensions.filter (·.name == named.1)).foldl SchemaType.extend named.2)

/-- The types after an addition. -/
def typesAfter (a : Addition) : Table SchemaType :=
  let old := (a.base.map (·.types)).getD []
  let fresh := (a.definitions.filter (!isStandardType ·.name)).map fun d => (d.name, SchemaType.ofNode d)
  (old ++ fresh).map (withExtensions a.extensions)

/-- The roots by the names of types. -/
def rootsByName (types : Table SchemaType) : List (OperationKind × String) :=
  [OperationKind.query, .mutation, .subscription].filterMap fun k =>
    if types.has k.rootName then some (k, k.rootName) else none

/-- Set some roots over others. -/
def setRoots (old new : List (OperationKind × String)) : List (OperationKind × String) :=
  old.filter (fun r => (new.lookup r.1).isNone) ++ new

/-- The roots after an addition: without a base or a definition of the schema, the types
with the usual names are roots. -/
def rootsAfter (a : Addition) : List (OperationKind × String) :=
  let stated := setRoots ((a.base.map (·.roots)).getD []) (a.rootNodes.flatMap (·.roots))
  if a.base.isNone && a.rootNodes.all (·.extends?) then setRoots stated (rootsByName (typesAfter a))
  else stated

/-- The schema after an addition. -/
def after (a : Addition) : Schema :=
  ⟨typesAfter a, ((a.base.map (·.directives)).getD []) ++ a.directives, rootsAfter a⟩

/-! ### Kinds -/

variable (s : Schema)

/-- Whether the type of an input can be given. -/
def inputFits (i : InputNode) : Bool := s.kindIs i.type.baseName TypeKind.isInput

/-- Whether a field returns what can be returned and takes what can be given. -/
def fieldFits (f : FieldNode) : Bool :=
  s.kindIs f.type.baseName TypeKind.isOutput && f.arguments.all s.inputFits

/-- Whether a body mentions every type where types of its kind can stand. -/
def bodyFits : TypeBody → Bool
  | .object is fs | .interface is fs => is.all (s.isKind · .interface) && fs.all s.fieldFits
  | .union ms => ms.all (s.isKind · .object)
  | .input fs => fs.all s.inputFits
  | _ => true

/-- Whether every type stands where types of its kind can stand. -/
def kindsFit : Bool :=
  s.types.all (fun t => s.bodyFits t.2.body)
    && s.directives.all (fun d => d.arguments.all s.inputFits)

/-! ### Texts of standard directives -/

/-- Whether a literal is a text. -/
def isText : Literal → Bool
  | .string .. => true
  | _ => false

/-- Whether a literal is null. -/
def isNullLiteral : Literal → Bool
  | .null => true
  | _ => false

/-- Whether the reason of a deprecation can be read. -/
def reasonFits (uses : List DirectiveUse) : Bool :=
  match uses.find? (·.name == "deprecated") with
  | some u => ((u.arguments.lookup "reason").map fun l => isText l || isNullLiteral l).getD true
  | none => true

/-- Whether the address of a specification can be read. -/
def addressFits (uses : List DirectiveUse) : Bool :=
  match uses.find? (·.name == "specifiedBy") with
  | some u => ((u.arguments.lookup "url").map isText).getD false
  | none => true

/-- Whether the standard directives in a type node have texts for arguments. -/
def textsFit (t : TypeNode) : Bool :=
  match t.body with
  | .scalar => addressFits t.directives
  | .object _ fs | .interface _ fs =>
    fs.all fun f => reasonFits f.directives && f.arguments.all fun i => reasonFits i.directives
  | .enum vs => vs.all fun v => reasonFits v.directives
  | .input fs => fs.all fun i => reasonFits i.directives
  | .union _ => true

/-- Build the schema after an addition. -/
def ofAddition (a : Addition) : Except Failure Schema :=
  let s := after a
  if !a.fits then .error .badDefinitions
  else if !s.kindsFit then .error .badDefinitions
  else if !(a.typeNodes.all fun t => isStandardType t.name || textsFit t) then
    .error .unrepresentable
  else .ok s

/-- Build a schema from a document. -/
def ofDocument (doc : Document) : Except Failure Schema := ofAddition ⟨none, doc⟩

/-- Build a schema from a text. -/
def ofText (text : String) : Except Failure Schema := do ofDocument (← Document.ofText? text)

/-- Extend a schema by a document. -/
def extend (doc : Document) : Except Failure Schema := ofAddition ⟨some s, doc⟩

end Schema
end SchemaForge
