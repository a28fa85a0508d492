import SchemaForge.Registry.Printer
import SchemaForge.Schema.Leaf
import SchemaForge.Schema.Printer
import SchemaForge.Wiring

/-!
# Generating a schema

`generate` goes from declarations to a schema that can answer queries: it reads the base
schema, runs both passes of the synthesis, writes the registry as text, builds the
schema from the text or extends the base by it, sets the given resolvers, and gives
every field its handler. The types named for the query root and the mutation root are
the roots of the result, whatever the base says.
-/
namespace SchemaForge

open Language

/-- The schema to start from. -/
inductive BaseOption where
  /-- No schema. -/
  | absent
  /-- A schema as text. -/
  | text (s : String)
  /-- A schema, with handlers for its fields. -/
  | given (schema : Schema) (handlers : Handlers)
  /-- Something that is no schema. -/
  | other (v : Value)

namespace BaseOption

/-- The schema, if there is one. -/
def schema? : BaseOption → Except Failure (Option Schema)
  | absent => .ok none
  | text s => (Schema.ofText s).map some
  | given s _ => .ok (some s)
  | other v => .error (.unsupportedBase v.display)

/-- The handlers that come with the schema. -/
def handlers : BaseOption → Handlers
  | given _ hs => hs
  | _ => []

end BaseOption

/-- What is given for a type apart from its declaration. -/
inductive Implementation where
  /-- How the values of a scalar travel. -/
  | leaf (l : Leaf)
  /-- Resolvers by field. -/
  | resolvers (fields : Table Resolver)

/-- What to generate from. -/
structure Blueprint where
  /-- The schema to start from. -/
  base : BaseOption
  /-- Types by name. -/
  types : Table TypeDeclaration
  /-- Mapped models by name. -/
  models : Models
  /-- The policies of mapped models. -/
  policies : Table PolicyOption
  /-- The plugins. -/
  plugins : List Plugin
  /-- Field types by column type. -/
  columnTypes : Table String
  /-- What is given for types. -/
  implementations : Table Implementation

namespace Blueprint

/-- The implementations of scalars. -/
def leaves (b : Blueprint) : Implementations :=
  b.implementations.filterMap fun
    | (name, .leaf l) => some (name, l)
    | _ => none

/-- Everything that is declared, over a base schema. -/
def declarations (b : Blueprint) (base : Option Schema) : Declarations :=
  { types := b.types, models := b.models, policies := b.policies, plugins := b.plugins, base
    columnTypes := b.columnTypes, scalars := Table.keys b.leaves }

end Blueprint

/-- A schema that can answer queries. -/
structure Generated where
  /-- The schema. -/
  schema : Schema
  /-- The text of all that was declared. -/
  text : String
  /-- The handlers of its fields. -/
  handlers : Handlers
  /-- The implementations of its scalars. -/
  leaves : Implementations

namespace Generate

/-- The names of the roots. -/
def rootNames : List String := [OperationKind.query.rootName, OperationKind.mutation.rootName]

/-- A root must be an object type, in the registry and in the base schema. -/
def checkRoot (r : Registry) (base : Option Schema) (name : String) : Except Failure Unit :=
  let declared := match Table.get? r name with
    | some entry => entry.lines.isEmpty || entry.kind == .object
    | none => true
  let known := match base.bind (·.kind? name) with
    | some k => k == .object
    | none => true
  if declared && known then .ok () else .error (.rootNotObject name)

/-- Check both roots before a schema is built. -/
def checkRoots (r : Registry) (base : Option Schema) : Except Failure Unit :=
  rootNames.forM (checkRoot r base)

/-- Build a schema from a text, over a base if there is one. -/
def build (base : Option Schema) (text : String) : Except Failure Schema :=
  if text == "" then .ok (base.getD Schema.empty)
  else match base with
    | none => Schema.ofText text
    | some s => do s.extend (← Document.ofText? text)

/-- The roots of the result: the types with the usual names, which must be object types. -/
def rooted (s : Schema) : Except Failure Schema := do
  match s.kind? OperationKind.query.rootName with
  | none => throw .noQueryRoot
  | some _ => pure ()
  for name in rootNames do
    if (s.kind? name).any (· != .object) then throw (.rootNotObject name)
  let usual := [OperationKind.query, .mutation].filterMap fun k =>
    if s.types.has k.rootName then some (k, k.rootName) else none
  let other := s.roots.filter (·.1 == .subscription)
  return { s with roots := usual ++ other }

/-- Whether a type has a field or an input field with a name. -/
def hasField (s : Schema) (type field : String) : Bool :=
  (s.field? type field).isSome || (s.inputs type).any (·.name == field)

/-- Set what is given for a type. -/
def implement (s : Schema) (hs : Handlers) (named : String × Implementation) :
    Except Failure Handlers :=
  let (type, given) := named
  match given with
  | .leaf _ =>
    if s.hasType type && s.isKind type .scalar then .ok hs else .error (.noScalar type)
  | .resolvers fields =>
    fields.foldlM (fun hs (field, r) =>
      if hasField s type field then .ok (hs.set type field { yield := .resolver r })
      else .error (.noField field type)) hs

/-- Give every field of a schema its handler. -/
def wire (b : Blueprint) (s : Schema) : Synthesis Handlers := ExceptT.mk fun d =>
  let setting : Wiring.Setting :=
    { declarations := b.declarations none, configs := d.configs, models := d.models
      extensions := d.extensions }
  match b.implementations.foldlM (implement s) b.base.handlers with
  | .error e => (.error e, d)
  | .ok hs =>
    let (outcome, thunks) := ((Wiring.wireAll setting hs s.walk).run).run d.thunks
    (outcome, { d with thunks })

end Generate

/-- Generate a schema. -/
def generate (b : Blueprint) : Synthesis Generated := do
  let base ← Synthesis.lift b.base.schema?
  Synthesis.synthesize (b.declarations base)
  let d ← get
  let text ← Synthesis.lift <| d.registry.text d.directives
    ((base.map (·.typeNames)).getD []) ((base.map fun s => s.allDirectives.map (·.name)).getD [])
  Synthesis.lift (Generate.checkRoots d.registry base)
  let schema ← Synthesis.lift (Generate.build base text >>= Generate.rooted)
  let handlers ← Generate.wire b schema
  return { schema, text, handlers, leaves := b.leaves }

end SchemaForge
