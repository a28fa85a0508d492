import SchemaForge.Declaration.Extensions
import SchemaForge.Declaration.Inclusion
import SchemaForge.Registry.Directives
import SchemaForge.Registry.Filters
import SchemaForge.Schema.Basic
import SchemaForge.Store.Model

/-!
# What a synthesis works on

Declarations are turned into a schema in two passes. A `Draft` is what the passes have
gathered so far: the registry of lines, the directives seen, how fields are resolved,
which models stand behind which types, and the requests for filters that wait for the
second pass. A synthesis may stop half-way and keeps what it has gathered until then.
-/
namespace SchemaForge

/-- What serves a sort of models. -/
inductive Plugin where
  /-- Describes plain classes. -/
  | classes
  /-- Describes mapped models and fetches their rows. It may have field types of its own
  and a key of its own under which a session is found. -/
  | store (types : Table String) (sessionKey : Option String)
  /-- Only the outline of a plugin. -/
  | outline

namespace Plugin

/-- The name of a plugin. -/
def name : Plugin → String
  | classes => "class"
  | store .. => "sqlalchemy"
  | outline => "base"

/-- Whether a plugin serves a model. -/
def serves (p : Plugin) (m : ModelRef) : Except Failure Bool :=
  match p, m with
  | outline, _ => .error .notProvided
  | classes, .mapped _ => .ok true
  | classes, .plain _ => .ok true
  | store .., .mapped _ => .ok true
  | _, _ => .ok false

end Plugin

/-- The first of several plugins that serves a model. -/
def findPlugin (m : ModelRef) : List Plugin → Except Failure (Option Plugin)
  | [] => .ok none
  | p :: ps =>
    match p.serves m with
    | .error e => .error e
    | .ok true => .ok (some p)
    | .ok false => findPlugin m ps

/-- The model that a declaration refers to. -/
def TypeDeclaration.model : TypeDeclaration → ModelRef
  | .plain id _ _ => .plain id
  | .mapped name => .mapped name
  | .inline _ => .other .null

/-- A model behind a type. -/
structure Exposure where
  /-- The model. -/
  model : ModelRef
  /-- The primary name of its type. -/
  key : String
  /-- What serves it. -/
  plugin : Plugin

/-- Everything that is declared. -/
structure Declarations where
  /-- Types by name. -/
  types : Table TypeDeclaration
  /-- Mapped models by name. -/
  models : Models
  /-- The policies of mapped models. -/
  policies : Table PolicyOption
  /-- The plugins, the first that serves a model counting. -/
  plugins : List Plugin
  /-- The schema to extend. -/
  base : Option Schema
  /-- Field types by column type, over the standard ones. -/
  columnTypes : Table String
  /-- The scalars that are implemented. -/
  scalars : List String

namespace Declarations

/-- Whether a type is in the base schema or an implemented scalar. -/
def hasType (d : Declarations) (name : String) : Bool :=
  d.scalars.contains name || (d.base.map (·.hasType name)).getD false

/-- The policy that stands at a model. -/
def policyAt (d : Declarations) : TypeDeclaration → Option PolicyOption
  | .plain _ _ p => p
  | .mapped name => d.policies.get? name
  | .inline _ => none

/-- The policy of a model by reference, as the types declare it. -/
def policyOf (d : Declarations) (m : ModelRef) : Option Policy :=
  match m with
  | .mapped name => (d.policies.get? name).bind PolicyOption.policy?
  | m => (d.types.findSome? fun t =>
      if t.2.model.same m then (d.policyAt t.2).bind PolicyOption.policy? else none)

/-- The name under which a mapped model is declared as a type. -/
def typeOf? (d : Declarations) (model : String) : Option String :=
  (d.types.find? fun t => match t.2 with
    | .mapped name => name == model
    | _ => false).map Prod.fst

end Declarations

/-- A request for filters that waits until all types are described. -/
inductive FilterRequest where
  /-- For the fields of a type, as they are declared. -/
  | declared (type : String) (fields : FieldMap)
  /-- For the fields of a type, as they are configured. -/
  | configured (type : String) (fields : Table FieldConfig)
  /-- For a field that follows an association to many rows of a type. -/
  | association (type field target : String)

/-- What was gathered so far. -/
structure Draft where
  /-- The registry of lines. -/
  registry : Registry := []
  /-- The directives seen. -/
  directives : DirectiveRecords := []
  /-- How fields are resolved, by type and field. -/
  configs : Table (Table FieldConfig) := []
  /-- The models behind types. -/
  models : Table Exposure := []
  /-- Extensions and policies. -/
  extensions : Extensions := {}
  /-- What is known about thunks. -/
  thunks : ThunkState := {}
  /-- Requests for filters, in order. -/
  requests : List FilterRequest := []
  /-- Warnings, in order. -/
  warnings : List String := []

/-- A synthesis that may stop half-way. -/
abbrev Synthesis := ExceptT Failure (StateM Draft)

namespace Synthesis

/-- Change the registry. -/
def edit {α : Type} (e : Edit α) : Synthesis α := ExceptT.mk fun d =>
  let (outcome, r) := (e.run).run d.registry
  (outcome, { d with registry := r })

/-- Change the registry in a way that cannot fail. -/
def change (f : Registry → Registry) : Synthesis Unit :=
  modify fun d => { d with registry := f d.registry }

/-- An outcome that changes nothing. -/
def lift {α : Type} (x : Except Failure α) : Synthesis α := ExceptT.mk fun d => (x, d)

/-- The directives of an option. -/
def resolve (o : DirectiveOption) : Synthesis (List Directive) := ExceptT.mk fun d =>
  let (outcome, s) := (o.resolve.run).run d.thunks
  (outcome, { d with thunks := s })

/-- Record a use of a directive and give its text. -/
def record (x : Directive) : Synthesis String := ExceptT.mk fun d =>
  let (outcome, rs) := d.directives.register ⟨x.name, x.arguments⟩
  (outcome, { d with directives := rs })

/-- Note a warning. -/
def warn (text : String) : Synthesis Unit :=
  modify fun d => { d with warnings := d.warnings ++ [text] }

/-- Leave a request for filters for the second pass. -/
def request (q : FilterRequest) : Synthesis Unit :=
  modify fun d => { d with requests := d.requests ++ [q] }

/-- Set how a field is resolved. -/
def configure (type field : String) (c : FieldConfig) : Synthesis Unit :=
  modify fun d => { d with configs := d.configs.update type [] fun fs => Table.put fs field c }

/-- Use the directives of an option on a type. -/
def directType (type : String) (ds : List Directive) : Synthesis Unit :=
  ds.forM fun x => do
    let use ← record x
    change (·.addTypeDirective type use)

end Synthesis
end SchemaForge
