import SchemaForge.Schema.Walk
import SchemaForge.Synthesis.Run

/-!
# How fields are resolved

The walk over a schema gives every field that it visits a handler: what yields the
value, and the directives around it. The value comes from the resolver that was
declared, from the store, from a resolver that was there before, or else from the parent
value. The directives of the primary type come first, then those of the returned type,
then those of the field itself. A field that needs none of this has no handler.
-/
namespace SchemaForge

/-- How rows are fetched for a field. -/
structure Fetch where
  /-- The mapped model. -/
  model : String
  /-- The key under which the plugin looks for a session, if it has its own. -/
  sessionKey : Option String
  /-- The configuration of the field. -/
  config : FieldConfig
  /-- The hook of the model. -/
  hook : Option HookOption

/-- What yields the value of a field. -/
inductive Yield where
  /-- The parent value. -/
  | member
  /-- A resolver. -/
  | resolver (r : Resolver)
  /-- The store. -/
  | fetch (f : Fetch)

/-- How a field is resolved. -/
structure Handler where
  /-- What yields its value. -/
  yield : Yield := .member
  /-- The directives around it, outermost first. -/
  directives : List Directive := []

/-- A handler that takes up what is stated of the value, and directives around it. A stated
value takes the place of all that was there; else the directives go around it. -/
def Handler.wrapped (before : Handler) (stated : Option Yield) (directives : List Directive) :
    Handler :=
  match stated with
  | some y => { yield := y, directives }
  | none => { before with directives := directives ++ before.directives }

/-- The handlers of fields, by type and field. -/
abbrev Handlers := Table (Table Handler)

namespace Handlers

/-- The handler of a field, if it has one. -/
def find? (hs : Handlers) (type field : String) : Option Handler :=
  (hs.get? type).bind fun fs => Table.get? fs field

/-- Set the handler of a field. -/
def set (hs : Handlers) (type field : String) (h : Handler) : Handlers :=
  hs.update type [] fun fs => Table.put fs field h

end Handlers

namespace Wiring

/-- What the handlers are built from. -/
structure Setting where
  /-- Everything that is declared. -/
  declarations : Declarations
  /-- How fields are configured. -/
  configs : Table (Table FieldConfig)
  /-- The models behind types. -/
  models : Table Exposure
  /-- The policies of types and what alternate names stand for. -/
  extensions : Extensions

/-- A change of what is known about thunks that may fail. -/
abbrev Wire := ExceptT Failure (StateM ThunkState)

/-- An outcome that evaluates nothing. -/
def lift {α : Type} (x : Except Failure α) : Wire α := ExceptT.mk (pure x)

variable (s : Setting)

/-- The configuration of a visited field. -/
def configOf (v : Visit) : Option FieldConfig :=
  (s.configs.get? v.parent).bind fun fs => Table.get? fs v.field

/-- The model that a field is fetched from: the one that it names, or the one behind the
type that it returns. -/
def exposureOf (v : Visit) (c : FieldConfig) : Except Failure Exposure := do
  let missing : Except Failure Exposure := .error (.noModel v.parent v.field v.returned)
  match c.model with
  | some m =>
    match s.models.find? fun e => e.2.model.same m with
    | some (_, e) => return e
    | none =>
      match ← findPlugin m s.declarations.plugins with
      | some plugin => return ⟨m, v.returned, plugin⟩
      | none => missing
  | none =>
    match s.models.get? v.returned with
    | some e => return e
    | none => missing

/-- How the rows of a field are fetched. -/
def fetchOf (v : Visit) (c : FieldConfig) : Except Failure Fetch := do
  let e ← exposureOf s v c
  match e.plugin, e.model with
  | .store _ sessionKey, .mapped name =>
    let hook := (s.declarations.policyOf e.model).bind (·.hook)
    return { model := name, sessionKey, config := c, hook }
  | plugin, _ => .error (.cannotServe plugin.name v.parent v.field)

/-- What the configuration of a field says about its value, if it says anything. -/
def yieldOf (v : Visit) (c : FieldConfig) : Except Failure (Option Yield) :=
  match c.callable? with
  | some r => .ok (some (.resolver r))
  | none => if c.isFetched then (fetchOf s v c).map fun f => some (.fetch f) else .ok none

/-- The directives of the policy of a type, if there is one. -/
def typeDirectives (type : String) : Wire (List Directive) :=
  match s.extensions.policy? type with
  | none | some (.value .null) => return []
  | some (.policy p) => p.directives.resolve
  | some (.value _) => throw .noMember

/-- The directives around a field that returns a type. -/
def directivesOf (type : String) (c : Option FieldConfig) : Wire (List Directive) := do
  let primary ← match s.extensions.primary? type with
    | some name => typeDirectives s name
    | none => pure []
  let own ← typeDirectives s type
  let field ← match c with
    | some c => c.directives.resolve
    | none => pure []
  return primary ++ own ++ field

/-- Give a visited field its handler. -/
def wire (hs : Handlers) (v : Visit) : Wire Handlers := do
  let c := configOf s v
  let stated ← match c with
    | some c => lift (yieldOf s v c)
    | none => pure none
  let directives ← directivesOf s v.returned c
  if stated.isNone && directives.isEmpty then return hs
  else
    let before := (hs.find? v.parent v.field).getD {}
    return hs.set v.parent v.field (before.wrapped stated directives)

/-- Give every visited field its handler, over those that are there before. -/
def wireAll (hs : Handlers) (visits : List Visit) : Wire Handlers := visits.foldlM (wire s) hs

end Wiring
end SchemaForge
