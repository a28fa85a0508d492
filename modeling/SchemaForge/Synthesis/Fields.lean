import SchemaForge.Synthesis.Basic

/-!
# Declared fields

A declaration of fields adds lines to a type of the registry, whatever is there
already: the return type of a line is replaced, and arguments and directives are added.
What is needed to resolve a field is kept beside the registry. A declaration with
directives alone leaves the field as it was resolved so far and adds them at the end.
-/
namespace SchemaForge

/-- The signature of a field, empty if none is given. -/
def FieldConfig.signature (c : FieldConfig) : String :=
  if c.returnType.truthy then c.returnType.plain else ""

/-- Whether a field needs anything beyond its line: something to resolve it, or
directives. -/
def FieldConfig.isActive (c : FieldConfig) : Bool :=
  c.callable?.isSome || c.isFetched || c.directives.truthy

namespace Synthesis

open Registry

/-- Add the arguments of a field to its line: those of the store, or those declared. -/
def addInputs (type field : String) (c : FieldConfig) : Synthesis Unit := do
  if c.hasFetchArguments then
    let line := ((← get).registry.line? type field).getD {}
    if line.type == "" then throw (.noReturnType type field)
    let isList ← lift (Signature.isList line.type)
    change (·.updateField type field (addFetchArguments · type field isList))
  else
    match c.arguments with
    | .record fs => fs.forM fun (name, signature) =>
        match signature with
        | .text s => change (·.addArgument type field name s)
        | _ => pure ()
    | _ => pure ()

/-- Add the arguments and directives of a field to its line. -/
def describe (type field : String) (c : FieldConfig) : Synthesis Unit := do
  change (·.ensureField type field)
  addInputs type field c
  for x in ← resolve c.directives do
    let use ← record x
    change (·.addFieldDirective type field use)

/-- How a field is resolved after another declaration of it. -/
def merged (known : Option FieldConfig) (owner : Option ModelRef) (c : FieldConfig) :
    Synthesis FieldConfig := do
  if owner.isSome && c.model.isNone && c.isFetched then return { c with model := owner }
  else match known with
    | none => return c
    | some old =>
      if c.lacksResolver && !c.isFetched then
        let before ← resolve old.directives
        let more ← resolve c.directives
        return { old with directives := .list ((before ++ more).map .directive) }
      else return c

/-- Note how a field is resolved. -/
def noteConfig (type field : String) (owner : Option ModelRef) (c : FieldConfig) :
    Synthesis Unit := do
  if c.isActive then
    let known := ((← get).configs.get? type).bind fun fs => Table.get? fs field
    configure type field (← merged known owner c)

/-- Declare a field of a type. The members of a union are names alone. -/
def declareField (type : String) (owner : Option ModelRef) (field : String)
    (d : FieldDeclaration) : Synthesis Unit := do
  let kind := ((Table.get? (← get).registry type).map (·.kind)).getD .object
  if kind == .union then change (·.ensureField type field)
  else
    let c ← lift d.normalize
    change (·.ensureField type field)
    if c.returnType.truthy then change (·.setFieldType type field c.signature)
    describe type field c
    noteConfig type field owner c

/-- Declare what a policy within a mapping of fields says about the type. -/
def declarePolicy (type : String) (p : Policy) : Synthesis Unit := do
  if p.kind.truthy then
    let r ← lift ((← get).registry.create p.kind.plain type)
    change fun _ => r
  modify fun d => { d with extensions := d.extensions.setPolicy type (.policy p) none }
  directType type (← resolve p.directives)

/-- Declare the words of an enum. -/
def declareWords (type : String) (words : List String) : Synthesis Unit := do
  change (·.setKind type .enum)
  words.forM fun w => change (·.ensureField type w)

/-- Declare a type: the words of an enum, or fields with or without a policy. -/
def declare (type : String) (m : FieldMap) (owner : Option ModelRef) : Synthesis Unit := do
  change (·.ensureType type)
  match TypeDeclaration.words? m, m with
  | some words, _ => declareWords type words
  | none, .value _ => throw .noMember
  | none, .fields entries =>
    match (policyIn? entries).bind PolicyOption.policy? with
    | some p => declarePolicy type p
    | none => pure ()
    (fieldEntries entries).forM fun (field, d) => declareField type owner field d

/-- Write the filters of a field that has the arguments of the store. -/
def filterField (type field : String) (c : FieldConfig) : Synthesis Unit := do
  if c.hasFetchArguments then
    let signature ← if c.returnType.truthy then pure c.signature
      else match (← get).registry.line? type field with
        | some line => pure line.type
        | none => throw .noKey
    let returned ← lift (Signature.baseName signature)
    let isList ← lift (Signature.isList signature)
    edit (addFilters type field returned isList)

/-- Write the filters that a request asks for. -/
def fulfil : FilterRequest → Synthesis Unit
  | .declared type (.fields entries) =>
    (fieldEntries entries).forM fun (field, d) => do filterField type field (← lift d.normalize)
  | .declared _ (.value _) => throw .noMember
  | .configured type fields => fields.forM fun (field, c) => filterField type field c
  | .association type field target => edit (addFilters type field target true)

end Synthesis
end SchemaForge
