import SchemaForge.Synthesis.Members

/-!
# The two passes

The first pass describes every declared type in order, a model under its own name and
under its alternate names, and then the extensions. The second pass writes the filters
that were asked for. Scalars that are implemented and not in the base schema come
before everything else.
-/
namespace SchemaForge
namespace Synthesis

/-- The directives of what stands where a policy can stand. -/
def policyDirectives : PolicyOption → Synthesis (List Directive)
  | .policy p => resolve p.directives
  | .value .null => return []
  | .value _ => throw .noMember

/-- Describe a model under a name. An alternate name also has the directives of the
primary one, before its own. -/
def populate (d : Declarations) (plugin : Plugin) (type : String) (t : TypeDeclaration)
    (p : PolicyOption) (primary : Option String) (first : PolicyOption) : Synthesis Unit := do
  modify fun s => { s with
    extensions := s.extensions.setPolicy type p primary
    configs := s.configs.ensure type [] }
  let requests ← addMembers d plugin type t p
  requests.forM request
  let configs := ((← get).configs.get? type).getD []
  configs.forM fun (field, c) => describe type field c
  if configs.any (·.2.hasFetchArguments) then request (.configured type configs)
  change (·.ensureType type)
  let before ← policyDirectives first
  let own ← policyDirectives p
  directType type (before ++ own)

/-- Declare the fields of other types that a policy brings along. -/
def addPolicyTypes (t : TypeDeclaration) : PolicyOption → Synthesis Unit
  | .policy p => p.types.forM fun (type, m) => do
      declare type m (some t.model)
      request (.declared type m)
  | .value .null => pure ()
  | .value _ => throw .noMember

/-- Note the model behind a type. -/
def expose (type key : String) (t : TypeDeclaration) (plugin : Plugin) : Synthesis Unit :=
  modify fun s => { s with models := s.models.put type ⟨t.model, key, plugin⟩ }

/-- Describe a model under its own name and all alternate ones. -/
def addAllNames (d : Declarations) (plugin : Plugin) (key : String) (t : TypeDeclaration) :
    Synthesis Unit := do
  let policy := ((d.policyAt t).bind PolicyOption.policy?)
  let own := (policy.map PolicyOption.policy).getD (.value .null)
  expose key key t plugin
  populate d plugin key t own none (.value .null)
  addPolicyTypes t own
  ((policy.map (·.aliases)).getD []).forM fun (name, p) => do
    expose name key t plugin
    populate d plugin name t p (some key) own
    addPolicyTypes t p

/-- A declaration as a message shows it; a class without a name of its own has that of
its type. -/
def shown (name : String) : TypeDeclaration → String
  | .inline (.value v) => v.display
  | .mapped model => "<class " ++ Text.quote ("models." ++ model) ++ ">"
  | _ => "<class " ++ Text.quote ("models." ++ name) ++ ">"

/-- Describe a declared type. -/
def addType (d : Declarations) (named : String × TypeDeclaration) : Synthesis Unit := do
  let (name, t) := named
  match ← lift (findPlugin t.model d.plugins) with
  | some plugin => addAllNames d plugin name t
  | none =>
    match t with
    | .inline m =>
      if t.enumWords?.isSome then declare name m none
      else if t.objectFields?.isSome then
        declare name m none
        request (.declared name m)
      else warn ("No plugin matches type " ++ name ++ " (" ++ shown name t ++ "), skipped")
    | t => warn ("No plugin matches type " ++ name ++ " (" ++ shown name t ++ "), skipped")

/-- Start with the scalars that are implemented and not there yet. -/
def addScalars (d : Declarations) : Synthesis Unit :=
  d.scalars.forM fun name => do
    let known := Schema.standardScalars.contains name
      || (d.base.map (·.hasType name)).getD false
    if !known then change (·.setKind name .scalar)

/-- Declare the extensions and write their filters. -/
def addExtensions : Synthesis Unit := do
  let extended := (← get).extensions.fields
  extended.forM fun (type, entries) => declare type (.fields entries) none
  extended.forM fun (type, entries) => fulfil (.declared type (.fields entries))

/-- Both passes. -/
def synthesize (d : Declarations) : Synthesis Unit := do
  addScalars d
  d.types.forM (addType d)
  addExtensions
  for q in (← get).requests do fulfil q

end Synthesis
end SchemaForge
