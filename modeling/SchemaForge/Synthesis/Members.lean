import SchemaForge.Store.Returns
import SchemaForge.Synthesis.Fields

/-!
# The members of models

How a plugin describes a model under a type name. A class gives the fields that its
attributes declare, in place of what was declared for the type before; a mapped model
adds its columns, virtual fields and associations to it. Both leave out what the policy
of the name does not expose.
-/
namespace SchemaForge
namespace Synthesis

/-- Whether a field is exposed by the policy of its type. -/
def exposes (p : PolicyOption) (field : String) : Synthesis Bool := lift (p.exposes field)

/-! ### Classes -/

/-- The configuration that an attribute of a class declares, if it declares a field. -/
def attributeConfig? : FieldDeclaration → Option (FieldConfig × Bool)
  | .value (.text s) => some ({ returnType := .text s }, false)
  | .config c => some (c, c.hasResolver || c.arguments.truthy || c.directives.truthy)
  | _ => none

/-- Take in an attribute of a class. -/
def addAttribute (type : String) (p : PolicyOption) (lines : Table FieldLine)
    (named : String × FieldDeclaration) : Synthesis (Table FieldLine) := do
  let (field, d) := named
  match attributeConfig? d with
  | none => return lines
  | some (c, active) =>
    if "_".isPrefixOf field then return lines
    else if !(← exposes p field) then return lines
    else if !c.returnType.truthy then return lines
    else
      if active then configure type field c
      return Table.put lines field { type := c.signature }

/-- The attributes of a class: those declared, and a policy that is only a text. -/
def attributesOf (d : Declarations) (t : TypeDeclaration) : List (String × FieldDeclaration) :=
  let declared := match t with
    | .plain _ attributes _ => attributes
    | _ => []
  match d.policyAt t with
  | some (.value (.text s)) => declared ++ [(policyKey, .value (.text s))]
  | _ => declared

/-- Describe a class under a type name. -/
def addClass (d : Declarations) (type : String) (t : TypeDeclaration) (p : PolicyOption) :
    Synthesis Unit := do
  let lines ← (attributesOf d t).foldlM (addAttribute type p) []
  change fun r => Table.put r type { lines }

/-! ### Mapped models -/

/-- The scalars that are texts where nothing declares them. -/
def optionalScalars : List String := ["Date", "DateTime", "JSON"]

/-- A field type, or text for a scalar that nothing declares. -/
def available (d : Declarations) (type : String) : String :=
  if optionalScalars.contains type && !d.hasType type then "String" else type

/-- The field types of columns: the standard ones, with those of the declarations and of
the plugin laid over them. -/
def columnTable (d : Declarations) (own : Table String) : Table String :=
  Table.putAll (Table.putAll ColumnType.standardTypes d.columnTypes) own

/-- Whether a column only holds an association. -/
def holdsAssociation (c : Column) : Bool := c.foreign.isSome && c.type.isA "Integer"

/-- The signature of a column of a field type: a text that identifies is an identifier,
and a column without null excludes null. -/
def columnSignature (c : Column) (type : String) : String :=
  (if type == "String" && c.primary then "ID" else type) ++ (if c.nullable then "" else "!")

/-- Take in a column. -/
def addColumn (d : Declarations) (table : Table String) (type : String) (p : PolicyOption)
    (c : Column) : Synthesis Unit := do
  if (← exposes p c.key) && !holdsAssociation c then
    match ColumnType.fieldType table c.type with
    | some t => change (·.setFieldType type c.key (columnSignature c (available d t)))
    | none =>
      warn ("Column " ++ type ++ "." ++ c.key ++ " of type " ++ c.type.display
        ++ " has no GraphQL mapping, skipped")

/-- The signature of a virtual field. -/
def virtualSignature (d : Declarations) (type : String) (v : Virtual) : Except Failure String :=
  match v.returns with
  | none => .error (.untypedVirtual v.key type)
  | some t =>
    match t.fieldType? with
    | some (name, nullable) => .ok (available d name ++ (if nullable then "" else "!"))
    | none => .error (.unmappedVirtual t.counted.1.display type v.key)

/-- Take in a virtual field. -/
def addVirtual (d : Declarations) (type : String) (p : PolicyOption) (v : Virtual) :
    Synthesis Unit := do
  if ← exposes p v.key then
    let signature ← lift (virtualSignature d type v)
    change (·.setFieldType type v.key signature)

/-- How a field that follows an association to many rows is resolved. -/
def associationConfig (a : Association) (target : String) : FieldConfig :=
  { returnType := .text ("[" ++ target ++ "!]"), resolver := .value (.text defaultWord)
    model := some (.mapped a.target), association := .text a.key }

/-- Take in an association. One that leads to a model without a type is left out. -/
def addAssociation (d : Declarations) (m : Model) (type : String) (p : PolicyOption)
    (a : Association) : Synthesis Unit := do
  if ← exposes p a.key then
    match d.typeOf? a.target with
    | none => pure ()
    | some target =>
      if d.models.isMany m a then
        let signature := "[" ++ target ++ "!]"
        change (·.setFieldType type a.key signature)
        change (·.updateField type a.key (Registry.addFetchArguments · type a.key true))
        configure type a.key (associationConfig a target)
      else change (·.setFieldType type a.key target)

/-- The filters that the associations of a model need. -/
def associationRequests (d : Declarations) (m : Model) (type : String) (p : PolicyOption) :
    Synthesis (List FilterRequest) :=
  m.associations.filterMapM fun a => do
    if (← exposes p a.key) && d.models.isMany m a then
      return (d.typeOf? a.target).map fun target => .association type a.key target
    else return none

/-- Describe a mapped model under a type name. -/
def addModel (d : Declarations) (own : Table String) (type : String) (m : Model)
    (p : PolicyOption) : Synthesis (List FilterRequest) := do
  change (·.ensureType type)
  m.columns.forM (addColumn d (columnTable d own) type p)
  m.virtuals.forM (addVirtual d type p)
  m.associations.forM (addAssociation d m type p)
  associationRequests d m type p

/-- Describe a model under a type name, as a plugin does it. -/
def addMembers (d : Declarations) (plugin : Plugin) (type : String) (t : TypeDeclaration)
    (p : PolicyOption) : Synthesis (List FilterRequest) := do
  match plugin, t with
  | .classes, t => addClass d type t p; return []
  | .store own _, .mapped name => addModel d own type ((d.models.get? name).getD default) p
  | .store .., _ => throw .noMember
  | .outline, _ => throw .notProvided

end Synthesis
end SchemaForge
