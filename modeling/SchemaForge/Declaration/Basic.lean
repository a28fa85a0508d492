import SchemaForge.Declaration.Directives
import SchemaForge.Failure
import SchemaForge.Value.Display

/-!
# Declarations

The forms in which types and fields are declared. A policy says which fields of a type
are exposed and what goes with the type; a field configuration says what one field
returns and how it is resolved. A field may be declared by its signature alone, by a
mapping of options or by a configuration; `FieldDeclaration.normalize` brings all forms
to the last.
-/
namespace SchemaForge

/-- Something that data can be fetched from, or a class that describes a type. -/
inductive ModelRef where
  /-- A mapped model of the store. -/
  | mapped (name : String)
  /-- A plain class, by its identity. -/
  | plain (id : Nat)
  /-- Neither. -/
  | other (v : Value)

namespace ModelRef

/-- Whether two references are to one model. -/
def same : ModelRef → ModelRef → Bool
  | mapped a, mapped b => a == b
  | plain a, plain b => a == b
  | _, _ => false

end ModelRef

/-- The resolver of a field. -/
inductive ResolverOption where
  /-- A callable. -/
  | callable (r : Resolver)
  /-- Any other value, such as the word for fetching from the store. -/
  | value (v : Value)

/-- The hook of a field or type into its select statements. -/
inductive HookOption where
  /-- A callable. -/
  | callable (h : FetchHook)
  /-- Something that cannot be called. -/
  | value (v : Value)

/-- The word that asks for the resolver or the arguments of the store. -/
def defaultWord : String := "default"

/-- Whether a value is that word. -/
def isDefaultWord : Value → Bool
  | .text s => s == defaultWord
  | _ => false

/-- The configuration of a field. -/
structure FieldConfig where
  /-- Its signature. -/
  returnType : Value := .text ""
  /-- Signatures by argument, or the word for those of the store. -/
  arguments : Value := .null
  /-- How it is resolved. -/
  resolver : ResolverOption := .value .null
  /-- Directives, outermost first. -/
  directives : DirectiveOption := .none
  /-- A hook into the select statement. -/
  hook : Option HookOption := none
  /-- The model to fetch from, if not that of the return type. -/
  model : Option ModelRef := none
  /-- The association of the parent that it follows. -/
  association : Value := .null

namespace FieldConfig

/-- The callable that resolves the field. -/
def callable? (c : FieldConfig) : Option Resolver :=
  match c.resolver with
  | .callable r => some r
  | .value _ => none

/-- Whether the word for the store stands as resolver. -/
def namesStore (c : FieldConfig) : Bool :=
  match c.resolver with
  | .value v => isDefaultWord v
  | .callable _ => false

/-- Whether the field is fetched from the store. -/
def isFetched (c : FieldConfig) : Bool :=
  c.namesStore || (isDefaultWord c.arguments && c.callable?.isNone)

/-- Whether the field has the arguments of the store. -/
def hasFetchArguments (c : FieldConfig) : Bool := c.namesStore || isDefaultWord c.arguments

/-- Whether a resolver is set. -/
def hasResolver (c : FieldConfig) : Bool :=
  match c.resolver with
  | .callable _ => true
  | .value v => v.truthy

/-- Whether no resolver is given at all. -/
def lacksResolver (c : FieldConfig) : Bool :=
  match c.resolver with
  | .callable _ => false
  | .value v => v.isNull

end FieldConfig

/-- The declaration of a field. -/
inductive FieldDeclaration where
  /-- A value: a signature, null, or something of no accepted form. -/
  | value (v : Value)
  /-- A mapping of options, with their names and what they would configure. -/
  | options (shown : Value) (names : List String) (config : FieldConfig)
  /-- A configuration. -/
  | config (c : FieldConfig)

namespace FieldDeclaration

/-- The names of the options. -/
def optionNames : List String :=
  ["return_type", "args", "resolver", "directives", "find_options", "model", "association"]

/-- The configuration that a declaration stands for. -/
def normalize : FieldDeclaration → Except Failure FieldConfig
  | config c => .ok c
  | value (.text s) => .ok { returnType := .text s }
  | value .null => .ok {}
  | value v => .error (.unsupportedField v.display)
  | options shown names c =>
    match names.find? fun n => !optionNames.contains n with
    | some n => .error (.unknownFieldOption shown.display n)
    | none => .ok c

@[simp] theorem normalize_text (s : String) :
    normalize (value (.text s)) = .ok { returnType := .text s } := rfl

end FieldDeclaration

mutual

/-- The policy of a type. -/
structure Policy where
  /-- Names or patterns to keep. -/
  keep : Value
  /-- Names or patterns to drop. -/
  drop : Value
  /-- Whether to keep timestamps, or which. -/
  timestamps : Value
  /-- The kind of type. -/
  kind : Value
  /-- Directives on the type. -/
  directives : DirectiveOption
  /-- Alternate names with their policies. -/
  aliases : List (String × PolicyOption)
  /-- Fields of other types. -/
  types : List (String × FieldMap)
  /-- The hook into select statements. -/
  hook : Option HookOption

/-- What stands where a policy can stand. -/
inductive PolicyOption where
  /-- A policy. -/
  | policy (p : Policy)
  /-- Something else. -/
  | value (v : Value)

/-- What stands where the fields of a type can stand. -/
inductive FieldMap where
  /-- Fields by name, and perhaps a policy. -/
  | fields (entries : List (String × FieldEntry))
  /-- Something that is not a mapping. -/
  | value (v : Value)

/-- An entry of a mapping of fields. -/
inductive FieldEntry where
  /-- A field. -/
  | field (d : FieldDeclaration)
  /-- A policy, under the name for it. -/
  | policy (p : PolicyOption)

end

instance : Inhabited PolicyOption := ⟨.value .null⟩
instance : Inhabited FieldMap := ⟨.value .null⟩

/-- The name under which a mapping of fields holds a policy. -/
def policyKey : String := "gene_config"

/-- A policy that keeps all but timestamps. -/
def Policy.plain : Policy := ⟨.null, .null, .bool false, .null, .none, [], [], none⟩

instance : Inhabited Policy := ⟨Policy.plain⟩

/-- The policy, if it is one. -/
def PolicyOption.policy? : PolicyOption → Option Policy
  | .policy p => some p
  | .value _ => none

/-- The entry for the policy of a mapping of fields. -/
def policyIn? (entries : List (String × FieldEntry)) : Option PolicyOption :=
  match entries.lookup policyKey with
  | some (.policy p) => some p
  | some (.field (.value v)) => some (.value v)
  | _ => none

/-- The fields of a mapping, without its policy. -/
def fieldEntries (entries : List (String × FieldEntry)) : List (String × FieldDeclaration) :=
  entries.filterMap fun e =>
    match e.2 with
    | .field d => if e.1 == policyKey then none else some (e.1, d)
    | .policy _ => none

/-- The declaration of a type. -/
inductive TypeDeclaration where
  /-- A plain class with its attributes. -/
  | plain (id : Nat) (attributes : List (String × FieldDeclaration)) (policy : Option PolicyOption)
  /-- A mapped model of the store. -/
  | mapped (name : String)
  /-- A mapping of fields, or a value of another kind. -/
  | inline (fields : FieldMap)

namespace TypeDeclaration

/-- The words of an enum: a list or fixed sequence of texts. -/
def words? : FieldMap → Option (List String)
  | .value (.list xs) => xs.mapM Value.text?
  | .value (.tuple xs) => xs.mapM Value.text?
  | _ => none

/-- The words of an enum, if the declaration is one. -/
def enumWords? : TypeDeclaration → Option (List String)
  | inline m => words? m
  | _ => none

/-- The fields of an object type, if the declaration is one. -/
def objectFields? : TypeDeclaration → Option (List (String × FieldEntry))
  | inline (.fields es) => some es
  | _ => none

/-- A mapping of fields with a policy. -/
def withPolicy (entries : List (String × FieldEntry)) (p : PolicyOption) :
    List (String × FieldEntry) :=
  Table.put entries policyKey (.policy p)

/-- A policy that only sets the kind of type. -/
def kindPolicy (kind : String) : PolicyOption := .policy { Policy.plain with kind := .text kind }

/-- The declaration of an input type. -/
def inputOf (entries : List (String × FieldEntry)) : TypeDeclaration :=
  inline (.fields (withPolicy entries (kindPolicy "input")))

/-- The declaration of a union of named types. -/
def unionOf (members : List String) : TypeDeclaration :=
  let entries := members.map fun m => (m, FieldEntry.field (.value (.text "")))
  inline (.fields (withPolicy (Table.ofList entries) (kindPolicy "union")))

/-- The declaration of an enum. -/
def enumOf (words : List Value) : TypeDeclaration := inline (.value (.list words))

end TypeDeclaration
end SchemaForge
