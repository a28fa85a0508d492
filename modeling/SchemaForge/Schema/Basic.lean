import SchemaForge.Failure
import SchemaForge.Language.Syntax
import SchemaForge.Table

/-!
# Schemas

A schema is a table of types with the directives that may be used on them and the types
at which operations start. A type keeps the nodes that it was built from, its
definition and all extensions, and what it says is what these nodes say together. Some
scalars, directives and the types of introspection belong to every schema.
-/
namespace SchemaForge

open Language

namespace Language

/-- What a definition and an extension of one kind say together; an extension of another
kind adds nothing. -/
def TypeBody.merge : TypeBody → TypeBody → TypeBody
  | .object is fs, .object js gs => .object (is ++ js) (fs ++ gs)
  | .interface is fs, .interface js gs => .interface (is ++ js) (fs ++ gs)
  | .union ms, .union ns => .union (ms ++ ns)
  | .enum vs, .enum ws => .enum (vs ++ ws)
  | .input fs, .input gs => .input (fs ++ gs)
  | b, _ => b

/-- The fields of an object type or interface. -/
def TypeBody.fields : TypeBody → List FieldNode
  | .object _ fs => fs
  | .interface _ fs => fs
  | _ => []

/-- The fields of an input type. -/
def TypeBody.inputs : TypeBody → List InputNode
  | .input fs => fs
  | _ => []

/-- The interfaces of an object type or interface. -/
def TypeBody.interfaces : TypeBody → List String
  | .object is _ => is
  | .interface is _ => is
  | _ => []

/-- The members of a union. -/
def TypeBody.members : TypeBody → List String
  | .union ms => ms
  | _ => []

/-- The words of an enum. -/
def TypeBody.words : TypeBody → List String
  | .enum vs => vs.map (·.name)
  | _ => []

/-- Whether values of a kind can be given to arguments. -/
def TypeKind.isInput : TypeKind → Bool
  | .scalar | .enum | .input => true
  | _ => false

/-- Whether fields can return values of a kind. -/
def TypeKind.isOutput : TypeKind → Bool
  | .input => false
  | _ => true

/-- Whether selections can be made below values of a kind. -/
def TypeKind.isComposite : TypeKind → Bool
  | .object | .interface | .union => true
  | _ => false

/-- Whether an argument must be given. -/
def InputNode.isRequired (a : InputNode) : Bool := a.type.isNonNull && a.default?.isNone

@[simp] theorem TypeBody.kind_merge (a b : TypeBody) : (a.merge b).kind = a.kind := by
  cases a <;> cases b <;> rfl

theorem TypeBody.fields_merge (a b : TypeBody) (h : a.kind = b.kind) :
    (a.merge b).fields = a.fields ++ b.fields := by
  cases a <;> cases b <;> simp_all [TypeBody.merge, TypeBody.fields, TypeBody.kind]

end Language

/-- A type of a schema. -/
structure SchemaType where
  /-- Its definition. -/
  node : TypeNode
  /-- Whether the definition was written as text. -/
  written : Bool
  /-- Its extensions, in order. -/
  extensions : List TypeNode

namespace SchemaType

/-- What its definition and extensions say together. -/
def body (t : SchemaType) : TypeBody := t.extensions.foldl (fun b e => b.merge e.body) t.node.body

/-- Its kind. -/
def kind (t : SchemaType) : TypeKind := t.node.body.kind

/-- A type that was just defined. -/
def ofNode (node : TypeNode) : SchemaType := ⟨node, true, []⟩

/-- A type with another extension. -/
def extend (t : SchemaType) (node : TypeNode) : SchemaType :=
  { t with extensions := t.extensions ++ [node] }

theorem kind_body (t : SchemaType) : t.body.kind = t.kind := by
  have h : ∀ (es : List TypeNode) (b : TypeBody),
      (es.foldl (fun b e => b.merge e.body) b).kind = b.kind := by
    intro es
    induction es with
    | nil => intro b; rfl
    | cons e es ih => intro b; simp [ih]
  exact h t.extensions t.node.body

@[simp] theorem body_ofNode (node : TypeNode) : (ofNode node).body = node.body := rfl

@[simp] theorem body_extend (t : SchemaType) (node : TypeNode) :
    (t.extend node).body = t.body.merge node.body := by
  simp [body, extend]

@[simp] theorem kind_extend (t : SchemaType) (node : TypeNode) : (t.extend node).kind = t.kind := rfl

end SchemaType

/-- A schema. -/
structure Schema where
  /-- Its own types. -/
  types : Table SchemaType
  /-- The directives that it defines. -/
  directives : List DirectiveNode
  /-- The types at which operations start. -/
  roots : List (OperationKind × String)

namespace Schema

/-- The scalars of every schema. -/
def standardScalars : List String := ["Int", "Float", "String", "Boolean", "ID"]

/-- The names of introspection. -/
def introspectionTypes : List String :=
  ["__Schema", "__Directive", "__DirectiveLocation", "__Type", "__Field", "__InputValue",
    "__EnumValue", "__TypeKind"]

/-- Whether a name belongs to every schema. -/
def isStandardType (name : String) : Bool :=
  standardScalars.contains name || introspectionTypes.contains name

/-- An input of a directive of every schema. -/
def standardInput (name : String) (type : TypeRef) (default? : Option Literal) : InputNode :=
  { description := none, name, type, default?, directives := [] }

/-- A directive of every schema. -/
def standardDirective (name : String) (input : InputNode) (locations : List String) :
    DirectiveNode :=
  { description := none, name, arguments := [input], repeatable := false, locations }

/-- The reason of a deprecation that gives none. -/
def standardReason : String := "No longer supported"

/-- The directives of every schema. -/
def standardDirectives : List DirectiveNode :=
  let selections := ["FIELD", "FRAGMENT_SPREAD", "INLINE_FRAGMENT"]
  let condition := standardInput "if" (.nonNull (.named "Boolean")) none
  [standardDirective "include" condition selections, standardDirective "skip" condition selections,
    standardDirective "deprecated"
      (standardInput "reason" (.named "String") (some (.string standardReason false)))
      ["FIELD_DEFINITION", "ARGUMENT_DEFINITION", "INPUT_FIELD_DEFINITION", "ENUM_VALUE"],
    standardDirective "specifiedBy" (standardInput "url" (.nonNull (.named "String")) none)
      ["SCALAR"]]

/-- Whether a directive belongs to every schema. -/
def isStandardDirective (name : String) : Bool := standardDirectives.any (·.name == name)

variable (s : Schema)

/-- All directives: its own, and those of every schema that it does not define anew. -/
def allDirectives : List DirectiveNode :=
  s.directives ++ standardDirectives.filter fun d => s.directives.all (·.name != d.name)

/-- The directive with a name. -/
def directive? (name : String) : Option DirectiveNode := s.allDirectives.find? (·.name == name)

/-- The kind of a type. -/
def kind? (name : String) : Option TypeKind :=
  match s.types.get? name with
  | some t => some t.kind
  | none =>
    if standardScalars.contains name then some .scalar
    else if name == "__TypeKind" || name == "__DirectiveLocation" then some .enum
    else if introspectionTypes.contains name then some .object
    else none

/-- What a type says; a type of every schema says nothing here. -/
def body? (name : String) : Option TypeBody := (s.types.get? name).map SchemaType.body

/-- The fields of a type. -/
def fields (type : String) : List FieldNode := ((s.body? type).map TypeBody.fields).getD []

/-- The field of a type with a name. -/
def field? (type name : String) : Option FieldNode := (s.fields type).find? (·.name == name)

/-- The fields of an input type. -/
def inputs (type : String) : List InputNode := ((s.body? type).map TypeBody.inputs).getD []

/-- The interfaces of a type. -/
def interfaces (type : String) : List String :=
  ((s.body? type).map TypeBody.interfaces).getD []

/-- The type at which operations of a kind start. -/
def root? (k : OperationKind) : Option String := s.roots.lookup k

/-- Whether a type is of a kind with a property. -/
def kindIs (name : String) (p : TypeKind → Bool) : Bool := (s.kind? name).any p

/-- Whether a type is of a kind. -/
def isKind (name : String) (k : TypeKind) : Bool := s.kind? name == some k

/-- The object types that a value of a type can have. -/
def possibleTypes (name : String) : List String :=
  match s.types.get? name with
  | some t =>
    match t.body with
    | .object .. => [name]
    | .interface .. =>
      (s.types.filter fun o => o.2.kind == .object && o.2.body.interfaces.contains name).map Prod.fst
    | .union ms => ms
    | _ => []
  | none => []

/-- Whether a value of a type can have an object type. -/
def isPossible (type object : String) : Bool := (s.possibleTypes type).contains object

/-- Whether every value of one named type is one of another: the same, a member of a union,
or an implementation of an interface. -/
def isNamedSubtype (a b : String) : Bool :=
  a == b || ((s.body? b).map TypeBody.members).any (·.contains a)
    || (s.isKind b .interface && (s.interfaces a).contains b)

/-- Whether every value of one type is one of another. -/
def isSubtype : TypeRef → TypeRef → Bool
  | .nonNull a, .nonNull b => isSubtype a b
  | _, .nonNull _ => false
  | .nonNull a, b => isSubtype a b
  | .list a, .list b => isSubtype a b
  | .list _, .named _ => false
  | .named _, .list _ => false
  | .named a, .named b => s.isNamedSubtype a b

/-- The types that an input mentions. -/
def mentionedByInput (a : InputNode) : String := a.type.baseName

/-- The types that a body mentions. -/
def mentionedBy : TypeBody → List String
  | .object is fs | .interface is fs =>
    is ++ fs.flatMap fun f => f.type.baseName :: f.arguments.map mentionedByInput
  | .union ms => ms
  | .input fs => fs.map mentionedByInput
  | _ => []

/-- Whether a scalar of every schema is in use: two of them always are. -/
def usesScalar (name : String) : Bool :=
  name == "String" || name == "Boolean"
    || s.types.any (fun t => (mentionedBy t.2.body).contains name)
    || s.directives.any (fun d => (d.arguments.map mentionedByInput).contains name)

/-- The names of all types. -/
def typeNames : List String :=
  s.types.keys ++ standardScalars.filter s.usesScalar ++ introspectionTypes

/-- Whether a type is there. -/
def hasType (name : String) : Bool := s.typeNames.contains name

end Schema
end SchemaForge
