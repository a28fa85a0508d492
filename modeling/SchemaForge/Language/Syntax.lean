/-!
# Syntax trees of the schema language

Types, literals and the two sorts of documents. Definitions and extensions of types
share one shape, `TypeNode`, which a flag tells apart. Literals keep numbers as they
were written.
-/
namespace SchemaForge.Language

/-- A reference to a type. -/
inductive TypeRef where
  /-- A type by its name. -/
  | named (name : String)
  /-- A list of a type. -/
  | list (item : TypeRef)
  /-- A type without null. -/
  | nonNull (inner : TypeRef)
  deriving DecidableEq, Inhabited

namespace TypeRef

/-- The name at the bottom of a reference. -/
def baseName : TypeRef → String
  | named n => n
  | list t => t.baseName
  | nonNull t => t.baseName

/-- Whether null is excluded. -/
def isNonNull : TypeRef → Bool
  | nonNull _ => true
  | _ => false

/-- A reference with null allowed at the outside. -/
def nullable : TypeRef → TypeRef
  | nonNull t => t
  | t => t

/-- Whether it refers to a list, with or without null. -/
def isList (t : TypeRef) : Bool :=
  match t.nullable with
  | list _ => true
  | _ => false

/-- How many levels a reference has. -/
def depth : TypeRef → Nat
  | named _ => 1
  | list t => t.depth + 1
  | nonNull t => t.depth + 1

/-- A reference with every exclusion of null removed. -/
def loosened : TypeRef → TypeRef
  | named n => named n
  | list t => list t.loosened
  | nonNull t => t.loosened

@[simp] theorem baseName_loosened (t : TypeRef) : t.loosened.baseName = t.baseName := by
  induction t with
  | named n => rfl
  | list t ih => exact ih
  | nonNull t ih => exact ih

end TypeRef

/-- A literal. -/
inductive Literal where
  /-- The value of a variable. -/
  | var (name : String)
  /-- A whole number, as written. -/
  | int (digits : String)
  /-- Another number, as written. -/
  | float (digits : String)
  /-- A text, quoted or as a block. -/
  | string (text : String) (block : Bool)
  /-- A truth value. -/
  | bool (b : Bool)
  /-- No value. -/
  | null
  /-- A bare word. -/
  | enum (name : String)
  /-- A list. -/
  | list (items : List Literal)
  /-- An input object. -/
  | object (fields : List (String × Literal))
  deriving Inhabited

/-- Arguments by name, in order. -/
abbrev Arguments := List (String × Literal)

/-- A use of a directive. -/
structure DirectiveUse where
  /-- Its name. -/
  name : String
  /-- Its arguments. -/
  arguments : Arguments
  deriving Inhabited

/-- The text above a definition. -/
structure Description where
  /-- The text. -/
  text : String
  /-- Whether it is written as a block. -/
  block : Bool
  deriving DecidableEq

/-- An argument of a field or directive, or a field of an input type. -/
structure InputNode where
  /-- Its description. -/
  description : Option Description
  /-- Its name. -/
  name : String
  /-- Its type. -/
  type : TypeRef
  /-- Its default. -/
  default? : Option Literal
  /-- Directives on it. -/
  directives : List DirectiveUse

/-- A field of an object or interface type. -/
structure FieldNode where
  /-- Its description. -/
  description : Option Description
  /-- Its name. -/
  name : String
  /-- Its arguments. -/
  arguments : List InputNode
  /-- Its type. -/
  type : TypeRef
  /-- Directives on it. -/
  directives : List DirectiveUse

/-- A value of an enum type. -/
structure EnumNode where
  /-- Its description. -/
  description : Option Description
  /-- Its name. -/
  name : String
  /-- Directives on it. -/
  directives : List DirectiveUse

/-- The kinds of types. -/
inductive TypeKind where
  | scalar | object | interface | union | enum | input
  deriving DecidableEq, Repr

/-- What a definition of a type says, by kind. -/
inductive TypeBody where
  /-- A scalar. -/
  | scalar
  /-- An object type with its interfaces and fields. -/
  | object (interfaces : List String) (fields : List FieldNode)
  /-- An interface with its own interfaces and fields. -/
  | interface (interfaces : List String) (fields : List FieldNode)
  /-- A union of object types. -/
  | union (members : List String)
  /-- An enum. -/
  | enum (values : List EnumNode)
  /-- An input type. -/
  | input (fields : List InputNode)

/-- The kind of type that a body defines. -/
def TypeBody.kind : TypeBody → TypeKind
  | .scalar => .scalar
  | .object .. => .object
  | .interface .. => .interface
  | .union _ => .union
  | .enum _ => .enum
  | .input _ => .input

/-- A definition or an extension of a type. -/
structure TypeNode where
  /-- Its description. -/
  description : Option Description
  /-- Whether it extends a type. -/
  extends? : Bool
  /-- The name of the type. -/
  name : String
  /-- Directives on the type. -/
  directives : List DirectiveUse
  /-- What it says. -/
  body : TypeBody

/-- A definition of a directive. -/
structure DirectiveNode where
  /-- Its description. -/
  description : Option Description
  /-- Its name. -/
  name : String
  /-- Its arguments. -/
  arguments : List InputNode
  /-- Whether it may stand twice in one place. -/
  repeatable : Bool
  /-- Where it may stand. -/
  locations : List String

/-- The kinds of operations. -/
inductive OperationKind where
  | query | mutation | subscription
  deriving DecidableEq, Repr

/-- The word for a kind of operation. -/
def OperationKind.word : OperationKind → String
  | query => "query"
  | mutation => "mutation"
  | subscription => "subscription"

/-- The usual name of the type at which operations of a kind start. -/
def OperationKind.rootName : OperationKind → String
  | query => "Query"
  | mutation => "Mutation"
  | subscription => "Subscription"

/-- A definition or an extension of the schema itself. -/
structure RootsNode where
  /-- Its description. -/
  description : Option Description
  /-- Whether it extends a schema. -/
  extends? : Bool
  /-- Directives on the schema. -/
  directives : List DirectiveUse
  /-- The root types. -/
  roots : List (OperationKind × String)

/-- A part of a selection. -/
inductive Selection where
  /-- A field, perhaps under another key. -/
  | field (alias? : Option String) (name : String) (arguments : Arguments)
      (directives : List DirectiveUse) (selections : List Selection)
  /-- The selections of a named fragment. -/
  | spread (fragment : String) (directives : List DirectiveUse)
  /-- Selections under a condition on the type. -/
  | inline (condition : Option String) (directives : List DirectiveUse)
      (selections : List Selection)
  deriving Inhabited

namespace Selection

mutual

/-- How deep a selection goes. -/
def depth : Selection → Nat
  | field _ _ _ _ sub => depthAll sub + 1
  | spread .. => 1
  | inline _ _ sub => depthAll sub + 1

/-- How deep selections go. -/
def depthAll : List Selection → Nat
  | [] => 0
  | x :: xs => max (depth x) (depthAll xs)

end

end Selection

/-- A variable of an operation. -/
structure VariableNode where
  /-- Its name. -/
  name : String
  /-- Its type. -/
  type : TypeRef
  /-- Its default. -/
  default? : Option Literal
  /-- Directives on it. -/
  directives : List DirectiveUse

/-- An operation. -/
structure Operation where
  /-- Its kind. -/
  kind : OperationKind
  /-- Its name. -/
  name : Option String
  /-- Its variables. -/
  variableNodes : List VariableNode
  /-- Directives on it. -/
  directives : List DirectiveUse
  /-- What it selects. -/
  selections : List Selection

/-- A named fragment. -/
structure Fragment where
  /-- Its name. -/
  name : String
  /-- The type that it applies to. -/
  condition : String
  /-- Directives on it. -/
  directives : List DirectiveUse
  /-- What it selects. -/
  selections : List Selection

/-- A definition of a document. -/
inductive Definition where
  /-- An operation. -/
  | operation (node : Operation)
  /-- A fragment. -/
  | fragment (node : Fragment)
  /-- A schema. -/
  | roots (node : RootsNode)
  /-- A type. -/
  | type (node : TypeNode)
  /-- A directive. -/
  | directive (node : DirectiveNode)

/-- A document. -/
abbrev Document := List Definition

/-- The key under which a field answers. -/
def responseKey (alias? : Option String) (name : String) : String := alias?.getD name

end SchemaForge.Language
