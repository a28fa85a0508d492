import SchemaForge.Failure
import SchemaForge.Language.Syntax
import SchemaForge.Language.Token

/-!
# Reading the schema language

Readers of tokens, one for each part of the grammar. A part that can hold itself takes
fuel; the number of tokens is always enough, since each level takes at least one.
`TypeRef.ofText?`, `Literal.ofText?` and `Document.ofText?` read whole texts.
-/
namespace SchemaForge.Language

/-- A reader of tokens. -/
abbrev Parser := StateT (List Token) Option

namespace Parser

variable {α : Type}

/-- The next token, which stays. -/
def peek : Parser (Option Token) := do return (← get).head?

/-- Take the next token. -/
def next : Parser Token := do
  match ← get with
  | t :: ts => set ts; return t
  | [] => failure

/-- Whether a mark stands next. -/
def at? (m : Mark) : Parser Bool := do return (← peek) == some (.mark m)

/-- Take a mark. -/
def expect (m : Mark) : Parser Unit := do
  if (← next) == .mark m then return () else failure

/-- Take a mark if it stands next. -/
def accept (m : Mark) : Parser Bool := do
  if ← at? m then
    discard next
    return true
  else return false

/-- Take any name. -/
def name : Parser String := do
  match ← next with
  | .name s => return s
  | _ => failure

/-- Take a given word. -/
def word (w : String) : Parser Unit := do
  if (← next) == .name w then return () else failure

/-- Take a given word if it stands next. -/
def acceptWord (w : String) : Parser Bool := do
  if (← peek) == some (.name w) then
    discard next
    return true
  else return false

/-- Items up to a closing mark. -/
def upTo (p : Parser α) (close : Mark) : Nat → Parser (List α)
  | 0 => failure
  | n + 1 => do
    if ← accept close then return []
    else
      let x ← p
      let xs ← upTo p close n
      return x :: xs

/-- The number of tokens that are left, and one more. -/
def fuel : Parser Nat := do return (← get).length + 1

/-- Any number of items between two marks. -/
def any (opening : Mark) (p : Parser α) (close : Mark) : Parser (List α) := do
  expect opening
  upTo p close (← fuel)

/-- At least one item between two marks. -/
def many (opening : Mark) (p : Parser α) (close : Mark) : Parser (List α) := do
  expect opening
  let x ← p
  let xs ← upTo p close (← fuel)
  return x :: xs

/-- At least one item between two marks, or nothing if the first mark is missing. -/
def optionalMany (opening : Mark) (p : Parser α) (close : Mark) : Parser (List α) := do
  if ← at? opening then many opening p close else return []

/-- Further items, each after a mark. -/
def following (mark : Mark) (p : Parser α) : Nat → Parser (List α)
  | 0 => failure
  | n + 1 => do
    if ← accept mark then
      let x ← p
      let xs ← following mark p n
      return x :: xs
    else return []

/-- At least one item, with a mark between two of them and perhaps before the first. -/
def separated (mark : Mark) (p : Parser α) : Parser (List α) := do
  discard (accept mark)
  let x ← p
  let xs ← following mark p (← fuel)
  return x :: xs

/-- A reference to a type. -/
def typeRef : Nat → Parser TypeRef
  | 0 => failure
  | n + 1 => do
    let inner ← if ← accept .bracketL then do
        let t ← typeRef n
        expect .bracketR
        pure (TypeRef.list t)
      else TypeRef.named <$> name
    if ← accept .bang then return .nonNull inner else return inner

/-- A literal; a constant one mentions no variables. -/
def literal (const : Bool) : Nat → Parser Literal
  | 0 => failure
  | n + 1 => do
    match ← next with
    | .mark .bracketL => Literal.list <$> upTo (literal const n) .bracketR (← fuel)
    | .mark .braceL =>
      let field : Parser (String × Literal) := do
        let key ← name
        expect .colon
        return (key, ← literal const n)
      Literal.object <$> upTo field .braceR (← fuel)
    | .mark .dollar => if const then failure else Literal.var <$> name
    | .int s => return .int s
    | .float s => return .float s
    | .string s => return .string s false
    | .block s => return .string s true
    | .name s =>
      if s == "true" then return .bool true
      else if s == "false" then return .bool false
      else if s == "null" then return .null
      else return .enum s
    | _ => failure

/-- A reference to a type, with fuel for all tokens. -/
def type : Parser TypeRef := do typeRef (← fuel)

/-- A literal, with fuel for all tokens. -/
def value (const : Bool) : Parser Literal := do literal const (← fuel)

/-- One argument. -/
def argument (const : Bool) : Parser (String × Literal) := do
  let key ← name
  expect .colon
  return (key, ← value const)

/-- Arguments between parentheses, if there are any. -/
def arguments (const : Bool) : Parser Arguments := optionalMany .parenL (argument const) .parenR

/-- Uses of directives. -/
def directives (const : Bool) : Parser (List DirectiveUse) := do
  following .at
    (do
      let key ← name
      return ⟨key, ← arguments const⟩)
    (← fuel)

/-- A description, if one stands next. -/
def description : Parser (Option Description) := do
  match ← peek with
  | some (.string s) => discard next; return some ⟨s, false⟩
  | some (.block s) => discard next; return some ⟨s, true⟩
  | _ => return none

/-- A default, if one stands next. -/
def defaultValue : Parser (Option Literal) := do
  if ← accept .equals then some <$> value true else return none

/-- An argument of a definition, or a field of an input type. -/
def inputNode : Parser InputNode := do
  let description ← description
  let name ← name
  expect .colon
  let type ← type
  let default? ← defaultValue
  return { description, name, type, default?, directives := ← directives true }

/-- A field of an object or interface type. -/
def fieldNode : Parser FieldNode := do
  let description ← description
  let name ← name
  let arguments ← optionalMany .parenL inputNode .parenR
  expect .colon
  let type ← type
  return { description, name, arguments, type, directives := ← directives true }

/-- The words that cannot name an enum value. -/
def isReserved (s : String) : Bool := s == "true" || s == "false" || s == "null"

/-- A value of an enum type. -/
def enumNode : Parser EnumNode := do
  let description ← description
  let name ← name
  if isReserved name then failure
  return { description, name, directives := ← directives true }

/-- The interfaces of a type. -/
def interfaces : Parser (List String) := do
  if ← acceptWord "implements" then separated .amp name else return []

/-- Fields between braces, if there are any. -/
def fields : Parser (List FieldNode) := optionalMany .braceL fieldNode .braceR

/-- A kind of operation. -/
def operationKind : Parser OperationKind := do
  match ← name with
  | "query" => return .query
  | "mutation" => return .mutation
  | "subscription" => return .subscription
  | _ => failure

/-- One root of a schema. -/
def root : Parser (OperationKind × String) := do
  let kind ← operationKind
  expect .colon
  return (kind, ← name)

/-- The body of a type with fields: interfaces, directives and fields. -/
def fieldedBody (make : List String → List FieldNode → TypeBody) :
    Parser (List DirectiveUse × TypeBody) := do
  let parents ← interfaces
  let uses ← directives true
  return (uses, make parents (← fields))

/-- The directives and the body of a type after its name. -/
def typeBody : TypeKind → Parser (List DirectiveUse × TypeBody)
  | .scalar => do return (← directives true, .scalar)
  | .object => fieldedBody .object
  | .interface => fieldedBody .interface
  | .union => do
    let uses ← directives true
    let members ← if ← accept .equals then separated .pipe name else pure []
    return (uses, .union members)
  | .enum => do
    let uses ← directives true
    return (uses, .enum (← optionalMany .braceL enumNode .braceR))
  | .input => do
    let uses ← directives true
    return (uses, .input (← optionalMany .braceL inputNode .braceR))

/-- The kind of type that a word introduces. -/
def kindOf? : String → Option TypeKind
  | "scalar" => some .scalar
  | "type" => some .object
  | "interface" => some .interface
  | "union" => some .union
  | "enum" => some .enum
  | "input" => some .input
  | _ => none

/-- Whether an extension says anything. -/
def hasContent (uses : List DirectiveUse) : TypeBody → Bool
  | .scalar => !uses.isEmpty
  | .object is fs => !uses.isEmpty || !is.isEmpty || !fs.isEmpty
  | .interface is fs => !uses.isEmpty || !is.isEmpty || !fs.isEmpty
  | .union ms => !uses.isEmpty || !ms.isEmpty
  | .enum vs => !uses.isEmpty || !vs.isEmpty
  | .input fs => !uses.isEmpty || !fs.isEmpty

/-- A type after the word for its kind. -/
def typeNode (description : Option Description) (extends? : Bool) (kind : TypeKind) :
    Parser TypeNode := do
  let name ← name
  let (uses, body) ← typeBody kind
  if extends? && !hasContent uses body then failure
  return { description, extends?, name, directives := uses, body }

/-- The places where a directive can stand. -/
def directiveLocations : List String :=
  ["QUERY", "MUTATION", "SUBSCRIPTION", "FIELD", "FRAGMENT_DEFINITION", "FRAGMENT_SPREAD",
    "INLINE_FRAGMENT", "VARIABLE_DEFINITION", "SCHEMA", "SCALAR", "OBJECT", "FIELD_DEFINITION",
    "ARGUMENT_DEFINITION", "INTERFACE", "UNION", "ENUM", "ENUM_VALUE", "INPUT_OBJECT",
    "INPUT_FIELD_DEFINITION"]

/-- A place where a directive can stand. -/
def location : Parser String := do
  let place ← name
  if directiveLocations.contains place then return place else failure

/-- A directive after its word. -/
def directiveNode (description : Option Description) : Parser DirectiveNode := do
  expect .at
  let name ← name
  let arguments ← optionalMany .parenL inputNode .parenR
  let repeatable ← acceptWord "repeatable"
  word "on"
  return { description, name, arguments, repeatable, locations := ← separated .pipe location }

/-- The name of a fragment. -/
def fragmentName : Parser String := do
  let s ← name
  if s == "on" then failure else return s

/-- A part of a selection. -/
def selection : Nat → Parser Selection
  | 0 => failure
  | n + 1 => do
    let inner : Parser (List Selection) := many .braceL (selection n) .braceR
    if ← accept .spread then
      let conditional ← acceptWord "on"
      match conditional, ← peek with
      | false, some (.name _) =>
        let fragment ← fragmentName
        return .spread fragment (← directives false)
      | _, _ =>
        let condition ← if conditional then some <$> name else pure none
        let uses ← directives false
        return .inline condition uses (← inner)
    else
      let first ← name
      let second ← if ← accept .colon then some <$> name else pure none
      let args ← arguments false
      let uses ← directives false
      let sub ← if ← at? .braceL then inner else pure []
      match second with
      | some field => return .field (some first) field args uses sub
      | none => return .field none first args uses sub

/-- Selections between braces. -/
def selections : Parser (List Selection) := do
  many .braceL (selection (← fuel)) .braceR

/-- A variable of an operation. -/
def variableNode : Parser VariableNode := do
  expect .dollar
  let name ← name
  expect .colon
  let type ← type
  let default? ← defaultValue
  return { name, type, default?, directives := ← directives true }

/-- An operation after the word for its kind. -/
def operation (kind : OperationKind) : Parser Operation := do
  let name ← match ← peek with
    | some (.name s) => discard next; pure (some s)
    | _ => pure none
  let variableNodes ← optionalMany .parenL variableNode .parenR
  let directives ← directives false
  return { kind, name, variableNodes, directives, selections := ← selections }

/-- A fragment after its word. -/
def fragment : Parser Fragment := do
  let name ← fragmentName
  word "on"
  let condition ← Parser.name
  let directives ← directives false
  return { name, condition, directives, selections := ← selections }

/-- An extension after its word. -/
def extended : Parser Definition := do
  let w ← name
  if w == "schema" then
    let uses ← directives true
    let roots ← optionalMany .braceL root .braceR
    if uses.isEmpty && roots.isEmpty then failure
    return .roots ⟨none, true, uses, roots⟩
  else match kindOf? w with
    | some kind => Definition.type <$> typeNode none true kind
    | none => failure

/-- A definition that starts with a word and is not of a type system. -/
def requested : String → Parser Definition
  | "query" => Definition.operation <$> operation .query
  | "mutation" => Definition.operation <$> operation .mutation
  | "subscription" => Definition.operation <$> operation .subscription
  | "fragment" => Definition.fragment <$> fragment
  | "extend" => extended
  | _ => failure

/-- A definition. Only definitions of a type system have descriptions. -/
def definition : Parser Definition := do
  if ← at? .braceL then
    return .operation ⟨.query, none, [], [], ← selections⟩
  else
    let text ← description
    let w ← name
    if w == "schema" then
      let uses ← directives true
      return .roots ⟨text, false, uses, ← many .braceL root .braceR⟩
    else if w == "directive" then Definition.directive <$> directiveNode text
    else match kindOf? w with
      | some kind => Definition.type <$> typeNode text false kind
      | none => if text.isSome then failure else requested w

/-- Definitions up to the end. -/
def definitions : Nat → Parser Document
  | 0 => failure
  | n + 1 => do
    let d ← definition
    if (← get).isEmpty then return [d]
    else
      let ds ← definitions n
      return d :: ds

/-- Read all tokens of a text. -/
def run (p : Parser α) (s : String) : Except Failure α :=
  match (Token.ofText? s).bind (StateT.run p) with
  | some (x, []) => .ok x
  | _ => .error .badSyntax

end Parser

/-- The type reference that a text is. -/
def TypeRef.ofText? (s : String) : Except Failure TypeRef := Parser.run Parser.type s

/-- The literal that a text is. -/
def Literal.ofText? (s : String) : Except Failure Literal := Parser.run (Parser.value false) s

/-- The document that a text is. -/
def Document.ofText? (s : String) : Except Failure Document :=
  Parser.run (do Parser.definitions (← Parser.fuel)) s

end SchemaForge.Language
