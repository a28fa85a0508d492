/-!
# What can go wrong

One constructor for each cause. `Failure.message` gives the wording of the causes that
this library reports in words of its own; the others, such as a value of the wrong
kind, carry no wording. `Failure.sort` groups the causes by who has to act.
-/
namespace SchemaForge

/-- The groups of causes. -/
inductive FailureSort where
  /-- A declaration is wrong. -/
  | configuration
  /-- The surroundings of a request are wrong. -/
  | environment
  /-- A request or a value in it is wrong. -/
  | request
  /-- A text is not in the grammar of the schema language. -/
  | grammar
  /-- A value is outside its range. -/
  | value
  /-- A value or a schema element is of the wrong kind. -/
  | kind
  /-- A value has no such member. -/
  | member
  /-- A mapping has no such key. -/
  | key
  /-- An operation is left to be provided. -/
  | missing
  /-- A store operator has an operand that it cannot take. -/
  | operand
  /-- A scripted resolver or directive gave up. -/
  | script
  deriving DecidableEq

/-- A cause. Texts inside are names, or values as messages show them. -/
inductive Failure where
  /-- A text is not in the grammar. -/
  | badSyntax
  /-- The definitions of a schema contradict each other. -/
  | badDefinitions
  /-- A value of the wrong kind. -/
  | wrongKind
  /-- A member that the value does not have. -/
  | noMember
  /-- A key that the mapping does not have. -/
  | noKey
  /-- An abstract operation. -/
  | notProvided
  /-- An operand that a store operator refuses. -/
  | badOperand
  /-- A value that a type of the schema cannot represent. -/
  | unrepresentable
  /-- Null where the schema promises a value. -/
  | unexpectedNull
  /-- A scripted failure. -/
  | script (text : String)
  /-- A kind of type that does not exist. -/
  | unknownVariant (kind type : String)
  /-- A return type that nothing defines. -/
  | unknownReturnType (type : String)
  /-- A default-resolved field that returns no model. -/
  | noModel (parent field type : String)
  /-- A plugin that cannot fetch data. -/
  | cannotServe (plugin parent field : String)
  /-- A default-resolved field without a type. -/
  | noReturnType (type field : String)
  /-- A directive argument used with kinds that do not merge. -/
  | incompatibleKinds (directive argument : String) (kinds : List String)
  /-- A directive list whose values are of several kinds. -/
  | mixedList (shown : String)
  /-- A directive argument that has no literal. -/
  | unsupportedArgument (shown : String)
  /-- An entry of a directive option that is not a directive. -/
  | notADirective (shown : String)
  /-- An unknown key in a field configuration. -/
  | unknownFieldOption (shown key : String)
  /-- A field configuration of no accepted form. -/
  | unsupportedField (shown : String)
  /-- Fields of an extended type that are not a mapping. -/
  | notAFieldMap (type : String)
  /-- Argument declarations that do not agree. -/
  | conflictingArguments (argument type field : String) (candidates : List String)
  /-- A virtual field without a return annotation. -/
  | untypedVirtual (field type : String)
  /-- A virtual field whose annotation has no counterpart. -/
  | unmappedVirtual ( annotation type field : String)
  /-- A base schema of no accepted form. -/
  | unsupportedBase (shown : String)
  /-- No query root. -/
  | noQueryRoot
  /-- A root that is not an object type. -/
  | rootNotObject (root : String)
  /-- A scalar implementation without a scalar. -/
  | noScalar (type : String)
  /-- A resolver without a field. -/
  | noField (field type : String)
  /-- No session in the context of a request. -/
  | noSession (key : String)
  /-- A condition on a field that the model does not have. -/
  | unknownWhereField (field : String)
  /-- A condition on an association with no column of its own. -/
  | notFilterable (field : String)
  /-- An order value that names no column. -/
  | invalidOrder
  /-- A value that a date scalar cannot represent. -/
  | scalarValue (scalar : String) (shown : String)
  /-- Input that a date scalar does not take because it is no text. -/
  | scalarNotText (scalar : String) (shown : String)
  /-- Text that a date scalar cannot read. -/
  | scalarInvalid (scalar : String) (shown : String)
  /-- A literal that should have been a text. -/
  | literalNotText
  deriving DecidableEq

namespace Failure

/-- Who has to act. -/
def sort : Failure → FailureSort
  | badSyntax => .grammar
  | badDefinitions | wrongKind | unexpectedNull => .kind
  | noMember => .member
  | noKey => .key
  | notProvided => .missing
  | badOperand => .operand
  | script _ => .script
  | unknownVariant .. => .value
  | noSession _ => .environment
  | unrepresentable | unknownWhereField _ | notFilterable _ | invalidOrder | scalarValue ..
  | scalarNotText .. | scalarInvalid .. | literalNotText => .request
  | _ => .configuration

/-- The wording of a cause, if it has one. -/
def message : Failure → Option String
  | badSyntax | badDefinitions | wrongKind | noMember | noKey | notProvided | badOperand
  | unrepresentable | unexpectedNull => none
  | script text => some text
  | unknownVariant kind type =>
    some ("Unknown GraphQL variant kind \"" ++ kind ++ "\" for \"" ++ type ++ "\".")
  | unknownReturnType type =>
    some ("Cannot find \"" ++ type ++ "\" definition used as \"returnType\".")
  | noModel parent field type =>
    some ("Cannot find a model served by a plugin for the default resolver of \"" ++ parent
      ++ "." ++ field ++ "\" (returning \"" ++ type ++ "\").")
  | cannotServe plugin parent field =>
    some ("Plugin \"" ++ plugin ++ "\" cannot serve the default resolver of \"" ++ parent
      ++ "." ++ field ++ "\".")
  | noReturnType type field =>
    some ("Field \"" ++ type ++ "." ++ field
      ++ "\" using the default resolver must declare a return type.")
  | incompatibleKinds directive argument kinds =>
    some ("Directive \"@" ++ directive ++ "\" argument \"" ++ argument
      ++ "\" is used with incompatible types: " ++ String.intercalate ", " kinds ++ ".")
  | mixedList shown => some ("Directive argument list mixes types: " ++ shown)
  | unsupportedArgument shown => some ("Unsupported directive argument value: " ++ shown)
  | notADirective shown => some ("Expected a Directive, got " ++ shown ++ ".")
  | unknownFieldOption shown key =>
    some ("Invalid field config " ++ shown
      ++ ": FieldConfig.__init__() got an unexpected keyword argument '" ++ key ++ "'")
  | unsupportedField shown => some ("Unsupported field config form: " ++ shown)
  | notAFieldMap type =>
    some ("Provided field config for type \"" ++ type ++ "\" must be an object.")
  | conflictingArguments argument type field candidates =>
    some ("Argument \"" ++ argument ++ "\" of \"" ++ type ++ "." ++ field
      ++ "\" is declared with conflicting types: " ++ String.intercalate ", " candidates ++ ".")
  | untypedVirtual field type =>
    some ("Virtual field \"" ++ field ++ "\" of \"" ++ type
      ++ "\" must declare a return type. Example: @hybrid_property def " ++ field
      ++ "(self) -> str: ...")
  | unmappedVirtual annotation type field =>
    some ("Return type " ++ annotation ++ " of virtual field \"" ++ type ++ "." ++ field
      ++ "\" has no GraphQL equivalent.")
  | unsupportedBase shown => some ("Unsupported base schema: " ++ shown)
  | noQueryRoot => some "Query root type must be provided."
  | rootNotObject root => some (root ++ " type is not a GraphQLObjectType.")
  | noScalar type => some ("No scalar definition found for \"" ++ type ++ "\".")
  | noField field type =>
    some ("No field definition found for \"" ++ field ++ "\" of type \"" ++ type ++ "\".")
  | noSession key =>
    some ("No database session found in the GraphQL context (expected \"" ++ key ++ "\").")
  | unknownWhereField field => some ("Unknown where field \"" ++ field ++ "\".")
  | notFilterable field =>
    some ("Cannot filter \"" ++ field ++ "\": only many-to-one associations are filterable.")
  | invalidOrder => some "Invalid order value."
  | scalarValue scalar shown => some (scalar ++ " cannot represent value: " ++ shown)
  | scalarNotText scalar shown =>
    some (scalar ++ " cannot represent non-string value: " ++ shown)
  | scalarInvalid scalar shown =>
    some (scalar ++ " cannot represent invalid value: " ++ shown)
  | literalNotText => some "Expected a string literal."

end Failure
end SchemaForge
