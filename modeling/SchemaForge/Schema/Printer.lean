import SchemaForge.Language.Printer
import SchemaForge.Schema.Build
import SchemaForge.Schema.Shown
import SchemaForge.Value.Equality

/-!
# Writing schemas

A schema is written as its own directives followed by its own types: the query root
first, the mutation root second and all others by name. A type that was read from a text
is written as its definition and its extensions; a type that was given otherwise is
written as one definition, which shows no directives but deprecations.
-/
namespace SchemaForge

open Language

namespace Schema

/-- A type as text. -/
def typeText (s : Schema) (t : SchemaType) : String :=
  String.intercalate "\n\n" ((s.shownNodes t).map TypeNode.print)

/-- The place of a type among the others: roots first. -/
def rank (name : String) : Nat :=
  if name == OperationKind.query.rootName then 0
  else if name == OperationKind.mutation.rootName then 1
  else 2

/-- Whether a type comes no later than another. -/
def notAfter (a b : String) : Bool :=
  rank a < rank b || (rank a == rank b && (Value.compareText a b).isLE)

/-- Whether a type is part of introspection by its name. -/
def isHidden (name : String) : Bool := "__".isPrefixOf name

variable (s : Schema)

/-- The types that are written, in order. -/
def writtenTypes : List (String × SchemaType) :=
  (s.types.filter fun t => !isHidden t.1).mergeSort fun a b => notAfter a.1 b.1

/-- The directives that are written, in order. -/
def writtenDirectives : List DirectiveNode :=
  s.directives.filter (!isStandardDirective ·.name)

/-- The schema as text. -/
def text : String :=
  String.intercalate "\n\n"
    (s.writtenDirectives.map DirectiveNode.print ++ s.writtenTypes.map fun t => s.typeText t.2)

end Schema
end SchemaForge
