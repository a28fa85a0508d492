import SchemaForge.Schema.Basic

/-!
# The walk over a schema

The walk starts at the query root and the mutation root and goes from type to type,
nearer ones first. It visits every field of an object type or interface once, and
passes a union on to its members. Each type that is entered leaves the list of types
that remain, so cycles end.
-/
namespace SchemaForge

open Language

/-- A field that the walk visits. -/
structure Visit where
  /-- The type of which it is a field. -/
  parent : String
  /-- Its name. -/
  field : String
  /-- What it returns. -/
  type : TypeRef
  deriving DecidableEq

namespace Visit

/-- The type that the field returns, without lists and exclusions of null. -/
def returned (v : Visit) : String := v.type.baseName

/-- Whether the field returns a list. -/
def isList (v : Visit) : Bool := v.type.isList

end Visit

namespace Schema

variable (s : Schema)

/-- The types that the walk can enter. -/
def composites : List String :=
  (s.types.filter fun t => t.2.kind.isComposite).map Prod.fst

/-- The visits of the fields of a type. -/
def visitsOf (type : String) : List Visit := (s.fields type).map fun f => ⟨type, f.name, f.type⟩

/-- The types to which the walk goes on from a type: the members of a union, and all that
fields return. -/
def next (type : String) : List String :=
  match s.body? type with
  | some (.union ms) => ms
  | some b => (b.fields.map fun f => f.type.baseName).filter (s.kindIs · TypeKind.isComposite)
  | none => []

/-- The types that the walk enters, in order, when some types remain and some are next. -/
def enter (remaining : List String) (queue : List String) : List String :=
  match queue with
  | [] => []
  | t :: queue =>
    if t ∈ remaining then t :: enter (remaining.erase t) (queue ++ s.next t)
    else enter remaining queue
termination_by (remaining.length, queue.length)
decreasing_by
  · apply Prod.Lex.left
    rename_i h
    have := List.length_erase_of_mem h
    have := List.length_pos_of_mem h
    omega
  · apply Prod.Lex.right
    simp

/-- Where the walk starts. -/
def walkRoots : List String := (s.root? .query).toList ++ (s.root? .mutation).toList

/-- The types that the walk enters. -/
def entered : List String := s.enter s.composites s.walkRoots

/-- The visits of the walk, in order. -/
def walk : List Visit := s.entered.flatMap s.visitsOf

end Schema
end SchemaForge
