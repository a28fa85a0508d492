import SchemaForge.Execution.Asked
import SchemaForge.Execution.Chain
import SchemaForge.Execution.Fetching

/-!
# Parts of an answer

An answer grows as a tree. Fields that need nothing but what is at hand have their
values at once; one whose value has to be waited for is a `Job`, and takes its place in
the tree until it is run. A part that failed is lost; where null is allowed the loss
ends there, else it takes the surrounding part with it, and what was waiting beside
it is still run.
-/
namespace SchemaForge

open Language

/-- A field whose value has to be waited for. -/
structure Job where
  /-- The type that the schema promises. -/
  type : TypeRef
  /-- How the value is found. -/
  handler : Handler
  /-- What the field is called with. -/
  call : Call
  /-- How many levels of fields there can be below. -/
  levels : Nat

/-- A part of an answer. -/
inductive Part where
  /-- A value. -/
  | value (v : Value)
  /-- A job that was not run yet. -/
  | waiting (job : Job)
  /-- Fields or items, each with its place and whether null is allowed there; `begun`
  tells whether those that wait were called. -/
  | group (isList begun : Bool) (slots : List (PathPart × Bool × Part))
  /-- No value, for a cause that still has to be accounted for or without one, and what
  is to be run all the same. -/
  | lost (cause : Option Mishap) (others : List (PathPart × Bool × Part))
  deriving Inhabited

/-- A place in a part, whether null is allowed there, and what is there. -/
abbrev Slot := PathPart × Bool × Part

namespace Part

/-- Null. -/
def null : Part := value .null

mutual

/-- Whether jobs are left. -/
def isWaiting : Part → Bool
  | value _ => false
  | waiting _ => true
  | group _ _ slots => anyWaiting slots
  | lost _ others => anyWaiting others

/-- Whether jobs are left in one of several places. -/
def anyWaiting : List (PathPart × Bool × Part) → Bool
  | [] => false
  | (_, _, p) :: rest => isWaiting p || anyWaiting rest

end

mutual

/-- The value of a part. -/
def shown : Part → Value
  | value v => v
  | waiting _ => .null
  | group isList _ slots => if isList then .list (shownItems slots) else .record (shownFields slots)
  | lost .. => .null

/-- The values in several places. -/
def shownItems : List (PathPart × Bool × Part) → List Value
  | [] => []
  | (_, _, p) :: rest => shown p :: shownItems rest

/-- The values in several places, by key. -/
def shownFields : List (PathPart × Bool × Part) → List (String × Value)
  | [] => []
  | (k, _, p) :: rest => (k.text, shown p) :: shownFields rest

end

/-- The first cause in several places that still has to be accounted for. -/
def firstCause : List Slot → Option Mishap
  | [] => none
  | (_, _, lost (some m) _) :: _ => some m
  | _ :: rest => firstCause rest

/-- The places with jobs that are left. -/
def leftOver (slots : List Slot) : List Slot :=
  slots.flatMap fun (k, nullable, p) =>
    match p with
    | lost _ others => others
    | p => if p.isWaiting then [(k, nullable, p)] else []

/-- Fields or items whose jobs were called, unless one that is needed is lost. -/
def gathered (isList : Bool) (slots : List Slot) : Part :=
  match firstCause slots with
  | some m => lost (some m) (leftOver slots)
  | none => group isList true slots

end Part

/-- A step of growing an answer; a failure loses the part that is grown. -/
abbrev Grow := ExceptT Mishap (StateM Journal)

namespace Grow

/-- A step whose failure is met at a place. -/
def placed (path : Path) {α : Type} (a : Act α) : Grow α := fun j =>
  match a j with
  | (.ok x, j) => (.ok x, j)
  | (.error e, j) => (.error ⟨path, e⟩, j)

/-- Growing what goes into a slot: a failure ends there if null is allowed. -/
def into (nullable : Bool) (grow : Grow Part) : Grow Part := fun j =>
  match grow j with
  | (.ok p, j) => (.ok p, j)
  | (.error m, j) => if nullable then (.ok .null, j.note m) else (.error m, j)

end Grow
end SchemaForge
