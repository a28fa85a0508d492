import SchemaForge.Execution.Basic
import SchemaForge.Schema.Coercion

/-!
# The fields that are asked for

Selections ask for fields of an object, directly or through fragments that apply to its
type. `Asked.collect` lists the fields by the key under which they answer, in the order
of their first appearance; what several selections under one key select below comes
together. Fragments are written out first, so that what is selected has a depth.
-/
namespace SchemaForge

open Language

namespace Language.Selection

mutual

/-- A selection in which the fragments that it names are written out once. -/
def unfolded (fragments : List Fragment) : Selection → Selection
  | field a name arguments uses sub => field a name arguments uses (unfoldedAll fragments sub)
  | inline condition uses sub => inline condition uses (unfoldedAll fragments sub)
  | spread name uses =>
    match fragments.find? (·.name == name) with
    | some f => inline (some f.condition) uses f.selections
    | none => inline none uses []

/-- Selections in which the fragments that they name are written out once. -/
def unfoldedAll (fragments : List Fragment) : List Selection → List Selection
  | [] => []
  | x :: xs => unfolded fragments x :: unfoldedAll fragments xs

end

/-- Selections with fragments written out so many levels deep. -/
def unfoldedTo (fragments : List Fragment) : Nat → List Selection → List Selection
  | 0, xs => xs
  | n + 1, xs => unfoldedTo fragments n (unfoldedAll fragments xs)

/-- Selections with all fragments written out. A fragment does not name itself, not even
through others, so there are no more levels than fragments. -/
def expanded (fragments : List Fragment) (xs : List Selection) : List Selection :=
  unfoldedTo fragments (fragments.length + 1) xs

end Language.Selection

/-- A field that is asked for. -/
structure Asked where
  /-- Its name. -/
  name : String
  /-- Its arguments. -/
  arguments : Arguments
  /-- What is selected below. -/
  selections : List Selection

namespace Asked

variable (s : Schema) (leaves : Implementations) (vars : Fields)

/-- Whether a directive with a condition is there and its condition has a value. -/
def hasCondition (name : String) (value : Bool) (uses : List DirectiveUse) :
    Except Failure Bool :=
  match uses.find? (·.name == name), Schema.standardDirectives.find? (·.name == name) with
  | some u, some d =>
    (Coercion.arguments s leaves (Coercion.defaultOf s) vars u.arguments d.arguments).map
      fun fs => match Fields.get fs "if" with
        | .bool b => b == value
        | _ => false
  | _, _ => .ok false

/-- Whether the directives on a selection let it count. -/
def counts (uses : List DirectiveUse) : Except Failure Bool := do
  if ← hasCondition s leaves vars "skip" true uses then return false
  else return !(← hasCondition s leaves vars "include" false uses)

/-- Ask for a field. -/
def ask (asked : Table Asked) (key : String) (a : Asked) : Table Asked :=
  asked.update key { a with selections := [] } fun known =>
    { known with selections := known.selections ++ a.selections }

mutual

/-- Add what a selection asks of a value to which some fragments apply. -/
def add (applies : String → Bool) (asked : Table Asked) : Selection → Except Failure (Table Asked)
  | .field alias? name arguments uses sub =>
    (counts s leaves vars uses).map fun b =>
      if b then ask asked (responseKey alias? name) ⟨name, arguments, sub⟩ else asked
  | .inline condition uses sub =>
    match counts s leaves vars uses with
    | .error e => .error e
    | .ok b => if b && condition.all applies then addAll applies asked sub else .ok asked
  | .spread .. => .ok asked

/-- Add what several selections ask. -/
def addAll (applies : String → Bool) (asked : Table Asked) :
    List Selection → Except Failure (Table Asked)
  | [] => .ok asked
  | x :: xs =>
    match add applies asked x with
    | .error e => .error e
    | .ok asked => addAll applies asked xs

end

/-- Whether a fragment for a type applies to an object type. -/
def appliesTo (type condition : String) : Bool :=
  condition == type || s.isPossible condition type
    || s.isNamedSubtype type condition

/-- The fields that selections ask of an object type, by key. -/
def collect (type : String) (selections : List Selection) : Except Failure (Table Asked) :=
  addAll s leaves vars (appliesTo s type) [] selections

end Asked
end SchemaForge
