import SchemaForge.Language.Syntax
import SchemaForge.Store.Model

/-!
# What a selection reaches

`Include.ofSelections` gathers the fields with selections of their own below a field,
however the selections are spread over fragments. `Include.loaded` gives the paths of
associations among them that lead to single rows, step by step from a model.
-/
namespace SchemaForge

open Language

/-- The fields that are selected below a field, each with what is selected below it. -/
inductive Include where
  /-- The fields in order. -/
  | node (fields : List (String × Include))

namespace Include

/-- No fields. -/
def empty : Include := node []

instance : Inhabited Include := ⟨empty⟩

/-- The fields in order. -/
def fields : Include → List (String × Include)
  | node fs => fs

mutual

/-- The fields of both. -/
def merge : Include → Include → Include
  | t, node fs => mergeAll t fs

/-- Add several fields. -/
def mergeAll : Include → List (String × Include) → Include
  | t, [] => t
  | t, (name, sub) :: rest =>
    mergeAll (node (Table.update t.fields name empty fun known => merge known sub)) rest

end

/-- Whether a field belongs to introspection. -/
def isMeta (name : String) : Bool := "__".isPrefixOf name

/-- The fields of selections. The fuel bounds the depth of fields and fragments. -/
def ofSelections (fragments : Table Fragment) : Nat → List Selection → Include
  | 0, _ => empty
  | n + 1, selections => selections.foldl (add n) empty
where
  /-- Add what one selection reaches. -/
  add (n : Nat) (t : Include) (s : Selection) : Include :=
    match s with
    | .field _ name _ _ sub =>
      if sub.isEmpty || isMeta name then t
      else merge t (node [(name, ofSelections fragments n sub)])
    | .inline _ _ sub => merge t (ofSelections fragments n sub)
    | .spread name _ =>
      match fragments.get? name with
      | some f => merge t (ofSelections fragments n f.selections)
      | none => t

/-- How deep a fragment goes. -/
def depthOf (fragments : Table Fragment) (name : String) : Nat :=
  ((fragments.get? name).map fun f => Selection.depthAll f.selections).getD 0

/-- How deep several fragments go together. -/
def depthIn (fragments : Table Fragment) : List String → Nat
  | [] => 0
  | name :: names => depthOf fragments name + depthIn fragments names

/-- The fields that are selected below a field. A fragment does not name itself, not even through
others, so nothing is deeper than the selections and all fragments together. -/
def requested (fragments : Table Fragment) (selections : List Selection) : Include :=
  ofSelections fragments
    (Selection.depthAll selections + depthIn fragments (Table.keys fragments)) selections

mutual

/-- The fields as nested mappings. -/
def value : Include → Value
  | node fs => .record (values fs)

/-- Several fields as mappings. -/
def values : List (String × Include) → List (String × Value)
  | [] => []
  | (name, sub) :: rest => (name, value sub) :: values rest

end

mutual

/-- The paths of associations to single rows. -/
def loaded (models : Models) (m : Model) : Include → List (List String)
  | node fs => loadedAll models m fs

/-- The paths that start with one of several fields. -/
def loadedAll (models : Models) (m : Model) : List (String × Include) → List (List String)
  | [] => []
  | (name, sub) :: rest =>
    let here : List (List String) :=
      match m.association? name with
      | none => []
      | some a =>
        if models.isMany m a then []
        else
          let below := match models.target? a with
            | some t => loaded models t sub
            | none => []
          [name] :: below.map (name :: ·)
    here ++ loadedAll models m rest

end

end Include
end SchemaForge
