import SchemaForge.Declaration.Basic
import SchemaForge.Text.Pattern

/-!
# Which fields a policy exposes

A field is exposed when it matches what is to be kept, if that is said, and does not
match what is to be dropped. The two timestamps are dropped too, unless the policy keeps
them.
-/
namespace SchemaForge
namespace Policy

/-- The names of the timestamps. -/
def timestampNames : List String := ["created_at", "updated_at"]

/-- Whether a name or pattern matches a field. -/
def matchesOne (field : String) : Value → Bool
  | .text s => s == field
  | .pattern s => ((Pattern.ofString? s).map (·.search field)).getD false
  | _ => false

/-- Whether one of several names and patterns matches a field. -/
def matchesAny (filters : List Value) (field : String) : Bool := filters.any (matchesOne field)

/-- The names and patterns that an option lists. -/
def filtersOf (v : Value) : Except Failure (List Value) :=
  match v.iterate? with
  | some vs => .ok vs
  | none => .error .wrongKind

/-- Whether a value can be looked up by its contents. -/
def isName (v : Value) : Bool :=
  match v with
  | .list _ | .record _ | .object .. | .cell _ => false
  | _ => true

/-- The timestamps that a policy drops. -/
def droppedTimestamps (p : Policy) : Except Failure (List String) :=
  match p.timestamps with
  | .bool true => .ok []
  | v =>
    match v.items? with
    | some kept =>
      if kept.all isName then
        .ok (timestampNames.filter fun t => !kept.any fun k => k.text? == some t)
      else .error .wrongKind
    | none => .ok timestampNames

/-- Whether a policy exposes a field. -/
def exposes (p : Policy) (field : String) : Except Failure Bool := do
  let kept ← if p.keep.isNull then .ok true
    else (filtersOf p.keep).map (matchesAny · field)
  if !kept then return false
  else
    let stamps ← p.droppedTimestamps
    let dropped ← if p.drop.truthy then filtersOf p.drop else .ok []
    return !matchesAny (dropped ++ stamps.map .text) field

end Policy

/-- Whether the policy that stands somewhere exposes a field; where none stands, only
timestamps are dropped. -/
def PolicyOption.exposes (o : PolicyOption) (field : String) : Except Failure Bool :=
  match o with
  | .policy p => p.exposes field
  | .value v => if v.truthy then .error .noMember else Policy.plain.exposes field

end SchemaForge
