import SchemaForge.Declaration.Script
import SchemaForge.Failure
import SchemaForge.Value.Display

/-!
# Directive options

An option that takes directives can be a list of them, and both the list and its
entries can be thunks: values that are computed when they are first needed. A thunk is
known by its key. `DirectiveOption.resolve` gives the directives; it counts how often
each thunk is evaluated and keeps the results of those that can be kept, so each of
them is evaluated once, however many options share it.

What an evaluation gives is a matter of the thunks: `Behaviour` says it for each key and
each time, and an evaluation that fails leaves nothing to keep. Where nothing else is
said, a thunk gives what is written of it.
-/
namespace SchemaForge

/-- An option that takes directives, or an entry of one. -/
inductive DirectiveOption where
  /-- A directive. -/
  | directive (d : Directive)
  /-- A list of entries. -/
  | list (entries : List DirectiveOption)
  /-- Something that is computed when needed; `memo` tells whether the result can be
  kept. -/
  | thunk (key : String) (memo : Bool) (result : DirectiveOption)
  /-- Any other value. -/
  | value (v : Value)

namespace DirectiveOption

/-- No option. -/
def none : DirectiveOption := .value .null

instance : Inhabited DirectiveOption := ⟨none⟩

/-- Whether an option is given and not empty. -/
def truthy : DirectiveOption → Bool
  | directive _ => true
  | list entries => !entries.isEmpty
  | thunk .. => true
  | value v => v.truthy

mutual

/-- An option as a message shows it. -/
def display : DirectiveOption → String
  | directive d => call "Directive" ["name=" ++ Text.quote d.name]
  | list entries => bracketed "[" "]" (displayAll entries)
  | thunk key _ _ => "<" ++ key ++ ">"
  | value v => v.display

/-- Several options as a message shows them. -/
def displayAll : List DirectiveOption → List String
  | [] => []
  | e :: es => display e :: displayAll es

end

end DirectiveOption

/-- What is known about thunks. -/
structure ThunkState where
  /-- How often each was evaluated. -/
  evaluations : Table Nat := []
  /-- The results that are kept. -/
  kept : Table DirectiveOption := []

/-- A computation that may evaluate thunks. -/
abbrev Thunked := ExceptT Failure (StateM ThunkState)

namespace ThunkState

/-- How often a thunk was evaluated. -/
def evaluated (s : ThunkState) (key : String) : Nat := (s.evaluations.get? key).getD 0

/-- Count an evaluation. -/
def count (s : ThunkState) (key : String) : ThunkState :=
  { s with evaluations := s.evaluations.update key 0 (· + 1) }

/-- Keep a result. -/
def keep (s : ThunkState) (key : String) (result : DirectiveOption) : ThunkState :=
  { s with kept := s.kept.put key result }

end ThunkState

/-- How thunks behave: what an evaluation gives, by the key of the thunk, by how often it
was evaluated before, and by what is written of it. -/
abbrev Behaviour := String → Nat → DirectiveOption → Except Failure DirectiveOption

/-- Thunks always give what is written of them. -/
def Behaviour.steady : Behaviour := fun _ _ result => .ok result

/-- A way to come to the value of a thunk. -/
abbrev Forcing := String → Bool → DirectiveOption → Thunked DirectiveOption

namespace DirectiveOption

/-- An outcome as a computation. -/
def liftExcept {α : Type} (x : Except Failure α) : Thunked α := ExceptT.mk (pure x)

/-- Evaluate a thunk. -/
def evaluate (b : Behaviour) : Forcing := fun key _ result => do
  let s ← get
  set (s.count key)
  liftExcept (b key (s.evaluated key) result)

/-- The value of a thunk: a kept result if there is one, else its evaluation, which is
kept if it can be. -/
def memoize (b : Behaviour) : Forcing := fun key memo result => do
  let s ← get
  match if memo then s.kept.get? key else Option.none with
  | some known => return known
  | Option.none =>
    let value ← evaluate b key memo result
    if memo then modify (·.keep key value)
    return value

/-- The entries of an option: none if it is empty, the items of a list, and whatever a
walk over another value yields. -/
def entries : DirectiveOption → Except Failure (List DirectiveOption)
  | list es => .ok es
  | value v =>
    if v.truthy then
      match v.iterate? with
      | some vs => .ok (vs.map value)
      | Option.none => .error .wrongKind
    else .ok []
  | _ => .error .wrongKind

section

variable (f : Forcing)

/-- The value of an option or entry: that of a thunk, or itself. -/
def forcedBy : DirectiveOption → Thunked DirectiveOption
  | thunk key memo result => f key memo result
  | o => pure o

/-- The directive that an entry is. -/
def entryBy (e : DirectiveOption) : Thunked Directive := do
  match ← e.forcedBy f with
  | directive d => return d
  | other => throw (.notADirective other.display)

/-- The directives of an option. It fails at the first entry that is none. -/
def resolveBy (o : DirectiveOption) : Thunked (List Directive) := do
  (← liftExcept (← o.forcedBy f).entries).mapM (entryBy f)

end

/-- The value of a thunk that gives what is written of it. -/
def force : Forcing := memoize .steady

/-- The value of an option or entry with such thunks. -/
def forced (o : DirectiveOption) : Thunked DirectiveOption := o.forcedBy force

/-- The directive that an entry is. -/
def entry (e : DirectiveOption) : Thunked Directive := e.entryBy force

/-- The directives of an option. -/
def resolve (o : DirectiveOption) : Thunked (List Directive) := o.resolveBy force

end DirectiveOption
end SchemaForge
