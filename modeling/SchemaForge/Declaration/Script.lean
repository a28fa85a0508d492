import SchemaForge.Value.Basic

/-!
# Scripted behaviour

What a resolver, a directive or a fetch hook does is data here: a small language that
an executor interprets. A script yields a value; a directive runs steps around the rest
of its chain; a fetch hook adds to a select statement.
-/
namespace SchemaForge

/-- What a resolver yields. -/
inductive Script where
  /-- Record a value in the trace and go on. -/
  | traced (entry : Value) (rest : Script)
  /-- A fixed value, made anew for each call. -/
  | const (v : Value)
  /-- A fixed value that all calls share, kept at a place of its own. -/
  | shared (place : Nat) (v : Value)
  /-- An argument, or null. -/
  | argument (name : String)
  /-- A member of the parent value, or null. -/
  | source (key : String)
  /-- A member of the context, or null. -/
  | context (key : String)
  /-- The texts of several results, one after the other. -/
  | concat (parts : List Script)
  /-- The text of a result several times over, with a text between them. -/
  | repeated (part times : Script) (separator : String)
  /-- The number of earlier calls, from a start on. -/
  | counter (place : Nat) (start : Int)
  /-- Give up. -/
  | raise (text : String)
  /-- The rows that satisfy the condition among the arguments. -/
  | rows (items : List Value)
  /-- All arguments as JSON. -/
  | echo
  /-- A mapping of results. -/
  | object (fields : List (String × Script))
  /-- The fields that are selected below, as JSON. -/
  | selected
  /-- Null. -/
  | nothing
  deriving Inhabited

/-- A resolver. -/
structure Resolver where
  /-- What it yields. -/
  script : Script
  /-- Whether its result is awaited. -/
  awaited : Bool

/-- A test of a value. -/
inductive Test where
  /-- The truth of a fixed value. -/
  | const (v : Value)
  /-- It is none of these. -/
  | notIn (items : Value)
  /-- It satisfies a condition. -/
  | satisfies (condition : Value)

/-- A step of a directive. -/
inductive Step where
  /-- Record a value in the trace. -/
  | log (v : Value)
  /-- Record what the directive was called with. -/
  | params
  /-- Run the rest of the chain and record its result. -/
  | resolve
  /-- Keep only the entries that pass a test. -/
  | filter (test : Test)
  /-- Give up. -/
  | raise (text : String)

/-- A directive with its behaviour. -/
structure Directive where
  /-- Its name. -/
  name : String
  /-- Its literal arguments. -/
  arguments : Fields
  /-- What it does. -/
  steps : List Step
  /-- Whether its steps can wait for the rest of the chain. -/
  awaits : Bool

/-- What a hook does to a select statement. -/
structure FetchHook where
  /-- A condition to add. -/
  condition : Option Value := none
  /-- An order in place of the given one. -/
  order : Option Value := none
  /-- A limit in place of the given one. -/
  limit : Option Value := none
  /-- An argument that gives the limit. -/
  limitArgument : Option String := none

end SchemaForge
