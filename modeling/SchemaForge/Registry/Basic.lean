import SchemaForge.Failure
import SchemaForge.Language.Syntax
import SchemaForge.Registry.Signature
import SchemaForge.Table

/-!
# The registry of declared types

Declarations of one type may come from many places, so they are collected line by line
before a schema is written. A type keeps its kind, its directives and its lines; a line
is a field, an enum value or a union member, with the signatures that were declared for
each argument. Declaring something again adds to what is there: only the kind of a type
and the return type of a line are replaced. Lists hold each text once.
-/
namespace SchemaForge

open Language

/-- Add a text at the end unless it is there. -/
def addOnce (xs : List String) (x : String) : List String :=
  if xs.contains x then xs else xs ++ [x]

/-- A field, an enum value or a union member. -/
structure FieldLine where
  /-- The return type, empty when there is none. -/
  type : String := ""
  /-- The declared signatures of each argument. -/
  arguments : Table (List String) := []
  /-- Uses of directives. -/
  directives : List String := []
  deriving Inhabited

/-- A declared type. -/
structure TypeEntry where
  /-- Its kind. -/
  kind : TypeKind := .object
  /-- Uses of directives. -/
  directives : List String := []
  /-- Its lines. -/
  lines : Table FieldLine := []
  deriving Inhabited

/-- The declared types. -/
abbrev Registry := Table TypeEntry

/-- The defaults of the arguments that choose a page. -/
def pageDefaults : Table String := [("page", "1"), ("perPage", "10")]

namespace FieldLine

/-- An argument signature with the default of its name, unless it has one. -/
def withPageDefault (argument signature : String) : String :=
  match pageDefaults.get? argument with
  | some d => if Signature.hasDefault signature then signature else signature ++ " = " ++ d
  | none => signature

/-- Declare an argument. -/
def addArgument (line : FieldLine) (argument signature : String) : FieldLine :=
  let add declared := addOnce declared (withPageDefault argument signature)
  { line with arguments := line.arguments.update argument [] add }

/-- Use a directive. -/
def addDirective (line : FieldLine) (use : String) : FieldLine :=
  { line with directives := addOnce line.directives use }

end FieldLine

namespace TypeEntry

/-- Use a directive. -/
def addDirective (entry : TypeEntry) (use : String) : TypeEntry :=
  { entry with directives := addOnce entry.directives use }

/-- Change a line, adding it first if there is none. -/
def updateLine (entry : TypeEntry) (field : String) (f : FieldLine → FieldLine) : TypeEntry :=
  { entry with lines := entry.lines.update field {} f }

end TypeEntry

namespace Registry

/-- Change a type, adding it first if there is none. -/
def updateType (r : Registry) (type : String) (f : TypeEntry → TypeEntry) : Registry :=
  Table.update r type {} f

/-- Add a type unless it is there. -/
def ensureType (r : Registry) (type : String) : Registry := Table.ensure r type {}

/-- Set the kind of a type. -/
def setKind (r : Registry) (type : String) (kind : TypeKind) : Registry :=
  updateType r type fun entry => { entry with kind }

/-- Set the kind of a type by its word. -/
def create (r : Registry) (kind type : String) : Except Failure Registry :=
  match Parser.kindOf? kind with
  | some k => .ok (setKind r type k)
  | none => .error (.unknownVariant kind type)

/-- Change a line of a type, adding both first if they are missing. -/
def updateField (r : Registry) (type field : String) (f : FieldLine → FieldLine) : Registry :=
  updateType r type (·.updateLine field f)

/-- Add a line unless it is there. -/
def ensureField (r : Registry) (type field : String) : Registry := updateField r type field id

/-- Set the return type of a line. -/
def setFieldType (r : Registry) (type field signature : String) : Registry :=
  updateField r type field fun line => { line with type := signature }

/-- Use a directive on a type. -/
def addTypeDirective (r : Registry) (type use : String) : Registry :=
  updateType r type (·.addDirective use)

/-- Use a directive on a line. -/
def addFieldDirective (r : Registry) (type field use : String) : Registry :=
  updateField r type field (·.addDirective use)

/-- Declare an argument of a line. -/
def addArgument (r : Registry) (type field argument signature : String) : Registry :=
  updateField r type field (·.addArgument argument signature)

/-- Remove a line. -/
def deleteField (r : Registry) (type field : String) : Registry :=
  Table.modify r type fun entry => { entry with lines := entry.lines.erase field }

/-- Whether a type has lines. -/
def isPopulated (r : Registry) (type : String) : Bool :=
  match Table.get? r type with
  | some entry => !entry.lines.isEmpty
  | none => false

/-- A line of a type. -/
def line? (r : Registry) (type field : String) : Option FieldLine :=
  (Table.get? r type).bind fun entry => entry.lines.get? field

end Registry

theorem mem_addOnce {xs : List String} {x y : String} :
    y ∈ addOnce xs x ↔ y ∈ xs ∨ y = x := by
  unfold addOnce
  split
  · rename_i h
    simp only [List.contains_eq_mem, decide_eq_true_eq] at h
    constructor
    · exact Or.inl
    · rintro (h' | rfl) <;> assumption
  · simp

theorem nodup_addOnce {xs : List String} (h : xs.Nodup) (x : String) : (addOnce xs x).Nodup := by
  unfold addOnce
  split
  · exact h
  · rename_i hx
    simp only [List.contains_eq_mem, decide_eq_true_eq] at hx
    rw [List.nodup_append]
    refine ⟨h, by simp, ?_⟩
    rintro a ha b hb rfl
    simp only [List.mem_singleton] at hb
    exact hx (hb ▸ ha)

end SchemaForge
