import SchemaForge.Schema.Basic

/-!
# Definitions that fit a schema

What a document may add to a schema, or to nothing: every name is defined once, every
type and directive that is used is known, extensions extend a type of their own kind,
and uses of directives stand where they may stand, with the arguments that they need.
`Addition.fits` is the conjunction of these rules. Operations and fragments in such a
document are passed over.
-/
namespace SchemaForge

open Language

/-- A document that is to be added to a schema, or to nothing. -/
structure Addition where
  /-- The schema. -/
  base : Option Schema
  /-- The document. -/
  document : Document

/-- The directives that are used in one place. -/
structure DirectivePlace where
  /-- What stands there. -/
  location : String
  /-- The uses. -/
  uses : List DirectiveUse

namespace Addition

variable (a : Addition)

/-! ### Parts of the document -/

/-- The nodes of types. -/
def typeNodes : List TypeNode :=
  a.document.filterMap fun
    | .type t => some t
    | _ => none

/-- The definitions of types. -/
def definitions : List TypeNode := a.typeNodes.filter (!·.extends?)

/-- The extensions of types. -/
def extensions : List TypeNode := a.typeNodes.filter (·.extends?)

/-- The definitions of directives. -/
def directives : List DirectiveNode :=
  a.document.filterMap fun
    | .directive d => some d
    | _ => none

/-- The definitions and extensions of the schema itself. -/
def rootNodes : List RootsNode :=
  a.document.filterMap fun
    | .roots r => some r
    | _ => none

/-- The names of types that are there before. -/
def oldTypes : List String := (a.base.map Schema.typeNames).getD []

/-- The directives that are there before. -/
def oldDirectives : List DirectiveNode := (a.base.map Schema.allDirectives).getD []

/-- The directive with a name: as the document defines it, as it is there before, or as
every schema has it. -/
def directive? (name : String) : Option DirectiveNode :=
  ((a.directives.reverse ++ a.oldDirectives ++ Schema.standardDirectives).find? (·.name == name))

/-- What is there before of a type. -/
def oldBody? (name : String) : Option TypeBody := a.base.bind (Schema.body? · name)

/-- All nodes of one type. -/
def nodesOf (name : String) : List TypeNode := a.typeNodes.filter (·.name == name)

/-! ### Names are defined once -/

/-- Whether no name stands twice. -/
def distinct : List String → Bool
  | [] => true
  | x :: xs => !xs.contains x && distinct xs

/-- Types are defined once. -/
def typesOnce : Bool :=
  let names := a.definitions.map (·.name)
  distinct names && names.all (!a.oldTypes.contains ·)

/-- Directives are defined once. -/
def directivesOnce : Bool :=
  let names := a.directives.map (·.name)
  distinct names && names.all fun n => a.oldDirectives.all (·.name != n)

/-- The schema itself is defined once. -/
def schemaOnce : Bool :=
  let definitions := a.rootNodes.filter (!·.extends?)
  definitions.length ≤ 1 &&
    (definitions.isEmpty || (a.base.map (·.roots.isEmpty)).getD true)

/-- Roots are set once. -/
def rootsOnce : Bool :=
  let set := a.rootNodes.flatMap (·.roots)
  distinct (set.map (·.1.word)) &&
    set.all fun r => ((a.base.bind (·.root? r.1)).isNone)

/-- The names of fields, of a type with fields. -/
def memberNames : TypeBody → List String
  | .object _ fs | .interface _ fs => fs.map (·.name)
  | .input fs => fs.map (·.name)
  | _ => []

/-- Fields are defined once in all nodes of a type. -/
def fieldsOnce : Bool :=
  a.typeNodes.all fun t =>
    let names := (a.nodesOf t.name).flatMap fun n => memberNames n.body
    let old := ((a.oldBody? t.name).map memberNames).getD []
    distinct names && names.all (!old.contains ·)

/-- The words of enums are defined once in all nodes of a type. -/
def wordsOnce : Bool :=
  a.typeNodes.all fun t =>
    let words := (a.nodesOf t.name).flatMap fun n => n.body.words
    let old := ((a.oldBody? t.name).map TypeBody.words).getD []
    distinct words && words.all (!old.contains ·)

/-- The inputs of every field and directive. -/
def inputLists : List (List InputNode) :=
  a.typeNodes.flatMap (fun t => t.body.fields.map (·.arguments))
    ++ a.directives.map (·.arguments)

/-- Arguments are defined once. -/
def inputsOnce : Bool := a.inputLists.all fun is => distinct (is.map (·.name))

/-! ### Types are known -/

/-- The types that the document mentions. -/
def mentioned : List String :=
  a.typeNodes.flatMap (fun t => Schema.mentionedBy t.body)
    ++ a.directives.flatMap (fun d => d.arguments.map Schema.mentionedByInput)
    ++ a.rootNodes.flatMap (fun r => r.roots.map Prod.snd)

/-- Every mentioned type is known. -/
def typesKnown : Bool :=
  let known := a.definitions.map (·.name) ++ a.oldTypes
  a.mentioned.all fun n => known.contains n || Schema.isStandardType n

/-- The kind of type that is there to extend: a definition of the document comes before
what is there already. -/
def extendedKind? (name : String) : Option TypeKind :=
  match (a.definitions.reverse.find? (·.name == name)) with
  | some d => some d.body.kind
  | none =>
    match a.base with
    | some s => if s.hasType name then s.kind? name else none
    | none => none

/-- Extensions extend a type of their own kind. -/
def extensionsFit : Bool :=
  a.extensions.all fun t => a.extendedKind? t.name == some t.body.kind

/-! ### Uses of directives -/

/-- The places on an input. -/
def inputPlace (location : String) (i : InputNode) : DirectivePlace := ⟨location, i.directives⟩

/-- The places on a field. -/
def fieldPlaces (f : FieldNode) : List DirectivePlace :=
  ⟨"FIELD_DEFINITION", f.directives⟩ :: f.arguments.map (inputPlace "ARGUMENT_DEFINITION")

/-- The name of a place on a type. -/
def typeLocation : TypeKind → String
  | .scalar => "SCALAR"
  | .object => "OBJECT"
  | .interface => "INTERFACE"
  | .union => "UNION"
  | .enum => "ENUM"
  | .input => "INPUT_OBJECT"

/-- The places within a type. In an extension, the fields of an input type count as
arguments. -/
def memberPlaces (t : TypeNode) : List DirectivePlace :=
  match t.body with
  | .object _ fs | .interface _ fs => fs.flatMap fieldPlaces
  | .enum vs => vs.map fun v => ⟨"ENUM_VALUE", v.directives⟩
  | .input fs =>
    fs.map (inputPlace (if t.extends? then "ARGUMENT_DEFINITION" else "INPUT_FIELD_DEFINITION"))
  | _ => []

/-- The place on a type itself. -/
def typePlace (t : TypeNode) : DirectivePlace := ⟨typeLocation t.body.kind, t.directives⟩

/-- The place on the schema itself. -/
def rootPlace (r : RootsNode) : DirectivePlace := ⟨"SCHEMA", r.directives⟩

/-- The places that stand alone: all but those on types and on the schema. -/
def innerPlaces : List DirectivePlace :=
  a.typeNodes.flatMap memberPlaces
    ++ a.directives.flatMap fun d => d.arguments.map (inputPlace "ARGUMENT_DEFINITION")

/-- All places. -/
def places : List DirectivePlace :=
  a.innerPlaces ++ a.typeNodes.map typePlace ++ a.rootNodes.map rootPlace

/-- All uses. -/
def uses : List DirectiveUse := a.places.flatMap (·.uses)

/-- Every used directive is known and may stand where it stands. -/
def usesAllowed : Bool :=
  a.places.all fun p => p.uses.all fun u =>
    (a.directive? u.name).any fun d => d.locations.contains p.location

/-- Of the uses in one place, those that may not be repeated. -/
def singleUses (uses : List DirectiveUse) : List String :=
  (uses.map (·.name)).filter fun n => (a.directive? n).any (!·.repeatable)

/-- Directives are used once in a place; all nodes of a type are one place, and so are
all nodes of the schema. -/
def usesOnce : Bool :=
  a.innerPlaces.all (fun p => distinct (a.singleUses p.uses))
    && (a.typeNodes.all fun t =>
        distinct (a.singleUses ((a.nodesOf t.name).flatMap (·.directives))))
    && distinct (a.singleUses (a.rootNodes.flatMap (·.directives)))

mutual

/-- Whether no input object of a literal has a field twice. -/
def literalOnce : Literal → Bool
  | .list xs => literalsOnce xs
  | .object fs => distinct (fs.map Prod.fst) && fieldLiteralsOnce fs
  | _ => true

/-- Whether no input object of several literals has a field twice. -/
def literalsOnce : List Literal → Bool
  | [] => true
  | x :: xs => literalOnce x && literalsOnce xs

/-- Whether no input object of several fields has a field twice. -/
def fieldLiteralsOnce : List (String × Literal) → Bool
  | [] => true
  | (_, x) :: xs => literalOnce x && fieldLiteralsOnce xs

end

/-- The defaults of the document. -/
def defaults : List Literal :=
  (a.inputLists ++ a.typeNodes.map (·.body.inputs)).flatMap fun is => is.filterMap (·.default?)

/-- The arguments of a use are those of its directive: known, once, and all that it
needs. -/
def argumentsFit (u : DirectiveUse) : Bool :=
  let given := u.arguments.map Prod.fst
  distinct given && u.arguments.all (fun x => literalOnce x.2)
    && match a.directive? u.name with
      | some d =>
        given.all (fun n => d.arguments.any (·.name == n))
          && d.arguments.all fun i => !i.isRequired || given.contains i.name
      | none => true

/-! ### All rules -/

/-- Whether a document keeps all rules. -/
def fits : Bool :=
  a.typesOnce && a.directivesOnce && a.schemaOnce && a.rootsOnce && a.fieldsOnce
    && a.wordsOnce && a.inputsOnce && a.typesKnown && a.extensionsFit && a.usesAllowed
    && a.usesOnce && a.uses.all a.argumentsFit && a.defaults.all literalOnce

theorem distinct_iff_nodup (xs : List String) : distinct xs = true ↔ xs.Nodup := by
  induction xs with
  | nil => simp [distinct]
  | cons x xs ih => simp [distinct, ih]

end Addition
end SchemaForge
