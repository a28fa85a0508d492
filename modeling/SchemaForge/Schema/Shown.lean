import SchemaForge.Schema.Coercion

/-!
# Nodes as they show without a text

A type that was not read from a text has no text of its own to show, so what is shown is
made from what it means: descriptions are blocks, of all directives only deprecations
show, and a default is written anew from its value.
-/
namespace SchemaForge

open Language

namespace Schema

/-- Uses of directives as far as they show without a text: deprecations. -/
def shownUses (uses : List DirectiveUse) : List DirectiveUse :=
  (uses.filter (·.name == "deprecated")).map fun u =>
    match u.arguments.lookup "reason" with
    | some (.string reason _) =>
      if reason == standardReason then ⟨u.name, []⟩ else ⟨u.name, [("reason", .string reason false)]⟩
    | _ => ⟨u.name, []⟩

/-- A description as a block. -/
def shownDescription (d : Option Description) : Option Description :=
  d.map fun d => ⟨d.text, true⟩

/-- A number without a fraction of zero. -/
def shownReal (x : Real64) : Literal :=
  match x.toInt? with
  | some n => if n.natAbs < Nat.pow 10 16 then .float (showInt n) else .float (Value.real x).plain
  | none => .float (Value.real x).plain

/-- The literal of a leaf as it is serialized: an identifier that is a whole number shows
as one. -/
def leafLiteral (leaf : Leaf) : Value → Option Literal
  | .bool b => some (.bool b)
  | .int n => some (.int (showInt n))
  | .real x => some (shownReal x)
  | .text s =>
    match leaf with
    | .enum _ => some (.enum s)
    | .id => if (Written.int? s).any (showInt · == s) then some (.int s) else some (.string s false)
    | _ => some (.string s false)
  | _ => none

variable (s : Schema)

mutual

/-- The literal of a value of a type, if it has one. -/
def literalOf (t : TypeRef) : Value → Option Literal
  | .null => if t.isNonNull then none else some .null
  | .list xs =>
    match t.nullable with
    | .list item => some (.list (literalsOf item xs))
    | _ => none
  | .record fs =>
    if s.isKind t.baseName .input then some (.object (fieldLiteralsOf t.baseName fs)) else none
  | v => do leafLiteral (← s.leaf? [] t.baseName) (← ((← s.leaf? [] t.baseName).serialize v).toOption)

/-- The literals of several values of a type, those without one left out. -/
def literalsOf (t : TypeRef) : List Value → List Literal
  | [] => []
  | v :: vs => (literalOf t v).toList ++ literalsOf t vs

/-- The literals of the fields of an input type. -/
def fieldLiteralsOf (type : String) : List (String × Value) → List (String × Literal)
  | [] => []
  | (k, v) :: fs =>
    match (Coercion.inputType? s type k).bind (literalOf · v) with
    | some l => (k, l) :: fieldLiteralsOf type fs
    | none => fieldLiteralsOf type fs

end

/-- An input as it shows without a text. -/
def shownInput (i : InputNode) : InputNode :=
  { i with description := shownDescription i.description, directives := shownUses i.directives
           default? := (Coercion.defaultOf s i).bind (s.literalOf i.type) }

/-- A field as it shows without a text. -/
def shownField (f : FieldNode) : FieldNode :=
  { f with description := shownDescription f.description
           arguments := f.arguments.map s.shownInput, directives := shownUses f.directives }

/-- A body as it shows without a text. -/
def shownBody : TypeBody → TypeBody
  | .object is fs => .object is (fs.map s.shownField)
  | .interface is fs => .interface is (fs.map s.shownField)
  | .enum vs => .enum (vs.map fun v =>
      { v with description := shownDescription v.description, directives := shownUses v.directives })
  | .input fs => .input (fs.map s.shownInput)
  | b => b

/-- The nodes that show a type. -/
def shownNodes (t : SchemaType) : List TypeNode :=
  if t.written then t.node :: t.extensions
  else [{ t.node with description := shownDescription t.node.description, directives := []
                      body := s.shownBody t.body }]

end Schema
end SchemaForge
