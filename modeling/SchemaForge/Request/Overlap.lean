import SchemaForge.Language.Printer
import SchemaForge.Request.Sites

/-!
# Fields under one key

Two fields that answer under one key must mean the same. Where one object can have both,
they are the same field with the same arguments; in any case their types agree, and so
do the fields below them. `Request.mergeable` checks this for all selections.
-/
namespace SchemaForge

open Language

/-- A field under its key, with what the schema says about it. -/
structure KeyedField where
  /-- The key. -/
  key : String
  /-- The type from which it is selected. -/
  parent : Option String
  /-- Its name. -/
  name : String
  /-- Its arguments. -/
  arguments : Arguments
  /-- Its type. -/
  type : Option TypeRef
  /-- What is selected below it. -/
  selections : List Selection

namespace Request

mutual

/-- A literal with the fields of its objects by name. -/
def sortedLiteral : Literal → Literal
  | .list xs => .list (sortedLiterals xs)
  | .object fs => .object ((sortedFields fs).mergeSort fun a b => a.1 ≤ b.1)
  | l => l

/-- Several literals with the fields of their objects by name. -/
def sortedLiterals : List Literal → List Literal
  | [] => []
  | x :: xs => sortedLiteral x :: sortedLiterals xs

/-- Fields with literals whose fields are by name. -/
def sortedFields : List (String × Literal) → List (String × Literal)
  | [] => []
  | (k, x) :: fs => (k, sortedLiteral x) :: sortedFields fs

end

/-- Whether two lists of arguments are the same, in any order. -/
def sameArguments (xs ys : Arguments) : Bool :=
  xs.length == ys.length && xs.all fun (name, l) =>
    match ys.lookup name with
    | some m => (sortedLiteral l).print == (sortedLiteral m).print
    | none => false

variable (r : Request)

/-- Whether the types of two fields cannot answer under one key. -/
def typesDiffer : TypeRef → TypeRef → Bool
  | .nonNull t, .nonNull u => typesDiffer t u
  | .nonNull _, _ => true
  | _, .nonNull _ => true
  | .list t, .list u => typesDiffer t u
  | .list _, _ => true
  | _, .list _ => true
  | .named a, .named b =>
    let isLeaf n := !r.schema.kindIs n TypeKind.isComposite
    (isLeaf a || isLeaf b) && a != b

/-- Whether a value that is selected from one type is never selected from another. -/
def apart (a b : Option String) : Bool :=
  match a, b with
  | some a, some b => a != b && r.schema.isKind a .object && r.schema.isKind b .object
  | _, _ => false

/-- The fields that selections put under keys, fragments going so many levels down. -/
def keyed (parent : Option String) : Nat → List Selection → List KeyedField
  | 0, _ => []
  | n + 1, xs => xs.flatMap fun
    | .field alias? name arguments _ sub =>
      [{ key := responseKey alias? name, parent, name, arguments
         type := (r.fieldOf? parent name).map (·.type), selections := sub }]
    | .inline condition _ sub => keyed (r.within parent condition) n sub
    | .spread name _ =>
      match r.fragment? name with
      | some f => keyed (r.composite? f.condition) n f.selections
      | none => []

/-- The fields below a field. -/
def keyedBelow (n : Nat) (f : KeyedField) : List KeyedField :=
  r.keyed (f.type.bind fun t => r.composite? t.baseName) n f.selections

/-- Whether two fields under one key contradict each other, looking so many levels down;
the flag tells whether no object has both. -/
def conflict (depth : Nat) : Nat → Bool → KeyedField → KeyedField → Bool
  | 0, _, _, _ => false
  | n + 1, exclusive, a, b =>
    let exclusive := exclusive || r.apart a.parent b.parent
    let meaning := !exclusive && (a.name != b.name || !sameArguments a.arguments b.arguments)
    let types := match a.type, b.type with
      | some t, some u => r.typesDiffer t u
      | _, _ => false
    let parts := !a.selections.isEmpty && !b.selections.isEmpty
      && (r.keyedBelow depth a).any fun x =>
        (r.keyedBelow depth b).any fun y => x.key == y.key && conflict depth n exclusive x y
    meaning || types || parts

/-- Whether no two of some fields contradict each other. -/
def agree (depth : Nat) : List KeyedField → Bool
  | [] => true
  | f :: fs => fs.all (fun g => f.key != g.key || !r.conflict depth depth false f g) && agree depth fs

/-- How deep the document goes when no fragment names itself. -/
def documentDepth : Nat :=
  (r.operations.map fun o => Selection.depthAll o.selections).foldl max 0
    + (r.fragments.map fun f => Selection.depthAll f.selections + 1).foldl (· + ·) 1

mutual

/-- Whether the fields of selections and those below them agree. -/
def agreeAt (n : Nat) (parent : Option String) : Selection → Bool
  | .field _ name _ _ sub =>
    let parent := r.below parent name
    r.agree n (r.keyed parent n sub) && agreeAll n parent sub
  | .spread .. => true
  | .inline condition _ sub =>
    let parent := r.within parent condition
    r.agree n (r.keyed parent n sub) && agreeAll n parent sub

/-- Whether the fields below several selections agree. -/
def agreeAll (n : Nat) (parent : Option String) : List Selection → Bool
  | [] => true
  | x :: xs => agreeAt n parent x && agreeAll n parent xs

end

/-- Whether all fields under one key mean the same. -/
def mergeable : Bool :=
  let n := r.documentDepth
  let whole (parent : Option String) (xs : List Selection) : Bool :=
    r.agree n (r.keyed parent n xs) && r.agreeAll n parent xs
  r.operations.all (fun o => whole (r.rootOf o) o.selections)
    && r.fragments.all (fun f => whole (r.composite? f.condition) f.selections)

end Request
end SchemaForge
