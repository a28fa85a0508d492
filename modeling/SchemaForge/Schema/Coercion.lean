import SchemaForge.Schema.Leaf

/-!
# Values for arguments and variables

Literals and the values of variables become values of the types that they stand for.
Both fit or do not; null fits where it is not excluded, a single value fits where a list
is expected, and fields of an input type that are left out take their defaults. A
variable without a value counts as left out.
-/
namespace SchemaForge

open Language

/-- Whether a value is that of something left out. -/
def Value.isAbsent : Value → Bool
  | .object "UndefinedType" [] => true
  | _ => false

namespace Coercion

/-- The defaults of inputs. -/
abbrev Defaults := InputNode → Option Value

/-- A value inside the lists of a type. -/
def inLists : TypeRef → Value → Value
  | .named _, v => v
  | .list t, v => .list [inLists t v]
  | .nonNull t, v => inLists t v

/-- The fields of an input type with what is given for them: none where a field has
neither a value nor a default but needs one, or where a value did not fit. -/
def assemble (defaults : Defaults) (given : List (String × Option Value)) :
    List InputNode → Option Fields
  | [] => some []
  | i :: is =>
    match given.lookup i.name with
    | some none => none
    | some (some v) => (assemble defaults given is).map ((i.name, v) :: ·)
    | none =>
      match defaults i with
      | some v => (assemble defaults given is).map ((i.name, v) :: ·)
      | none => if i.type.isNonNull then none else assemble defaults given is

variable (s : Schema) (leaves : Implementations)

/-- The value of a literal of a scalar or enum. -/
def leafLiteral (vars : Fields) (name : String) (l : Literal) : Option Value :=
  match s.leaf? leaves name with
  | some leaf =>
    match leaf.parseLiteral l vars with
    | .ok v => if v.isAbsent then none else some v
    | .error _ => none
  | none => none

/-- The type of an input field, by the name of the input type. -/
def inputType? (type field : String) : Option TypeRef :=
  ((s.inputs type).find? (·.name == field)).map (·.type)

/-- Whether a literal is a variable without a value. -/
def isMissing (vars : Fields) : Literal → Bool
  | .var n => !Table.has vars n
  | _ => false

mutual

/-- The value of a literal of a type, if it fits. -/
def ofLiteral (defaults : Defaults) (vars : Fields) (t : TypeRef) : Literal → Option Value
  | .var n =>
    match Table.get? vars n with
    | some v => if v.isNull && t.isNonNull then none else some v
    | none => none
  | .null => if t.isNonNull then none else some .null
  | .list xs =>
    match t.nullable with
    | .list item => (ofLiterals defaults vars item xs).map .list
    | t => leafLiteral s leaves vars t.baseName (.list xs)
  | .object fs =>
    let name := t.baseName
    if s.isKind name .input then
      (assemble defaults (ofFields defaults vars name fs) (s.inputs name)).map fun fs =>
        inLists t (.record fs)
    else (leafLiteral s leaves vars name (.object fs)).map (inLists t)
  | .int d => (leafLiteral s leaves vars t.baseName (.int d)).map (inLists t)
  | .float d => (leafLiteral s leaves vars t.baseName (.float d)).map (inLists t)
  | .string x b => (leafLiteral s leaves vars t.baseName (.string x b)).map (inLists t)
  | .bool b => (leafLiteral s leaves vars t.baseName (.bool b)).map (inLists t)
  | .enum w => (leafLiteral s leaves vars t.baseName (.enum w)).map (inLists t)

/-- The values of several literals of one type, if all fit. A variable without a value
counts as null. -/
def ofLiterals (defaults : Defaults) (vars : Fields) (t : TypeRef) :
    List Literal → Option (List Value)
  | [] => some []
  | x :: xs =>
    let head := if isMissing vars x then (if t.isNonNull then none else some .null)
      else ofLiteral defaults vars t x
    match head, ofLiterals defaults vars t xs with
    | some v, some vs => some (v :: vs)
    | _, _ => none

/-- What literals give for the fields of an input type. -/
def ofFields (defaults : Defaults) (vars : Fields) (type : String) :
    List (String × Literal) → List (String × Option Value)
  | [] => []
  | (k, x) :: fs =>
    if isMissing vars x then ofFields defaults vars type fs
    else match inputType? s type k with
      | some t => (k, ofLiteral defaults vars t x) :: ofFields defaults vars type fs
      | none => ofFields defaults vars type fs

end

/-- The defaults of inputs, where defaults inside of them go so many levels down. They are
read before any scalar is implemented. -/
def defaultsTo : Nat → Defaults
  | 0, _ => none
  | n + 1, i => i.default?.bind (ofLiteral s [] (defaultsTo n) [] i.type)

/-- The defaults of inputs. -/
def defaultOf : Defaults := defaultsTo s (s.types.length + 1)

/-- Whether an input must be given: it excludes null and has no default that fits. -/
def isRequired (i : InputNode) : Bool := i.type.isNonNull && (defaultOf s i).isNone

mutual

/-- The value of a variable of a type, if it fits. -/
def ofValue (defaults : Defaults) (t : TypeRef) : Value → Option Value
  | .null => if t.isNonNull then none else some .null
  | .list xs =>
    match t.nullable with
    | .list item => (ofValues defaults item xs).map .list
    | t => (leafValue t.baseName (.list xs)).map (inLists t)
  | .tuple xs =>
    match t.nullable with
    | .list item => (ofValues defaults item xs).map .list
    | t => (leafValue t.baseName (.tuple xs)).map (inLists t)
  | .record fs =>
    let name := t.baseName
    if s.isKind name .input then
      if fs.all fun f => (inputType? s name f.1).isSome then
        (assemble defaults (ofValueFields defaults name fs) (s.inputs name)).map fun fs =>
          inLists t (.record fs)
      else none
    else (leafValue name (.record fs)).map (inLists t)
  | v => (leafValue t.baseName v).map (inLists t)
where
  /-- The value of a scalar or enum. -/
  leafValue (name : String) (v : Value) : Option Value :=
    match s.leaf? leaves name with
    | some leaf => (leaf.parse v).toOption
    | none => none

/-- The values of several items of one type, if all fit. -/
def ofValues (defaults : Defaults) (t : TypeRef) : List Value → Option (List Value)
  | [] => some []
  | x :: xs =>
    match ofValue defaults t x, ofValues defaults t xs with
    | some v, some vs => some (v :: vs)
    | _, _ => none

/-- What values give for the fields of an input type. -/
def ofValueFields (defaults : Defaults) (type : String) :
    List (String × Value) → List (String × Option Value)
  | [] => []
  | (k, x) :: fs =>
    match inputType? s type k with
    | some t => (k, ofValue defaults t x) :: ofValueFields defaults type fs
    | none => ofValueFields defaults type fs

end

/-- The values of the variables of an operation, if all fit. One that is not given takes
its default, or has no value. -/
def variableValues (given : Fields) : List VariableNode → Option Fields
  | [] => some []
  | v :: vs =>
    let name := v.name
    if !s.kindIs v.type.baseName TypeKind.isInput then none
    else match Table.get? given name with
      | some x =>
        match ofValue s leaves (defaultOf s) v.type x, variableValues given vs with
        | some y, some ys => some ((name, y) :: ys)
        | _, _ => none
      | none =>
        match v.default? with
        | some l =>
          match ofLiteral s leaves (defaultOf s) [] v.type l with
          | some y => (variableValues given vs).map ((name, y) :: ·)
          | none => variableValues given vs
        | none => if v.type.isNonNull then none else variableValues given vs

/-- The value of one argument: none if it is left out without a default. -/
def argument (defaults : Defaults) (vars : Fields) (given : Arguments) (i : InputNode) :
    Except Failure (Option Value) :=
  let leftOut := match defaults i with
    | some v => .ok (some v)
    | none => if i.type.isNonNull then .error .unrepresentable else .ok none
  match given.lookup i.name with
  | none => leftOut
  | some l =>
    if isMissing vars l then leftOut
    else match ofLiteral s leaves (defaultOf s) vars i.type l with
      | some v => .ok (some v)
      | none => .error .unrepresentable

/-- The arguments of a field or directive. Those that are left out without a default are
absent. -/
def arguments (defaults : Defaults) (vars : Fields) (given : Arguments) :
    List InputNode → Except Failure Fields
  | [] => .ok []
  | i :: is =>
    match argument s leaves defaults vars given i with
    | .error e => .error e
    | .ok v => (arguments defaults vars given is).map fun fs =>
      match v with
      | some v => (i.name, v) :: fs
      | none => fs

end Coercion
end SchemaForge
