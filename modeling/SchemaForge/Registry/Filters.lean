import SchemaForge.Registry.Basic
import SchemaForge.Registry.Naming

/-!
# Conditions and sort orders of a field

A field that is fetched from a store takes arguments for pages, conditions and orders.
Its condition input and order enum follow from the lines of the returned type: a line
can be filtered when its type is a plain value, or a single object whose `id` is one,
and sorted when it is a single plain value. `addFilters` writes both into the registry,
and takes the order argument from a field that has nothing to sort by. It stops at the
first signature that cannot be read, with what it wrote until then in place.
-/
namespace SchemaForge

open Language

/-- A change of a registry that may stop half-way. -/
abbrev Edit := ExceptT Failure (StateM Registry)

namespace Registry

/-- The kinds of values that conditions compare. -/
def filterableTypes : List String := ["String", "Int", "Float", "Boolean", "Date", "DateTime"]

/-- The kinds of values that are in order. -/
def comparableTypes : List String := ["Int", "Float", "Date", "DateTime"]

/-- The scalars that need no definition. -/
def basicTypes : List String :=
  ["ID", "String", "Int", "Float", "Boolean", "DateTime", "Date", "JSON"]

/-- The connectives of conditions. -/
def connectives : List String := ["and", "or"]

/-- The directions of sort orders. -/
def directions : List String := ["ASC", "DESC"]

/-- The arguments of a field that is fetched from a store. -/
def fetchArguments (type field : String) (isList : Bool) : List (String × String) :=
  if isList then
    [("page", "Int"), ("perPage", "Int"), ("locale", "String"),
      ("where", whereInputName type field), ("order", "[" ++ orderEnumName type field ++ "!]")]
  else [("id", "String"), ("locale", "String"), ("where", whereInputName type field)]

/-- Declare the arguments of a field that is fetched from a store. -/
def addFetchArguments (line : FieldLine) (type field : String) (isList : Bool) : FieldLine :=
  (fetchArguments type field isList).foldl (fun line a => line.addArgument a.1 a.2) line

/-- The operators on a kind of value with their operand types. -/
def operatorTypes (kind : String) : List (String × String) :=
  [("eq", kind), ("ne", kind), ("in", "[" ++ kind ++ "]"), ("notIn", "[" ++ kind ++ "]"),
    ("null", "Boolean")]
  ++ (if kind == "String" then [("like", kind), ("notLike", kind)]
    else if comparableTypes.contains kind then
      [("lt", kind), ("lte", kind), ("gt", kind), ("gte", kind)]
    else [])

/-- The lines of the operator input of a kind of value. -/
def operatorLines (kind : String) : Table FieldLine :=
  (operatorTypes kind).map fun (name, type) => (name, { type })

/-- The kind of value that a signature names, if conditions compare it. -/
def filterable? (signature : String) : Except Failure (Option String) :=
  if signature == "" then .ok none
  else (Signature.baseName signature).map fun name =>
    if filterableTypes.contains name then some name else none

/-- Whether values of a signature can be sorted by. -/
def isSortable (r : Registry) (signature : String) : Except Failure Bool :=
  if signature == "" then .ok false
  else (TypeRef.ofText? signature).map fun t =>
    !t.isList && match Table.get? r t.baseName with
      | none => true
      | some entry => entry.kind == .enum || entry.kind == .scalar

/-- Add the operator input of a kind of value unless it is there. -/
def ensureOperatorInput (r : Registry) (kind : String) : Registry :=
  Table.ensure r (operatorInputName kind) { kind := .input, lines := operatorLines kind }

/-- The kind of value by which a line is filtered: its own, or that of the `id` of the
single object that it returns. -/
def filterKind? (r : Registry) (signature : String) : Except Failure (Option String) := do
  match ← filterable? signature with
  | some kind => return some kind
  | none =>
    match r.line? (Signature.withoutEndMarks signature) "id" with
    | some line => filterable? line.type
    | none => return none

/-- Write the condition and the sort orders of one line of the returned type. -/
def addFilter (whereInput orderEnum returned : String) (isList : Bool)
    (field : String) (line : FieldLine) : Edit Unit := do
  match ← filterKind? (← get) line.type with
  | some kind =>
    modify fun r => setFieldType (ensureOperatorInput r kind) whereInput field
      (operatorInputName kind)
  | none => modify (deleteField · whereInput field)
  if isList then
    let r ← get
    let signature := ((r.line? returned field).map (·.type)).getD line.type
    if ← isSortable r signature then
      modify fun r => directions.foldl
        (fun r d => ensureField r orderEnum (field ++ "_" ++ d)) r

/-- Write the conditions and sort orders of all lines of the returned type. -/
def fillFilters (whereInput orderEnum returned : String) (isList : Bool) : Edit Unit := do
  let lines := ((Table.get? (← get) returned).map (·.lines)).getD []
  lines.forM fun (field, line) => addFilter whereInput orderEnum returned isList field line

/-- Remove an order enum without values, and the argument that it was for. -/
def dropEmptyOrder (r : Registry) (type field orderEnum : String) : Registry :=
  if r.isPopulated orderEnum then r
  else Table.modify (Table.erase r orderEnum) type fun entry =>
    { entry with lines := entry.lines.modify field fun line =>
        { line with arguments := line.arguments.erase "order" } }

/-- Start a condition input with the two connectives. -/
def startWhereInput (r : Registry) (whereInput : String) : Registry :=
  connectives.foldl (fun r c => setFieldType r whereInput c ("[" ++ whereInput ++ "!]"))
    (setKind r whereInput .input)

/-- Write the condition input of a field, and for a list its order enum, from the type
that it returns. Where both are there already, nothing changes. -/
def addFilters (type field returned : String) (isList : Bool) : Edit Unit := do
  let whereInput := whereInputName type field
  let orderEnum := orderEnumName type field
  let hasWhere := isPopulated (← get) whereInput
  let hasOrder := isPopulated (← get) orderEnum
  if hasWhere && hasOrder then return
  if !hasWhere then modify (startWhereInput · whereInput)
  if isList && !hasOrder then modify (setKind · orderEnum .enum)
  if !basicTypes.contains returned then
    if Table.has (← get) returned then fillFilters whereInput orderEnum returned isList
    else throw (.unknownReturnType returned)
  if isList then modify (dropEmptyOrder · type field orderEnum)

end Registry
end SchemaForge
