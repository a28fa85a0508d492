import SchemaForge.Request.Overlap
import SchemaForge.Schema.Addition

/-!
# The rules for requests

A request is valid for a schema when its document keeps all rules: names are used once,
everything that is named is known, fields exist and have selections exactly where they
lead to composite types, arguments and literals fit, variables are declared, used and
allowed where they stand, fragments can apply, and fields under one key mean the same.
-/
namespace SchemaForge

open Language

namespace Request

variable (r : Request)

/-! ### Names -/

/-- The document holds nothing but operations and fragments. -/
def executable : Bool :=
  r.document.all fun
    | .operation _ => true
    | .fragment _ => true
    | _ => false

/-- Operations have different names, and one without a name is the only one. -/
def operationsOnce : Bool :=
  Addition.distinct (r.operations.filterMap (·.name))
    && (r.operations.length ≤ 1 || r.operations.all (·.name.isSome))

/-- Fragments have different names. -/
def fragmentsOnce : Bool := Addition.distinct (r.fragments.map (·.name))

/-- Variables have different names. -/
def variablesOnce : Bool :=
  r.operations.all fun o => Addition.distinct (o.variableNodes.map (·.name))

/-- All arguments, with what they are arguments of. -/
def allArguments : List ArgumentSite :=
  (r.operations.flatMap fun o =>
      o.directives ++ o.variableNodes.flatMap (·.directives)).map r.useArguments
    ++ (r.fragments.flatMap (·.directives)).map r.useArguments
    ++ r.allSites.flatMap r.siteArguments

/-- Arguments and the fields of literals have different names. -/
def argumentsOnce : Bool :=
  r.allArguments.all (fun a => Addition.distinct (a.given.map Prod.fst)
      && a.given.all fun g => Addition.literalOnce g.2)
    && r.operations.all fun o => o.variableNodes.all fun v =>
        (v.default?.map Addition.literalOnce).getD true

/-! ### Types -/

/-- The types that parts name. -/
def siteTypes : List Site → List String :=
  List.filterMap fun
    | .inline _ condition _ => condition
    | _ => none

/-- Every type that is named is known. -/
def typesKnown : Bool :=
  (siteTypes r.allSites ++ r.fragments.map (·.condition)
      ++ r.operations.flatMap fun o => o.variableNodes.map (·.type.baseName)).all r.schema.hasType

/-- Fragments apply to composite types. -/
def conditionsComposite : Bool :=
  (siteTypes r.allSites ++ r.fragments.map (·.condition)).all fun t =>
    r.schema.kindIs t TypeKind.isComposite

/-- The types of variables can be given. -/
def variablesInput : Bool :=
  r.operations.all fun o => o.variableNodes.all fun v =>
    r.schema.kindIs v.type.baseName TypeKind.isInput

/-- A field exists, and has selections exactly where it leads to a composite type. -/
def fieldFits : Site → Bool
  | .field parent name _ _ hasSelections =>
    match parent, r.fieldOf? parent name with
    | none, _ => true
    | some _, none => false
    | some _, some f => hasSelections == r.schema.kindIs f.type.baseName TypeKind.isComposite
  | _ => true

/-! ### Fragments -/

/-- Every fragment that is named is known. -/
def fragmentsKnown : Bool := (spreadNames r.allSites).all fun n => (r.fragment? n).isSome

/-- Every fragment is needed by an operation. -/
def fragmentsUsed : Bool :=
  let needed := (r.operations.flatMap r.fragmentsOf).map (·.name)
  r.fragments.all fun f => needed.contains f.name

/-- No fragment names itself, directly or through others. -/
def fragmentsEnd : Bool :=
  r.fragments.all fun f =>
    let named := spreadNames (r.fragmentSites f)
    !(r.reachFrom r.fragments.length named.eraseDups).contains f.name

/-- Whether a value can have both of two types. -/
def overlapping (a b : String) : Bool :=
  a == b || (r.schema.possibleTypes a).any fun t => (r.schema.possibleTypes b).contains t

/-- A fragment can apply where it stands. -/
def fragmentFits : Site → Bool
  | .spread parent name _ =>
    match parent, (r.fragment? name).bind fun f => r.composite? f.condition with
    | some p, some t => r.overlapping p t
    | _, _ => true
  | .inline parent condition _ =>
    match parent, condition.bind r.composite? with
    | some p, some t => r.overlapping p t
    | _, _ => true
  | _ => true

/-! ### Directives -/

/-- The name of a place for directives on an operation. -/
def operationLocation : OperationKind → String
  | .query => "QUERY"
  | .mutation => "MUTATION"
  | .subscription => "SUBSCRIPTION"

/-- The place of a part. -/
def sitePlace : Site → DirectivePlace
  | .field _ _ _ uses _ => ⟨"FIELD", uses⟩
  | .spread _ _ uses => ⟨"FRAGMENT_SPREAD", uses⟩
  | .inline _ _ uses => ⟨"INLINE_FRAGMENT", uses⟩

/-- All places of directives. -/
def places : List DirectivePlace :=
  r.operations.flatMap (fun o =>
      ⟨operationLocation o.kind, o.directives⟩
        :: o.variableNodes.map fun v => ⟨"VARIABLE_DEFINITION", v.directives⟩)
    ++ r.fragments.map (fun f => ⟨"FRAGMENT_DEFINITION", f.directives⟩)
    ++ r.allSites.map sitePlace

/-- Directives are known, stand where they may stand, and not twice in one place unless
they may. -/
def directivesFit : Bool :=
  r.places.all fun p =>
    let found := p.uses.map fun u => (u.name, r.schema.directive? u.name)
    found.all (fun d => d.2.any (·.locations.contains p.location))
      && Addition.distinct ((found.filter fun d => d.2.any (!·.repeatable)).map Prod.fst)

/-! ### Arguments and literals -/

/-- Arguments are known, and those that are needed are there. -/
def argumentsFit : Bool :=
  r.allArguments.all fun a =>
    match a.inputs with
    | none => true
    | some is =>
      a.given.all (fun g => is.any (·.name == g.1))
        && is.all fun i => !Coercion.isRequired r.schema i || a.given.any (·.1 == i.name)

/-- Whether a literal fits a scalar or enum; no literal fits an input type here. -/
def leafFits (t : Option TypeRef) (l : Literal) : Bool :=
  match t with
  | none => true
  | some t => (Coercion.leafLiteral r.schema r.leaves [] t.baseName l).isSome

mutual

/-- Whether a literal fits a place. -/
def literalFits (t : Option TypeRef) : Literal → Bool
  | .var _ => true
  | .null => !(t.any TypeRef.isNonNull)
  | .list xs =>
    match t.map TypeRef.nullable with
    | some (.list item) => literalsFit (some item) xs
    | t => r.leafFits t (.list xs)
  | .object fs =>
    match t with
    | none => true
    | some u =>
      if r.schema.isKind u.baseName .input then
        (r.schema.inputs u.baseName).all (fun i => !Coercion.isRequired r.schema i || fs.any (·.1 == i.name))
          && fieldLiteralsFit u fs
      else r.leafFits t (.object fs)
  | l => r.leafFits t l

/-- Whether several literals fit places of one type. -/
def literalsFit (t : Option TypeRef) : List Literal → Bool
  | [] => true
  | x :: xs => literalFits t x && literalsFit t xs

/-- Whether the fields of a literal are known and fit. -/
def fieldLiteralsFit (t : TypeRef) : List (String × Literal) → Bool
  | [] => true
  | (k, x) :: fs =>
    (match r.literalField? (some t) k with
      | some i => literalFits (some i.type) x
      | none => false)
      && fieldLiteralsFit t fs

end

/-- Literals fit where they stand. -/
def valuesFit : Bool :=
  r.allArguments.all (fun a => a.given.all fun (name, l) =>
      r.literalFits ((inputOf a name).map (·.type)) l)
    && r.operations.all fun o => o.variableNodes.all fun v =>
        (v.default?.map (r.literalFits (some v.type))).getD true

/-! ### Variables -/

/-- Whether a literal gives a value. -/
def givesValue : Option Literal → Bool
  | none => false
  | some .null => false
  | some _ => true

/-- Whether a variable is allowed in a place. -/
def variableFits (v : VariableNode) (site : VariableSite) : Bool :=
  match site.type with
  | none => true
  | some t =>
    if t.isNonNull && !v.type.isNonNull then
      (givesValue v.default? || site.hasDefault) && r.schema.isSubtype v.type t.nullable
    else r.schema.isSubtype v.type t

/-- Variables are declared where they are used, used where they are declared, and allowed
where they stand. -/
def variablesFit : Bool :=
  r.operations.all fun o =>
    let used := r.operationVariables o
    used.all (fun u => (o.variableNodes.find? (·.name == u.name)).any (r.variableFits · u))
      && o.variableNodes.all fun v => used.any (·.name == v.name)

/-- A subscription selects one field. -/
def subscriptionsSingle : Bool :=
  r.operations.all fun o =>
    o.kind != .subscription || (r.schema.root? .subscription).isNone
      || (((r.keyed (r.rootOf o) r.documentDepth o.selections).map (·.key)).eraseDups.length == 1)

/-- Whether a request keeps all rules. Selections are compared only once it is known that
fragments end. -/
def isValid : Bool :=
  r.executable && r.operationsOnce && r.fragmentsOnce && r.variablesOnce && r.argumentsOnce
    && r.typesKnown && r.conditionsComposite && r.variablesInput
    && r.allSites.all r.fieldFits
    && r.fragmentsKnown && r.fragmentsUsed && r.fragmentsEnd && r.allSites.all r.fragmentFits
    && r.directivesFit && r.argumentsFit && r.valuesFit && r.variablesFit
    && r.subscriptionsSingle && r.mergeable

end Request
end SchemaForge
