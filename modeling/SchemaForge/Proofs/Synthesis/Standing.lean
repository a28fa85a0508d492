import SchemaForge.Proofs.Declaration.Meaning
import SchemaForge.Proofs.Registry.Lines
import SchemaForge.Synthesis.Run

/-!
# How a field stands

Of all that a synthesis gathers, a single field depends on little: the kind, the policy
and the directives of its type, its signature, the directives written on it, and the
configuration by which it is resolved. This is its `Standing`. What declarations do is
split into deeds, and each deed changes a standing in a way that depends on nothing
else. A configuration appears with its directives computed.
-/
namespace SchemaForge

/-- The text of a directive as it is written. -/
def Directive.use (x : Directive) : String := DirectiveCall.text ⟨x.name, x.arguments⟩

/-- Uses of directives with those of further directives. -/
def addUses (us : List String) (ds : List Directive) : List String :=
  ds.foldl (fun us x => addOnce us x.use) us

@[simp] theorem addUses_nil (us : List String) : addUses us [] = us := rfl

theorem mem_addUses {us : List String} {ds : List Directive} {u : String} :
    u ∈ addUses us ds ↔ u ∈ us ∨ u ∈ ds.map Directive.use := by
  induction ds generalizing us with
  | nil => simp
  | cons x ds ih =>
    rw [show addUses us (x :: ds) = addUses (addOnce us x.use) ds from rfl, ih, mem_addOnce,
      List.map_cons, List.mem_cons, or_assoc]

/-- The directives that a policy means. -/
def PolicyOption.meaning (s : ThunkState) : PolicyOption → List Directive
  | .policy p => p.directives.meaning s
  | .value _ => []

namespace FieldConfig

/-- The directives that a configuration means. -/
def meaning (s : ThunkState) (c : FieldConfig) : List Directive := c.directives.meaning s

/-- A configuration with given directives. -/
def withDirectives (c : FieldConfig) (ds : List Directive) : FieldConfig :=
  { c with directives := .list (ds.map .directive) }

/-- A configuration with its directives computed. -/
def settled (s : ThunkState) (c : FieldConfig) : FieldConfig := c.withDirectives (c.meaning s)

@[simp] theorem meaning_withDirectives (s : ThunkState) (c : FieldConfig) (ds : List Directive) :
    (c.withDirectives ds).meaning s = ds := DirectiveOption.meaning_list s ds

@[simp] theorem meaning_settled (s t : ThunkState) (c : FieldConfig) :
    (c.settled s).meaning t = c.meaning s := meaning_withDirectives t c _

/-- Whether a declaration only adds to a configuration that is there. -/
def addsOnly (c : FieldConfig) : Bool := c.lacksResolver && !c.isFetched

/-- Whether a declaration takes the owner of its mapping for its model. -/
def takesOwner (owner : Option ModelRef) (c : FieldConfig) : Bool :=
  owner.isSome && c.model.isNone && c.isFetched

end FieldConfig

/-- What a declaration does to the types. -/
inductive Deed where
  /-- A type gets a kind. -/
  | kind (type : String) (kind : Language.TypeKind)
  /-- A class takes the place of what was there, with these signatures. -/
  | replaced (type : String) (lines : Table String)
  /-- A member of a model gives a field its signature. -/
  | typed (type field signature : String)
  /-- A member of a model says how a field is resolved. -/
  | configured (type field : String) (c : FieldConfig)
  /-- What is known of how the fields of a type are resolved is written to its lines. -/
  | described (type : String)
  /-- A mapping, of some owner or none, declares a field. -/
  | declared (type field : String) (owner : Option ModelRef) (c : FieldConfig)
  /-- A type gets a policy, and perhaps the name that it is an alternate for. -/
  | governed (type : String) (p : PolicyOption) (primary : Option String)
  /-- The directives of policies are written on a type. -/
  | directed (type : String) (ps : List PolicyOption)

/-- How a field and its type stand. -/
structure Standing where
  /-- The kind of the type. -/
  kind : Language.TypeKind := .object
  /-- The directives written on the type. -/
  typeUses : List String := []
  /-- The policy of the type. -/
  policy : Option PolicyOption := none
  /-- The name that the type is an alternate for. -/
  primary : Option String := none
  /-- The signature of the field, empty if it has none. -/
  signature : String := ""
  /-- The directives written on the field. -/
  uses : List String := []
  /-- How the field is resolved. -/
  config : Option FieldConfig := none

namespace Standing

/-- How a field is resolved after a declaration of it: as declared, or, where the
declaration only adds directives, as before with these at the end. -/
def resolvedBy (s : ThunkState) (known : Option FieldConfig) (owner : Option ModelRef)
    (c : FieldConfig) : FieldConfig :=
  if c.takesOwner owner then ({ c with model := owner } : FieldConfig).settled s
  else match known with
    | none => c.settled s
    | some old =>
      if c.addsOnly then old.withDirectives (old.meaning s ++ c.meaning s) else c.settled s

/-- The policy after another is set: null leaves the one that is there. -/
def governedBy (known : Option PolicyOption) : PolicyOption → Option PolicyOption
  | .value .null => known
  | p => some p

section resolvedBy

variable {s : ThunkState} {owner : Option ModelRef} {c : FieldConfig}

theorem resolvedBy_owner (known : Option FieldConfig) (h : c.takesOwner owner) :
    resolvedBy s known owner c = ({ c with model := owner } : FieldConfig).settled s := by
  unfold resolvedBy
  rw [if_pos h]

theorem resolvedBy_none (h : ¬c.takesOwner owner) :
    resolvedBy s none owner c = c.settled s := by
  unfold resolvedBy
  rw [if_neg h]

theorem resolvedBy_some (old : FieldConfig) (h : ¬c.takesOwner owner) :
    resolvedBy s (some old) owner c
      = if c.addsOnly then old.withDirectives (old.meaning s ++ c.meaning s) else c.settled s := by
  unfold resolvedBy
  rw [if_neg h]

end resolvedBy

/-- What a deed does to how a field stands. -/
def step (s : ThunkState) (type field : String) (v : Standing) : Deed → Standing
  | .kind t k => if t = type then { v with kind := k } else v
  | .replaced t lines =>
    if t = type then
      { v with kind := .object, typeUses := [], signature := (lines.get? field).getD "", uses := [] }
    else v
  | .typed t f signature => if t = type ∧ f = field then { v with signature } else v
  | .configured t f c => if t = type ∧ f = field then { v with config := some (c.settled s) } else v
  | .described t =>
    if t = type then { v with uses := addUses v.uses ((v.config.map (·.meaning s)).getD []) } else v
  | .declared t f owner c =>
    if (t = type ∧ f = field) ∧ v.kind ≠ .union then
      { v with
        signature := if c.returnType.truthy then c.signature else v.signature
        uses := addUses v.uses (c.meaning s)
        config := if c.isActive then some (resolvedBy s v.config owner c) else v.config }
    else v
  | .governed t p primary =>
    if t = type then
      { v with policy := governedBy v.policy p, primary := primary.or v.primary }
    else v
  | .directed t ps =>
    if t = type then { v with typeUses := addUses v.typeUses (ps.flatMap (·.meaning s)) } else v

/-- What several deeds do to how a field stands. -/
def after (s : ThunkState) (type field : String) (deeds : List Deed) (v : Standing) : Standing :=
  deeds.foldl (step s type field) v

theorem after_append (s : ThunkState) (type field : String) (ds es : List Deed) (v : Standing) :
    after s type field (ds ++ es) v = after s type field es (after s type field ds v) :=
  List.foldl_append

end Standing

namespace Draft

/-- How a field is configured. -/
def configOf? (d : Draft) (type field : String) : Option FieldConfig :=
  (d.configs.get? type).bind fun fs => Table.get? fs field

/-- How a field stands in a draft. -/
def standing (s : ThunkState) (type field : String) (d : Draft) : Standing where
  kind := (d.registry.entry type).kind
  typeUses := (d.registry.entry type).directives
  policy := d.extensions.policy? type
  primary := d.extensions.primary? type
  signature := (d.registry.line type field).type
  uses := (d.registry.line type field).directives
  config := (d.configOf? type field).map (·.settled s)

/-- Nothing is kept twice under one name. -/
structure Tidy (d : Draft) : Prop where
  /-- Every type is declared once. -/
  types : (Table.keys d.registry).Nodup
  /-- Every field is configured once. -/
  configs : ∀ type fs, d.configs.get? type = some fs → (Table.keys fs).Nodup

/-- A draft that starts from nothing but extensions is tidy. -/
theorem tidy_of_extensions (x : Extensions) : Tidy { extensions := x } where
  types := List.nodup_nil
  configs _ _ h := by cases h

end Draft
end SchemaForge
